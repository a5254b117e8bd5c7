import BuildChain.Text.Basic

/-! # Bytes of a text

Files hold texts in UTF-8. Reading is strict: the first sequence that encodes no character is an
error, which names the bytes of that sequence read so far. So is writing: a half of a surrogate pair
that stands alone is an error, which names the halves from there on.
-/

namespace BuildChain.Text

abbrev Bytes := List UInt8

/-- The bytes of a code point. -/
def encodePoint (v : Nat) : Bytes :=
  if v < 0x80 then [.ofNat v]
  else if v < 0x800 then [.ofNat (v / 64 + 0xc0), .ofNat (v % 64 + 0x80)]
  else if v < 0x10000 then
    [.ofNat (v / 4096 + 0xe0), .ofNat (v / 64 % 64 + 0x80), .ofNat (v % 64 + 0x80)]
  else
    [.ofNat (v / 262144 + 0xf0), .ofNat (v / 4096 % 64 + 0x80), .ofNat (v / 64 % 64 + 0x80),
      .ofNat (v % 64 + 0x80)]

/-- The bytes of a text. Half a surrogate pair gets bytes of the same form, which no file is given
and which are an error to read. -/
def encode (t : Text) : Bytes :=
  t.flatMap fun c => encodePoint c.toNat

/-- The code points from `start` to `last` cannot be encoded. -/
structure EncodeError where
  first : CodePoint
  start : Nat
  last : Nat
  deriving DecidableEq, Repr

/-- The first code point in `p` and all halves of pairs that follow it. -/
def errorAt? (p : CodePoint → Bool) (t : Text) : Option EncodeError :=
  match t.dropWhile (!p ·) with
  | [] => none
  | c :: rest =>
    let start := (t.takeWhile (!p ·)).length
    some ⟨c, start, start + (rest.takeWhile CodePoint.isLone).length⟩

/-- The text consists of characters. -/
def IsWhole (t : Text) : Prop :=
  ∀ c ∈ t, c.isLone = false

instance (t : Text) : Decidable (IsWhole t) :=
  inferInstanceAs (Decidable (∀ c ∈ t, c.isLone = false))

/-- What keeps a text from being written to a file. -/
def encodeError? (t : Text) : Option EncodeError :=
  errorAt? CodePoint.isLone t

/-- What keeps a text from being the path of a file, which may have any bytes. -/
def pathError? (t : Text) : Option EncodeError :=
  errorAt? CodePoint.isStray t

inductive DecodeFault
  | invalidStart
  | invalidContinuation
  | unexpectedEnd
  deriving DecidableEq, Repr

def DecodeFault.message : DecodeFault → Text
  | invalidStart => "invalid start byte"
  | invalidContinuation => "invalid continuation byte"
  | unexpectedEnd => "unexpected end of data"

/-- The bytes from `start` to `last` encode no character. -/
structure DecodeError where
  fault : DecodeFault
  firstByte : UInt8
  start : Nat
  last : Nat
  deriving DecidableEq, Repr

/-- The lowest `width` hexadecimal digits of a number, in lower case. -/
def hexDigits : (width n : Nat) → Text
  | 0, _ => []
  | width + 1, n => hexDigits width (n / 16) ++ [.char (Nat.digitChar (n % 16))]

def DecodeError.message (e : DecodeError) : Text :=
  let place : Text :=
    if e.start = e.last then
      "byte 0x" ++ hexDigits 2 e.firstByte.toNat ++ " in position " ++ ofNat e.start
    else
      "bytes in position " ++ ofNat e.start ++ "-" ++ ofNat e.last
  "'utf-8' codec can't decode " ++ place ++ ": " ++ e.fault.message

def EncodeError.message (e : EncodeError) : Text :=
  let place : Text :=
    if e.start = e.last then
      "character '\\u" ++ hexDigits 4 e.first.toNat ++ "' in position " ++ ofNat e.start
    else
      "characters in position " ++ ofNat e.start ++ "-" ++ ofNat e.last
  "'utf-8' codec can't encode " ++ place ++ ": surrogates not allowed"

/-- A character whose first bytes were read: the value of their payload, the bounds of the next
byte, and how many bytes are still owed. -/
structure Unfinished where
  start : Nat
  firstByte : UInt8
  value : Nat
  low : Nat
  high : Nat
  owed : Nat

/-- What the first byte of a longer character promises. -/
def Unfinished.ofFirst? (start : Nat) (byte : UInt8) : Option Unfinished :=
  let b := byte.toNat
  if b < 0xc2 then none
  else if b < 0xe0 then some ⟨start, byte, b - 0xc0, 0x80, 0xbf, 1⟩
  else if b < 0xf0 then
    some ⟨start, byte, b - 0xe0, if b = 0xe0 then 0xa0 else 0x80,
      if b = 0xed then 0x9f else 0xbf, 2⟩
  else if b < 0xf5 then
    some ⟨start, byte, b - 0xf0, if b = 0xf0 then 0x90 else 0x80,
      if b = 0xf4 then 0x8f else 0xbf, 3⟩
  else none

/-- Reads the bytes from position `pos` on, given the character that is under way. -/
def decodeFrom : Option Unfinished → (pos : Nat) → Bytes → Except DecodeError Text
  | none, _, [] => .ok []
  | some u, pos, [] => .error ⟨.unexpectedEnd, u.firstByte, u.start, pos - 1⟩
  | none, pos, byte :: rest =>
    if byte.toNat < 0x80 then
      (.char (Char.ofNat byte.toNat) :: ·) <$> decodeFrom none (pos + 1) rest
    else match Unfinished.ofFirst? pos byte with
      | none => .error ⟨.invalidStart, byte, pos, pos⟩
      | some u => decodeFrom (some u) (pos + 1) rest
  | some u, pos, byte :: rest =>
    if u.low ≤ byte.toNat ∧ byte.toNat ≤ u.high then
      let value := u.value * 64 + (byte.toNat - 0x80)
      if u.owed ≤ 1 then (.char (Char.ofNat value) :: ·) <$> decodeFrom none (pos + 1) rest
      else decodeFrom
        (some { u with value := value, low := 0x80, high := 0xbf, owed := u.owed - 1 })
        (pos + 1) rest
    else .error ⟨.invalidContinuation, u.firstByte, u.start, pos - 1⟩

def decode (bytes : Bytes) : Except DecodeError Text :=
  decodeFrom none 0 bytes

end BuildChain.Text
