import BuildChain.Text.Utf8
import Mathlib.Data.List.TakeWhile

/-! # Reading what was encoded

The decoder undoes the encoding: it takes the bytes of a character as that character, whatever
bytes follow. The cases are the lengths that a character may have in bytes.
-/

namespace BuildChain.Text

theorem encode_cons (c : CodePoint) (t : Text) :
    encode (c :: t) = encodePoint c.toNat ++ encode t := by
  rw [encode, List.flatMap_cons]
  rfl

/-! ## Texts without bytes -/

theorem errorAt?_eq_none_iff {p : CodePoint → Bool} {t : Text} :
    errorAt? p t = none ↔ ∀ c ∈ t, p c = false := by
  have hnil : t.dropWhile (!p ·) = [] ↔ ∀ c ∈ t, p c = false := by
    simp [List.dropWhile_eq_nil_iff]
  rw [← hnil, errorAt?]
  cases t.dropWhile (!p ·) <;> simp

theorem encodeError?_eq_none_iff {t : Text} : encodeError? t = none ↔ IsWhole t :=
  errorAt?_eq_none_iff

theorem encode_eq_nil_iff {t : Text} : encode t = [] ↔ t = [] := by
  cases t with
  | nil => simp [encode]
  | cons c t =>
    rw [encode_cons, encodePoint]
    split
    · simp
    split
    · simp
    split <;> simp

/-! ## Reading bytes -/

variable {pos n value low high start owed : Nat} {first byte : UInt8} {rest : Bytes}

theorem toNat_ofNat_of_lt (h : n < 256) : (UInt8.ofNat n).toNat = n := by
  rw [UInt8.toNat_ofNat']
  exact Nat.mod_eq_of_lt h

/-- A byte with the payload `n` that keeps the bounds. -/
structure Continues (low high n : Nat) (byte : UInt8) : Prop where
  eq : byte.toNat = n + 0x80
  low_le : low ≤ byte.toNat
  le_high : byte.toNat ≤ high

theorem continues_usual (h : n < 64) : Continues 0x80 0xbf n (UInt8.ofNat (n + 0x80)) := by
  have hb : (UInt8.ofNat (n + 0x80)).toNat = n + 0x80 := toNat_ofNat_of_lt (by omega)
  exact ⟨hb, by omega, by omega⟩

/-- The last byte of a character completes it. -/
theorem decodeFrom_last (h : Continues low high n byte) :
    decodeFrom (some ⟨start, first, value, low, high, 1⟩) pos (byte :: rest) =
      (.char (Char.ofNat (value * 64 + n)) :: ·) <$> decodeFrom none (pos + 1) rest := by
  have hn : byte.toNat - 0x80 = n := by have := h.eq; omega
  simp [decodeFrom, h.low_le, h.le_high, hn]

/-- Any other byte adds its payload, and after it the bounds are the usual ones. -/
theorem decodeFrom_next (h : Continues low high n byte) :
    decodeFrom (some ⟨start, first, value, low, high, owed + 2⟩) pos (byte :: rest) =
      decodeFrom (some ⟨start, first, value * 64 + n, 0x80, 0xbf, owed + 1⟩) (pos + 1) rest := by
  have hn : byte.toNat - 0x80 = n := by have := h.eq; omega
  simp [decodeFrom, h.low_le, h.le_high, hn]

theorem decodeFrom_first {u : Unfinished} (h : 0x80 ≤ byte.toNat)
    (hu : Unfinished.ofFirst? pos byte = some u) :
    decodeFrom none pos (byte :: rest) = decodeFrom (some u) (pos + 1) rest := by
  have hb : ¬ byte.toNat < 0x80 := by omega
  simp [decodeFrom, hb, hu]

theorem decodeFrom_two {v : Nat} (hlow : 0x7f < v) (hhigh : v ≤ 0x7ff) :
    decodeFrom none pos
        (UInt8.ofNat (v / 64 + 0xc0) :: UInt8.ofNat (v % 64 + 0x80) :: rest) =
      (.char (Char.ofNat v) :: ·) <$> decodeFrom none (pos + 2) rest := by
  generalize hf : UInt8.ofNat (v / 64 + 0xc0) = byte
  have hb : byte.toNat = v / 64 + 0xc0 := by
    rw [← hf, toNat_ofNat_of_lt (by omega)]
  have hu : Unfinished.ofFirst? pos byte = some ⟨pos, byte, v / 64, 0x80, 0xbf, 1⟩ := by
    unfold Unfinished.ofFirst?
    simp only [hb]
    rw [if_neg (by omega), if_pos (by omega), Nat.add_sub_cancel]
  rw [decodeFrom_first (by omega) hu, decodeFrom_last (continues_usual (by omega)),
    show v / 64 * 64 + v % 64 = v by omega]

theorem decodeFrom_three {v : Nat} (hlow : 0x7ff < v) (hhigh : v ≤ 0xffff)
    (hv : v < 0xd800 ∨ 0xdfff < v) :
    decodeFrom none pos
        (UInt8.ofNat (v / 4096 + 0xe0) :: UInt8.ofNat (v / 64 % 64 + 0x80) ::
          UInt8.ofNat (v % 64 + 0x80) :: rest) =
      (.char (Char.ofNat v) :: ·) <$> decodeFrom none (pos + 3) rest := by
  generalize hf : UInt8.ofNat (v / 4096 + 0xe0) = byte
  have hb : byte.toNat = v / 4096 + 0xe0 := by
    rw [← hf, toNat_ofNat_of_lt (by omega)]
  have hu : Unfinished.ofFirst? pos byte =
      some ⟨pos, byte, v / 4096, if byte.toNat = 0xe0 then 0xa0 else 0x80,
        if byte.toNat = 0xed then 0x9f else 0xbf, 2⟩ := by
    unfold Unfinished.ofFirst?
    simp only [hb]
    rw [if_neg (by omega), if_neg (by omega), if_pos (by omega), Nat.add_sub_cancel]
  -- the narrower bounds after 0xe0 and 0xed keep out short forms and surrogates
  have hnext : Continues (if byte.toNat = 0xe0 then 0xa0 else 0x80)
      (if byte.toNat = 0xed then 0x9f else 0xbf) (v / 64 % 64)
      (UInt8.ofNat (v / 64 % 64 + 0x80)) := by
    have h := continues_usual (show v / 64 % 64 < 64 by omega)
    refine ⟨h.eq, ?_, ?_⟩ <;> rw [h.eq] <;> split <;> omega
  rw [decodeFrom_first (by omega) hu, decodeFrom_next hnext,
    decodeFrom_last (continues_usual (by omega)),
    show (v / 4096 * 64 + v / 64 % 64) * 64 + v % 64 = v by omega]

theorem decodeFrom_four {v : Nat} (hlow : 0xffff < v) (hhigh : v < 0x110000) :
    decodeFrom none pos
        (UInt8.ofNat (v / 262144 + 0xf0) :: UInt8.ofNat (v / 4096 % 64 + 0x80) ::
          UInt8.ofNat (v / 64 % 64 + 0x80) :: UInt8.ofNat (v % 64 + 0x80) :: rest) =
      (.char (Char.ofNat v) :: ·) <$> decodeFrom none (pos + 4) rest := by
  generalize hf : UInt8.ofNat (v / 262144 + 0xf0) = byte
  have hb : byte.toNat = v / 262144 + 0xf0 := by
    rw [← hf, toNat_ofNat_of_lt (by omega)]
  have hu : Unfinished.ofFirst? pos byte =
      some ⟨pos, byte, v / 262144, if byte.toNat = 0xf0 then 0x90 else 0x80,
        if byte.toNat = 0xf4 then 0x8f else 0xbf, 3⟩ := by
    unfold Unfinished.ofFirst?
    simp only [hb]
    rw [if_neg (by omega), if_neg (by omega), if_neg (by omega), if_pos (by omega),
      Nat.add_sub_cancel]
  have hnext : Continues (if byte.toNat = 0xf0 then 0x90 else 0x80)
      (if byte.toNat = 0xf4 then 0x8f else 0xbf) (v / 4096 % 64)
      (UInt8.ofNat (v / 4096 % 64 + 0x80)) := by
    have h := continues_usual (show v / 4096 % 64 < 64 by omega)
    refine ⟨h.eq, ?_, ?_⟩ <;> rw [h.eq] <;> split <;> omega
  rw [decodeFrom_first (by omega) hu, decodeFrom_next hnext,
    decodeFrom_next (continues_usual (by omega)), decodeFrom_last (continues_usual (by omega)),
    show ((v / 262144 * 64 + v / 4096 % 64) * 64 + v / 64 % 64) * 64 + v % 64 = v by omega]

/-- The bytes of a character are read as that character. -/
theorem decodeFrom_encodePoint (c : Char) (pos : Nat) (rest : Bytes) :
    decodeFrom none pos (encodePoint c.toNat ++ rest) =
      (.char c :: ·) <$> decodeFrom none (pos + (encodePoint c.toNat).length) rest := by
  have hc : Char.ofNat c.toNat = c := Char.ofNat_toNat c
  have hvalid : c.toNat < 0xd800 ∨ 0xdfff < c.toNat ∧ c.toNat < 0x110000 := c.valid
  generalize c.toNat = v at hc hvalid ⊢
  subst hc
  unfold encodePoint
  split
  · next h =>
    have hb : (UInt8.ofNat v).toNat = v := toNat_ofNat_of_lt (by omega)
    simp only [List.cons_append, List.nil_append, decodeFrom, hb, h, if_true, List.length_cons,
      List.length_nil]
  split
  · next h₁ h₂ => exact decodeFrom_two (by omega) (by omega)
  split
  · next h₁ h₂ h₃ => exact decodeFrom_three (by omega) (by omega) (by omega)
  · next h₁ h₂ h₃ => exact decodeFrom_four (by omega) (by omega)

theorem decodeFrom_encode {t : Text} (h : IsWhole t) (pos : Nat) :
    decodeFrom none pos (encode t) = .ok t := by
  induction t generalizing pos with
  | nil => rfl
  | cons c t ih =>
    obtain ⟨hc, ht⟩ := List.forall_mem_cons.mp h
    cases c with
    | lone n => cases hc
    | char c =>
      unfold encode at ih ⊢
      rw [List.flatMap_cons, CodePoint.toNat, decodeFrom_encodePoint, ih ht]
      rfl

/-- A text is read back from its bytes. -/
theorem decode_encode {t : Text} (h : IsWhole t) : decode (encode t) = .ok t :=
  decodeFrom_encode h 0

/-- What is read is characters only. -/
theorem isWhole_of_decodeFrom {u : Option Unfinished} {bytes : Bytes} {t : Text}
    (h : decodeFrom u pos bytes = .ok t) : IsWhole t := by
  have hcons : ∀ {c : Char} {t : Text} {result : Except DecodeError Text},
      (∀ t, result = .ok t → IsWhole t) → (.char c :: ·) <$> result = .ok t → IsWhole t := by
    intro c t result hresult heq
    cases result with
    | error e => cases heq
    | ok t' =>
      obtain rfl := Except.ok.inj heq
      exact List.forall_mem_cons.mpr ⟨rfl, hresult t' rfl⟩
  fun_induction decodeFrom u pos bytes generalizing t with
  | case1 =>
    obtain rfl := Except.ok.inj h
    exact List.forall_mem_nil _
  | case2 => cases h
  | case3 pos byte rest hbyte ih => exact hcons (fun t => ih) h
  | case4 => cases h
  | case5 pos byte rest hbyte u hu ih => exact ih h
  | case6 u pos byte rest hbyte value howed =>
    rename_i ih
    exact hcons (fun t => ih) h
  | case7 u pos byte rest hbyte value howed =>
    rename_i ih
    exact ih h
  | case8 => cases h

theorem isWhole_of_decode {bytes : Bytes} {t : Text} (h : decode bytes = .ok t) : IsWhole t :=
  isWhole_of_decodeFrom h

/-! ## Telling texts apart by their bytes -/

/-- The number of the first code point, and the bytes after it, read without a check. -/
def readPoint? : Bytes → Option (Nat × Bytes)
  | a :: rest =>
    if a.toNat < 0x80 then some (a.toNat, rest)
    else if a.toNat < 0xe0 then
      match rest with
      | b :: rest => some ((a.toNat - 0xc0) * 64 + (b.toNat - 0x80), rest)
      | _ => none
    else if a.toNat < 0xf0 then
      match rest with
      | b :: c :: rest =>
        some (((a.toNat - 0xe0) * 64 + (b.toNat - 0x80)) * 64 + (c.toNat - 0x80), rest)
      | _ => none
    else
      match rest with
      | b :: c :: d :: rest =>
        some ((((a.toNat - 0xf0) * 64 + (b.toNat - 0x80)) * 64 + (c.toNat - 0x80)) * 64 +
          (d.toNat - 0x80), rest)
      | _ => none
  | [] => none

theorem readPoint?_encodePoint {v : Nat} (hv : v < 0x110000) (rest : Bytes) :
    readPoint? (encodePoint v ++ rest) = some (v, rest) := by
  have hlast : ∀ n, (UInt8.ofNat (n % 64 + 0x80)).toNat = n % 64 + 0x80 :=
    fun n => toNat_ofNat_of_lt (by omega)
  unfold encodePoint
  split
  · next h =>
    have hfirst : (UInt8.ofNat v).toNat = v := toNat_ofNat_of_lt (by omega)
    simp only [List.cons_append, List.nil_append, readPoint?, hfirst, h, if_true]
  split
  · next h₁ h₂ =>
    have hfirst : (UInt8.ofNat (v / 64 + 0xc0)).toNat = v / 64 + 0xc0 :=
      toNat_ofNat_of_lt (by omega)
    simp only [List.cons_append, List.nil_append, readPoint?, hfirst, hlast]
    rw [if_neg (by omega), if_pos (by omega), Option.some_inj, Prod.mk.injEq]
    exact ⟨by omega, rfl⟩
  split
  · next h₁ h₂ h₃ =>
    have hfirst : (UInt8.ofNat (v / 4096 + 0xe0)).toNat = v / 4096 + 0xe0 :=
      toNat_ofNat_of_lt (by omega)
    simp only [List.cons_append, List.nil_append, readPoint?, hfirst, hlast]
    rw [if_neg (by omega), if_neg (by omega), if_pos (by omega), Option.some_inj, Prod.mk.injEq]
    exact ⟨by omega, rfl⟩
  · next h₁ h₂ h₃ =>
    have hfirst : (UInt8.ofNat (v / 262144 + 0xf0)).toNat = v / 262144 + 0xf0 :=
      toNat_ofNat_of_lt (by omega)
    simp only [List.cons_append, List.nil_append, readPoint?, hfirst, hlast]
    rw [if_neg (by omega), if_neg (by omega), if_neg (by omega), Option.some_inj, Prod.mk.injEq]
    exact ⟨by omega, rfl⟩

theorem encode_inj {t u : Text} : encode t = encode u ↔ t = u := by
  constructor
  · intro h
    induction t generalizing u with
    | nil =>
      cases u with
      | nil => rfl
      | cons d u =>
        have hread := readPoint?_encodePoint d.toNat_lt (encode u)
        rw [← encode_cons, ← h] at hread
        cases hread
    | cons c t ih =>
      have hread := readPoint?_encodePoint c.toNat_lt (encode t)
      rw [← encode_cons, h] at hread
      cases u with
      | nil => cases hread
      | cons d u =>
        rw [encode_cons, readPoint?_encodePoint d.toNat_lt] at hread
        obtain ⟨hpoint, hrest⟩ := Prod.mk.inj (Option.some.inj hread)
        rw [CodePoint.toNat_inj.mp hpoint, ih hrest.symm]
  · rintro rfl
    rfl

end BuildChain.Text
