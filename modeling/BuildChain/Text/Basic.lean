/-! # Text

A text is the list of its code points: characters, and halves of surrogate pairs that an argument
may have. Cutting a text at separators and joining the pieces are inverse up to empty pieces, which
the rules of this library mostly leave out.
-/

namespace BuildChain

/-- What a text consists of: characters, and halves of surrogate pairs that stand alone. Such a half
comes from an argument with bytes that encode no character, and it is in no file. -/
inductive CodePoint
  | char (c : Char)
  /-- The given half, counted from the first. -/
  | lone (n : Fin 0x800)
  deriving Repr

namespace CodePoint

def toNat : CodePoint → Nat
  | char c => c.toNat
  | lone n => 0xd800 + n

theorem toNat_inj {c d : CodePoint} : c.toNat = d.toNat ↔ c = d := by
  constructor
  · intro h
    cases c with
    | char c =>
      cases d with
      | char d => exact congrArg char (Char.toNat_inj.mp h)
      | lone m =>
        have hvalid := c.valid
        have hm := m.isLt
        simp only [toNat] at h
        change c.toNat < 0xd800 ∨ 0xdfff < c.toNat ∧ c.toNat < 0x110000 at hvalid
        omega
    | lone n =>
      cases d with
      | char d =>
        have hvalid := d.valid
        have hn := n.isLt
        simp only [toNat] at h
        change d.toNat < 0xd800 ∨ 0xdfff < d.toNat ∧ d.toNat < 0x110000 at hvalid
        omega
      | lone m =>
        simp only [toNat] at h
        exact congrArg lone (Fin.ext (by omega))
  · rintro rfl
    rfl

theorem toNat_lt (c : CodePoint) : c.toNat < 0x110000 := by
  cases c with
  | char c =>
    have hvalid : c.toNat < 0xd800 ∨ 0xdfff < c.toNat ∧ c.toNat < 0x110000 := c.valid
    rw [toNat]
    omega
  | lone n =>
    rw [toNat]
    omega

instance : DecidableEq CodePoint := fun _ _ => decidable_of_iff _ toNat_inj

def isLone : CodePoint → Bool
  | char _ => false
  | lone _ => true

/-- The half stands for no byte of an argument. -/
def isStray : CodePoint → Bool
  | char _ => false
  | lone n => !(decide (0x480 ≤ n.val) && decide (n.val < 0x500))

instance : LT CodePoint := ⟨fun c d => c.toNat < d.toNat⟩

instance : DecidableLT CodePoint := fun c d => inferInstanceAs (Decidable (c.toNat < d.toNat))

instance : Std.Irrefl (fun c d : CodePoint => c < d) := ⟨fun c => Nat.lt_irrefl c.toNat⟩

instance : Std.Asymm (fun c d : CodePoint => c < d) :=
  ⟨fun _ _ => Nat.lt_asymm⟩

instance : Std.Trichotomous (fun c d : CodePoint => c < d) :=
  ⟨fun _ _ h h' => toNat_inj.mp (Nat.le_antisymm (Nat.le_of_not_lt h') (Nat.le_of_not_lt h))⟩

instance : Trans (fun c d : CodePoint => c < d) (fun c d : CodePoint => c < d)
    (fun c d : CodePoint => c < d) :=
  ⟨fun h h' => Nat.lt_trans h h'⟩

end CodePoint

abbrev Text := List CodePoint

instance : Coe Char CodePoint := ⟨.char⟩

instance : Coe String Text := ⟨fun s => s.toList.map .char⟩

namespace Text

/-- What messages show in place of a value that was announced and not given. -/
def absent : Text := "[]"

/-- The parts in order, with `sep` between neighbours. -/
abbrev join (sep : Text) (parts : List Text) : Text :=
  List.intercalate sep parts

/-- The parts between the separators, empty ones included: one more than there are separators. -/
def split (sep : CodePoint → Bool) : Text → List Text
  | [] => [[]]
  | c :: t => if sep c then [] :: split sep t else (split sep t).modifyHead (c :: ·)

/-- The non-empty parts between the separators. -/
def pieces (sep : CodePoint → Bool) (t : Text) : List Text :=
  (split sep t).filter (!·.isEmpty)

/-- What follows the last `sep`, or all of a text that has none. -/
def afterLast (sep : CodePoint) (t : Text) : Text :=
  (t.reverse.takeWhile (· != sep)).reverse

/-- Drops the characters in `p` from the end. -/
def trimEnd (p : CodePoint → Bool) (t : Text) : Text :=
  (t.reverse.dropWhile p).reverse

/-- Drops the characters in `p` from both ends. -/
def trim (p : CodePoint → Bool) (t : Text) : Text :=
  trimEnd p (t.dropWhile p)

/-- What follows `start` in a text that begins with it. -/
def after? : (start t : Text) → Option Text
  | [], t => some t
  | _ :: _, [] => none
  | s :: start, c :: t => if s = c then after? start t else none

def ofNat (n : Nat) : Text :=
  (Nat.toDigits 10 n).map .char

/-- Blanks in front of `t` up to the given width. -/
def padLeft (width : Nat) (t : Text) : Text :=
  List.replicate (width - t.length) (.char ' ') ++ t

/-- Puts each line on a line of its own, without a line break after the last. -/
abbrev ofLines (lines : List Text) : Text :=
  join "\n" lines

/-- Each line with a line break after it. -/
def printed (lines : List Text) : Text :=
  lines.flatMap (· ++ [CodePoint.char '\n'])

theorem split_ne_nil (sep : CodePoint → Bool) (t : Text) : split sep t ≠ [] := by
  cases t with
  | nil => simp [split]
  | cons c t => by_cases h : sep c <;> simp [split, h, split_ne_nil sep t]

/-- Cutting at a separator in the middle cuts both sides on their own. -/
theorem split_append_cons {sep : CodePoint → Bool} {s : CodePoint} (hs : sep s) (a b : Text) :
    split sep (a ++ s :: b) = split sep a ++ split sep b := by
  induction a with
  | nil => simp [split, hs]
  | cons c a ih =>
    by_cases h : sep c
    · simp [split, h, ih]
    · obtain ⟨p, ps, hp⟩ := List.exists_cons_of_ne_nil (split_ne_nil sep a)
      simp [split, h, ih, hp]

theorem mem_split {sep : CodePoint → Bool} {t p : Text} (hp : p ∈ split sep t) :
    ∀ c ∈ p, c ∈ t ∧ sep c = false := by
  induction t generalizing p with
  | nil => simp_all [split]
  | cons c t ih =>
    by_cases h : sep c
    · simp only [split, h, if_true, List.mem_cons] at hp
      rcases hp with rfl | hp
      · simp
      · exact fun d hd => ⟨.tail _ (ih hp d hd).1, (ih hp d hd).2⟩
    · obtain ⟨q, qs, hq⟩ := List.exists_cons_of_ne_nil (split_ne_nil sep t)
      simp only [split, h, Bool.false_eq_true, if_false, hq, List.modifyHead_cons,
        List.mem_cons] at hp
      rcases hp with rfl | hp
      · intro d hd
        rcases List.mem_cons.mp hd with rfl | hd
        · exact ⟨.head _, by simpa using h⟩
        · have := ih (hq ▸ .head _) d hd
          exact ⟨.tail _ this.1, this.2⟩
      · have := ih (p := p) (hq ▸ .tail _ hp)
        exact fun d hd => ⟨.tail _ (this d hd).1, (this d hd).2⟩

theorem mem_pieces {sep : CodePoint → Bool} {t p : Text} (hp : p ∈ pieces sep t) :
    p ≠ [] ∧ ∀ c ∈ p, c ∈ t ∧ sep c = false := by
  simp only [pieces, List.mem_filter, Bool.not_eq_eq_eq_not, Bool.not_true,
    List.isEmpty_eq_false_iff] at hp
  exact ⟨hp.2, mem_split hp.1⟩

end Text

end BuildChain
