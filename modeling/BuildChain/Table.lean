import BuildChain.Text.Basic

/-! # Tables

Keyed values in the order in which their keys first appeared. A key has one value, the one given
last.
-/

namespace BuildChain

abbrev Table (κ ν : Type) := List (κ × ν)

namespace Table

variable {κ ν : Type} [DecidableEq κ]

/-- Gives `key` the value, at the place it has, or at the end if it is new. -/
def set (key : κ) (value : ν) : Table κ ν → Table κ ν
  | [] => [(key, value)]
  | e :: table => if e.1 = key then (key, value) :: table else e :: set key value table

def get? (key : κ) (table : Table κ ν) : Option ν :=
  table.lookup key

def keys (table : Table κ ν) : List κ :=
  table.map Prod.fst

/-- The table that results from giving all the values in order. -/
def ofList (given : List (κ × ν)) : Table κ ν :=
  given.foldl (fun table e => set e.1 e.2 table) []

/-- A value that is given is found at its key, and no other key changes. -/
theorem get?_set (key : κ) (value : ν) (k : κ) (table : Table κ ν) :
    get? k (set key value table) = if k = key then some value else get? k table := by
  induction table with
  | nil => by_cases h : k = key <;> simp [set, get?, List.lookup_cons, h, beq_false_of_ne]
  | cons e table ih =>
    obtain ⟨a, v⟩ := e
    unfold get? at ih ⊢
    by_cases h : a = key
    · subst h
      by_cases hk : k = a <;> simp [set, List.lookup_cons, hk, beq_false_of_ne]
    · by_cases hk : k = a
      · subst hk; simp [set, h]
      · simp [set, h, List.lookup_cons, beq_false_of_ne hk, ih]

/-- A new key comes last, a known one keeps its place. -/
theorem keys_set (key : κ) (value : ν) (table : Table κ ν) :
    (set key value table).keys =
      if key ∈ table.keys then table.keys else table.keys ++ [key] := by
  induction table with
  | nil => simp [set, keys]
  | cons e table ih =>
    by_cases h : e.1 = key
    · simp [set, keys, h]
    · have : key ≠ e.1 := fun he => h he.symm
      unfold keys at ih ⊢
      by_cases hm : key ∈ table.map Prod.fst <;> simp_all [set]

end Table

/-- Named texts. -/
abbrev Entries := Table Text Text

end BuildChain
