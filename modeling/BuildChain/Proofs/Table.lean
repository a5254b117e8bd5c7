import Mathlib.Data.List.Basic
import BuildChain.Proofs.FirstOccurrence
import BuildChain.Table

/-! # Laws of tables

A table is known by its keys and the value at each of them. The values that are given one after
the other leave each key where it first occurred, with the value that was given last.
-/

namespace BuildChain

namespace Table

variable {κ ν μ : Type}

/-- The values that `f` keeps, each at its key. -/
def filterMapValues (f : ν → Option μ) (table : Table κ ν) : Table κ μ :=
  table.filterMap fun e => (f e.2).map (e.1, ·)

theorem keys_filterMapValues_subset (f : ν → Option μ) {table : Table κ ν} {key : κ}
    (h : key ∈ (table.filterMapValues f).keys) : key ∈ table.keys := by
  obtain ⟨e, he, rfl⟩ := List.mem_map.mp h
  obtain ⟨e', he', hf⟩ := List.mem_filterMap.mp he
  obtain ⟨v, -, rfl⟩ := Option.map_eq_some_iff.mp hf
  exact List.mem_map.mpr ⟨e', he', rfl⟩

variable [DecidableEq κ]

theorem nodup_keys_set (key : κ) (value : ν) {table : Table κ ν} (h : table.keys.Nodup) :
    (set key value table).keys.Nodup := by
  rw [keys_set]
  split
  · exact h
  · next hk =>
    rw [List.nodup_append]
    refine ⟨h, by simp, ?_⟩
    rintro k hk' _ hm rfl
    exact hk (List.mem_singleton.mp hm ▸ hk')

theorem get?_eq_none_of_notMem {key : κ} {table : Table κ ν} (h : key ∉ table.keys) :
    table.get? key = none := by
  refine List.lookup_eq_none_iff.mpr fun e he => ?_
  exact bne_iff_ne.mpr fun hk => h (List.mem_map.mpr ⟨e, he, hk.symm⟩)

theorem mem_of_get? {key : κ} {value : ν} {table : Table κ ν} (h : table.get? key = some value) :
    (key, value) ∈ table := by
  obtain ⟨front, back, rfl, -⟩ := List.lookup_eq_some_iff.mp h
  simp

theorem get?_filterMapValues (f : ν → Option μ) {table : Table κ ν} (h : table.keys.Nodup)
    (key : κ) : (table.filterMapValues f).get? key = (table.get? key).bind f := by
  induction table with
  | nil => rfl
  | cons e table ih =>
    obtain ⟨a, v⟩ := e
    obtain ⟨hnot, h⟩ := List.nodup_cons.mp h
    have hcons : filterMapValues f ((a, v) :: table) =
        match f v with
        | none => filterMapValues f table
        | some w => (a, w) :: filterMapValues f table := by
      cases hf : f v <;> simp [filterMapValues, hf]
    have ih := ih h
    rw [hcons]
    unfold get? at ih ⊢
    by_cases hk : key = a
    · subst hk
      have hnone : (filterMapValues f table).lookup key = none :=
        get?_eq_none_of_notMem fun hm => hnot (keys_filterMapValues_subset f hm)
      cases hf : f v <;> simp [hf, hnone]
    · cases hf : f v <;> simpa [List.lookup_cons, beq_false_of_ne hk] using ih

theorem get?_ofList (key : κ) (given : List (κ × ν)) :
    Table.get? key (Table.ofList given) =
      (given.filter (·.1 = key)).getLast?.map Prod.snd := by
  induction given using List.reverseRecOn with
  | nil => rfl
  | append_singleton given e ih =>
    have hset : Table.ofList (given ++ [e]) = Table.set e.1 e.2 (Table.ofList given) := by
      simp [Table.ofList]
    rw [hset, Table.get?_set, ih, List.filter_append]
    by_cases h : e.1 = key
    · simp [h]
    · simp [h, Ne.symm h]

theorem keys_ofList [BEq κ] [LawfulBEq κ] (given : List (κ × ν)) :
    (Table.ofList given).keys = (given.map Prod.fst).eraseDups := by
  induction given using List.reverseRecOn with
  | nil => rfl
  | append_singleton given e ih =>
    have hset : Table.ofList (given ++ [e]) = Table.set e.1 e.2 (Table.ofList given) := by
      simp [Table.ofList]
    rw [hset, keys_set, ih, List.map_append, List.map_singleton, eraseDups_concat]
    simp only [List.mem_eraseDups]

theorem nodup_keys_ofList (given : List (κ × ν)) : (Table.ofList given).keys.Nodup := by
  rw [keys_ofList]
  exact nodup_eraseDups _

/-- Nothing is in a table but what was given. -/
theorem mem_of_mem_set {key : κ} {value : ν} {table : Table κ ν} {e : κ × ν}
    (h : e ∈ set key value table) : e = (key, value) ∨ e ∈ table := by
  induction table with
  | nil => exact .inl (List.mem_singleton.mp h)
  | cons first table ih =>
    rw [set] at h
    split at h
    · exact (List.mem_cons.mp h).imp_right (.tail _)
    · rcases List.mem_cons.mp h with rfl | h
      · exact .inr (.head _)
      · exact (ih h).imp_right (.tail _)

theorem mem_of_mem_ofList {given : List (κ × ν)} {e : κ × ν} (h : e ∈ Table.ofList given) :
    e ∈ given := by
  induction given using List.reverseRecOn with
  | nil => exact h
  | append_singleton given last ih =>
    have hset : Table.ofList (given ++ [last]) = Table.set last.1 last.2 (Table.ofList given) := by
      simp [Table.ofList]
    rw [hset] at h
    rw [List.mem_append, List.mem_singleton]
    exact (mem_of_mem_set h).symm.imp_left ih

/-- A table is made up of its keys, each with the value that it has. -/
theorem filterMap_keys {table : Table κ ν} (h : table.keys.Nodup) :
    table.keys.filterMap (fun key => (table.get? key).map (key, ·)) = table := by
  induction table with
  | nil => rfl
  | cons e table ih =>
    obtain ⟨a, v⟩ := e
    obtain ⟨hnot, h⟩ := List.nodup_cons.mp h
    have hfirst : get? a ((a, v) :: table) = some v := by simp [get?]
    have hother : ∀ key ∈ keys table, get? key ((a, v) :: table) = get? key table := by
      intro key hkey
      have hne : key ≠ a := by
        rintro rfl
        exact hnot hkey
      simp [get?, List.lookup_cons, beq_false_of_ne hne]
    have hkeys : keys ((a, v) :: table) = a :: keys table := rfl
    rw [hkeys, List.filterMap_cons, hfirst]
    simp only [Option.map_some]
    rw [List.filterMap_congr fun key hkey => by rw [hother key hkey], ih h]

end Table

end BuildChain
