import BuildChain.Proofs.FileTree
import BuildChain.Run.Outcome

/-! # What steps write

Steps are carried out with a record of what they try to write. Either everything is written, or
one attempt fails and is the last one: what came before it is written, and what comes after it is
not tried. The file of the attempt that failed is as it was if it could not be opened, and else it
holds a beginning of what was to be written.
-/

namespace BuildChain

open FileTree

/-- A content for the file at a path. -/
structure Assignment where
  path : FilePath
  content : Text
  deriving DecidableEq, Repr

/-- The bytes that the file at a path came to hold. -/
structure Deposit where
  path : FilePath
  bytes : Text.Bytes
  deriving DecidableEq, Repr

/-- What an assignment leaves if it is carried out in full. -/
def Assignment.deposit (a : Assignment) : Deposit :=
  ⟨a.path, Text.encode a.content⟩

/-- The deposits were made in order. Every file has what it was given last, and there is nothing
else that is new but directories. -/
structure Written (before : FileTree) (made : List Deposit) (after : FileTree) : Prop where
  keepsDirectories : KeepsDirectories before after
  located : ∀ d ∈ made, ∃ location, after.locate d.path = .ok location
  read : ∀ earlier d later, made = earlier ++ d :: later →
    (∀ b ∈ later, after.locate b.path ≠ after.locate d.path) →
      after.read d.path = .ok d.bytes
  untouched : ∀ l, (∀ d ∈ made, after.locate d.path ≠ .ok l) → Untouched before after l

variable {before middle after tree : FileTree} {made earlier later : List Deposit} {d : Deposit}
  {applied : List Assignment} {a : Assignment}

theorem exists_last_of_mem {α : Type} {p : α → Prop} {l : List α} {a : α} (ha : a ∈ l)
    (hp : p a) : ∃ front last back, l = front ++ last :: back ∧ p last ∧ ∀ b ∈ back, ¬ p b := by
  classical
  obtain ⟨last, hlast⟩ : ∃ last, l.reverse.find? (fun a => decide (p a)) = some last := by
    rw [← Option.isSome_iff_exists, List.find?_isSome]
    exact ⟨a, List.mem_reverse.mpr ha, by simpa using hp⟩
  obtain ⟨hlast, back, front, hreverse, hback⟩ := List.find?_eq_some_iff_append.mp hlast
  refine ⟨front.reverse, last, back.reverse, ?_, by simpa using hlast, ?_⟩
  · rw [← List.reverse_reverse l, hreverse]
    simp
  · intro b hb
    simpa using hback b (List.mem_reverse.mp hb)

namespace Written

theorem refl (tree : FileTree) : Written tree [] tree where
  keepsDirectories := .refl tree
  located := by simp
  read := by simp
  untouched _ _ := Or.inl rfl

/-- What is not replaced later on was there before. -/
theorem read_middle (h : Written before made middle) (hkeeps : KeepsDirectories middle after)
    (heq : made = earlier ++ d :: later)
    (hlater : ∀ b ∈ later, after.locate b.path ≠ after.locate d.path) :
    middle.read d.path = .ok d.bytes := by
  obtain ⟨location, hlocate⟩ := h.located d (by simp [heq])
  apply h.read earlier d later heq
  intro b hb hsame
  rw [hlocate] at hsame
  exact hlater b hb ((hkeeps.locate hsame).trans (hkeeps.locate hlocate).symm)

theorem untouched_middle (h : Written before made middle)
    (hkeeps : KeepsDirectories middle after) {l : Location}
    (hl : ∀ d ∈ made, after.locate d.path ≠ .ok l) : Untouched before middle l := by
  apply h.untouched
  intro d hd hlocate
  exact hl d hd (hkeeps.locate hlocate)

theorem located_after (h : Written before made middle) (hkeeps : KeepsDirectories middle after) :
    ∀ d ∈ made, ∃ location, after.locate d.path = .ok location := by
  intro d hd
  obtain ⟨location, hlocate⟩ := h.located d hd
  exact ⟨location, hkeeps.locate hlocate⟩

/-- One more deposit is made. -/
theorem concat (h : Written before made middle) (hstores : Stores middle d.path d.bytes after) :
    Written before (made ++ [d]) after := by
  have hkeeps := hstores.keepsDirectories
  constructor
  · exact h.keepsDirectories.trans hkeeps
  · intro b hb
    rcases List.mem_append.mp hb with hb | hb
    · exact h.located_after hkeeps b hb
    · obtain rfl := List.mem_singleton.mp hb
      obtain ⟨location, hlocate, -⟩ := hstores.exists_location
      exact ⟨location, hlocate⟩
  · intro earlier b later heq hlater
    rcases List.eq_nil_or_concat later with rfl | ⟨front, last, rfl⟩
    · obtain ⟨-, hlast⟩ := List.append_inj' heq rfl
      obtain rfl := List.singleton_inj.mp hlast
      obtain ⟨location, hlocate, hfile, -⟩ := hstores.exists_location
      exact read_eq_ok_iff.mpr ⟨location, hlocate, hfile⟩
    · rw [List.concat_eq_append] at heq hlater
      rw [← List.cons_append, ← List.append_assoc] at heq
      obtain ⟨hmade, hlast⟩ := List.append_inj' heq rfl
      obtain rfl := List.singleton_inj.mp hlast
      apply hkeeps.read (h.read_middle hkeeps hmade fun c hc => hlater c (by simp [hc]))
      intro l hl
      apply hstores.untouched
      rw [← hkeeps.locate hl]
      exact hlater d (by simp)
  · intro l hl
    have hbefore := h.untouched_middle hkeeps fun b hb => hl b (by simp [hb])
    exact hbefore.trans (hstores.untouched (hl d (by simp)))

/-- Making directories takes nothing back. -/
theorem addsDirectories (h : Written before made middle) (hadds : AddsDirectories middle after) :
    Written before made after := by
  have hkeeps := hadds.keepsDirectories
  constructor
  · exact h.keepsDirectories.trans hkeeps
  · exact h.located_after hkeeps
  · intro earlier d later heq hlater
    exact hkeeps.read (h.read_middle hkeeps heq hlater) fun l _ => hadds.untouched l
  · intro l hl
    exact (h.untouched_middle hkeeps hl).trans (hadds.untouched l)

/-- A place with deposits holds the last of them. -/
theorem exists_last (h : Written before made after) {l : Location}
    (hl : ∃ d ∈ made, after.locate d.path = .ok l) :
    ∃ earlier d later, made = earlier ++ d :: later ∧ after.locate d.path = .ok l ∧
      (∀ b ∈ later, after.locate b.path ≠ .ok l) ∧ after.get? l = some (.file d.bytes) := by
  obtain ⟨d, hd, hdl⟩ := hl
  obtain ⟨earlier, last, later, heq, hlocate, hlater⟩ :=
    exists_last_of_mem (p := fun d => after.locate d.path = .ok l) hd hdl
  refine ⟨earlier, last, later, heq, hlocate, hlater, ?_⟩
  have hread : after.read last.path = .ok last.bytes := by
    apply h.read _ _ _ heq
    rwa [hlocate]
  obtain ⟨location, hlocation, hfile⟩ := read_eq_ok_iff.mp hread
  rw [hlocate] at hlocation
  rwa [Except.ok.inj hlocation]

/-- The path of a deposit leads to the last one there, which may have been made under another
path. -/
theorem exists_read (h : Written before made after) (heq : made = earlier ++ d :: later) :
    ∃ front last back, d :: later = front ++ last :: back ∧
      after.locate last.path = after.locate d.path ∧
      (∀ b ∈ back, after.locate b.path ≠ after.locate d.path) ∧
      after.read d.path = .ok last.bytes := by
  obtain ⟨front, last, back, hsplit, hlocate, hback⟩ :=
    exists_last_of_mem (p := fun b => after.locate b.path = after.locate d.path)
      (List.mem_cons_self (a := d) (l := later)) rfl
  refine ⟨front, last, back, hsplit, hlocate, hback, ?_⟩
  rw [read_eq_ok_iff, ← hlocate, ← read_eq_ok_iff]
  apply h.read (earlier ++ front) last back
  · rw [heq, hsplit, List.append_assoc]
  · rwa [hlocate]

end Written

/-- What comes of assignments: how the run ends, what it tried to write, and the files then. -/
inductive Effects (before : FileTree) (all : List Assignment) :
    Ending → List Assignment → FileTree → Prop
  | completed {after : FileTree} (written : Written before (all.map Assignment.deposit) after) :
      Effects before all .completed all after
  /-- The file for `a` could not be opened, and nothing that was to be written after it was
  tried. -/
  | refused {applied rest : List Assignment} {a : Assignment} {middle after : FileTree}
      {error : FileError} (split : all = applied ++ a :: rest)
      (reached : Written before (applied.map Assignment.deposit) middle)
      (fails : middle.write a.path a.content = (after, some error))
      (opening : error.fault.inStoring = false)
      (written : Written before (applied.map Assignment.deposit) after) :
      Effects before all (.failed (.file error)) (applied ++ [a]) after
  /-- The file for `a` was opened and holds a beginning of what was to be written, and nothing that
  was to be written after it was tried. -/
  | cut {applied rest : List Assignment} {a : Assignment} {middle after : FileTree}
      {error : FileError} (split : all = applied ++ a :: rest)
      (reached : Written before (applied.map Assignment.deposit) middle)
      (fails : middle.write a.path a.content = (after, some error))
      (storing : error.fault.inStoring = true)
      (cut : IsCut a.content (after.taken a.path a.content))
      (written : Written before
        (applied.map Assignment.deposit ++ [⟨a.path, after.taken a.path a.content⟩]) after) :
      Effects before all (.failed (.file error)) (applied ++ [a]) after

/-- If no file fails, then all that was to be written is. -/
theorem Effects.of_no_failure {all tried : List Assignment} {ending : Ending}
    (h : Effects before all ending tried after)
    (hending : ∀ e, ending ≠ .failed (.file e)) :
    ending = .completed ∧ tried = all ∧ Written before (all.map Assignment.deposit) after := by
  cases h with
  | completed written => exact ⟨rfl, rfl, written⟩
  | refused => exact absurd rfl (hending _)
  | cut => exact absurd rfl (hending _)

namespace Outcome

/-- Carries out steps as `ofSteps` does, with a record of what they try to write. -/
def record (out : FilePath) : List Step → FileTree → Outcome × List Assignment
  | [], tree => (ofTree tree, [])
  | .warn warning :: steps, tree =>
    let (rest, tried) := record out steps tree
    ({ rest with err := warning.text :: rest.err }, tried)
  | .say text :: steps, tree =>
    let (rest, tried) := record out steps tree
    ({ rest with out := text :: rest.out }, tried)
  | .generate file :: steps, tree =>
    let a : Assignment := ⟨out / file.path, file.content⟩
    match tree.write a.path a.content with
    | (tree, some e) => (ofFailure (.file e) tree, [a])
    | (tree, none) =>
      let (rest, tried) := record out steps tree
      ({ rest with out := ("  \u2713 " ++ a.path.text) :: rest.out }, a :: tried)

theorem record_fst (out : FilePath) (steps : List Step) (tree : FileTree) :
    (record out steps tree).1 = ofSteps out steps tree := by
  induction steps generalizing tree with
  | nil => rfl
  | cons step steps ih =>
    cases step with
    | warn warning => simp [record, ofSteps, ih]
    | say text => simp [record, ofSteps, ih]
    | generate file =>
      rw [record, ofSteps]
      rcases tree.write (out / file.path) file.content with ⟨tree', _ | e⟩
      · simp [ih]
      · rfl

/-- What steps are to write below the directory `out`. -/
def assignments (out : FilePath) (steps : List Step) : List Assignment :=
  (steps.filterMap Step.file?).map fun file => ⟨out / file.path, file.content⟩

/-- Steps that have nothing to write leave the files as they are. -/
theorem record_of_assignments_nil {out : FilePath} {steps : List Step}
    (h : assignments out steps = []) (tree : FileTree) :
    (record out steps tree).2 = [] ∧ (record out steps tree).1.tree = tree := by
  induction steps with
  | nil => exact ⟨rfl, rfl⟩
  | cons step steps ih =>
    cases step with
    | warn warning => exact ih h
    | say text => exact ih h
    | generate file => simp [assignments, Step.file?] at h

/-- Steps that are carried out after others were have effects on top of theirs. -/
theorem effects_record_after (out : FilePath)
    (h : Written before (applied.map Assignment.deposit) tree) (steps : List Step) :
    Effects before (applied ++ assignments out steps) (record out steps tree).1.ending
      (applied ++ (record out steps tree).2) (record out steps tree).1.tree := by
  induction steps generalizing applied tree with
  | nil =>
    simp only [assignments, record, List.filterMap_nil, List.map_nil, List.append_nil]
    exact .completed h
  | cons step steps ih =>
    cases step with
    | warn warning => exact ih h
    | say text => exact ih h
    | generate file =>
      have hall : assignments out (.generate file :: steps) =
          ⟨out / file.path, file.content⟩ :: assignments out steps := rfl
      have hwrites := writes_write tree (out / file.path) file.content
      rw [hall, record]
      cases hwrite : tree.write (out / file.path) file.content with
      | mk after error =>
        rw [hwrite] at hwrites
        cases hwrites with
        | stored room stores =>
          have hnext := h.concat (d := Assignment.deposit ⟨out / file.path, file.content⟩) stores
          rw [← List.map_singleton, ← List.map_append] at hnext
          simpa using ih hnext
        | cut breaks cut stores =>
          have hlast := h.concat (d := ⟨out / file.path, _⟩) stores
          exact .cut rfl h hwrite breaks.inStoring cut hlast
        | refused refuses adds =>
          exact .refused rfl h hwrite refuses.inStoring_eq_false (h.addsDirectories adds)

theorem effects_record (out : FilePath) (steps : List Step) (tree : FileTree) :
    Effects tree (assignments out steps) (record out steps tree).1.ending
      (record out steps tree).2 (record out steps tree).1.tree := by
  have hstart : Written tree (([] : List Assignment).map Assignment.deposit) tree := .refl tree
  exact effects_record_after out hstart steps

end Outcome

end BuildChain
