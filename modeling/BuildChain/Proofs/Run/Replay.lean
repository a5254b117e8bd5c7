import BuildChain.Proofs.FileTree.Kinds
import BuildChain.Proofs.Run.Writing

/-! # Carrying out steps again

Steps that are carried out once more, on the files that they left, try to write the same files and
end at the same place. They leave all that is there as it is.
-/

namespace BuildChain

open FileTree

variable {before middle after tree again : FileTree} {made : List Deposit}
  {all tried : List Assignment} {ending ending' : Ending}

namespace Written

/-- Making the same deposits once more changes nothing. -/
theorem get?_again (h : Written before made middle) (h' : Written middle made after)
    (hkinds : SameKinds middle after) (l : Location) : after.get? l = middle.get? l := by
  by_cases hmade : ∃ d ∈ made, after.locate d.path = .ok l
  · obtain ⟨earlier, d, later, heq, hlocate, hlater, hafter⟩ := h'.exists_last hmade
    have hread : middle.read d.path = .ok d.bytes := by
      apply h.read earlier d later heq
      intro b hb
      rw [← hkinds.locate, ← hkinds.locate, hlocate]
      exact hlater b hb
    obtain ⟨location, hlocation, hmiddle⟩ := read_eq_ok_iff.mp hread
    rw [← hkinds.locate, hlocate] at hlocation
    rw [hafter, Except.ok.inj hlocation, hmiddle]
  · have huntouched : Untouched middle after l :=
      h'.untouched l fun d hd hlocate => hmade ⟨d, hd, hlocate⟩
    rcases huntouched with heq | ⟨hnone, hdirectory⟩
    · exact heq
    · have hkind := hkinds.kind l
      rw [kindAt?_eq_none_iff.mpr hnone, kindAt?_eq_none_iff, hdirectory] at hkind
      cases hkind

end Written

/-- Both runs completed, or both failed at a file, before it was open or while it was stored. -/
inductive Ending.Matches : Ending → Ending → Prop
  | completed : Matches .completed .completed
  | failed {e e' : FileError} (stage : e'.fault.inStoring = e.fault.inStoring) :
      Matches (.failed (.file e)) (.failed (.file e'))

/-- Two runs that got equally far have made the same deposits. -/
theorem Effects.exists_made (h : Effects before all ending tried middle)
    (h' : Effects middle all ending' tried after) (hending : ending.Matches ending')
    (hkinds : SameKinds middle after) :
    ∃ made, Written before made middle ∧ Written middle made after := by
  cases h with
  | completed written =>
    cases hending
    cases h' with
    | completed written' => exact ⟨_, written, written'⟩
  | refused split reached fails opening written =>
    generalize htried : _ ++ [_] = tried at h'
    obtain - | hstage := hending
    cases h' with
    | refused split' reached' fails' opening' written' =>
      obtain ⟨rfl, -⟩ := List.append_inj' htried rfl
      exact ⟨_, written, written'⟩
    | cut split' reached' fails' storing' cut' written' =>
      rw [storing', opening] at hstage
      cases hstage
  | cut split reached fails storing cut written =>
    generalize htried : _ ++ [_] = tried at h'
    obtain - | hstage := hending
    cases h' with
    | refused split' reached' fails' opening' written' =>
      rw [opening', storing] at hstage
      cases hstage
    | cut split' reached' fails' storing' cut' written' =>
      -- There was room for the same beginning of the last content.
      obtain ⟨rfl, hlast⟩ := List.append_inj' htried rfl
      obtain rfl := List.singleton_inj.mp hlast
      rw [hkinds.taken] at written'
      exact ⟨_, written, written'⟩

namespace Outcome

variable {out : FilePath}

theorem keepsKinds_record (out : FilePath) (steps : List Step) (tree : FileTree) :
    KeepsKinds tree (record out steps tree).1.tree := by
  induction steps generalizing tree with
  | nil => exact .refl tree
  | cons step steps ih =>
    cases step with
    | warn warning => exact ih tree
    | say text => exact ih tree
    | generate file =>
      have hwrite := keepsKinds_write tree (out / file.path) file.content
      rw [record]
      split
      · next after e h =>
        rw [h] at hwrite
        exact hwrite
      · next after h =>
        rw [h] at hwrite
        exact hwrite.trans (ih after)

/-- Steps get as far as they did before when they are carried out on what they left. -/
theorem record_again (steps : List Step)
    (h : SameKinds (record out steps tree).1.tree again) :
    (record out steps again).2 = (record out steps tree).2 ∧
    (record out steps tree).1.ending.Matches (record out steps again).1.ending ∧
    SameKinds again (record out steps again).1.tree := by
  induction steps generalizing tree again with
  | nil => exact ⟨rfl, .completed, .refl again⟩
  | cons step steps ih =>
    cases step with
    | warn warning => exact ih h
    | say text => exact ih h
    | generate file =>
      rw [record] at h
      rw [record, record]
      cases hwrite : tree.write (out / file.path) file.content with
      | mk middle error =>
        simp only [hwrite] at h
        cases error with
        | none =>
          -- What was written first is there at the end, so it can be written once more.
          have hkeeps := (keepsKinds_record out steps middle).trans h.keepsKinds
          obtain ⟨next, hnext, hsame⟩ := write_again hwrite hkeeps
          obtain ⟨htried, hending, hkinds⟩ := ih (h.trans hsame)
          simp only [hnext]
          exact ⟨by rw [htried], hending, hsame.trans hkinds⟩
        | some e =>
          obtain ⟨last, e', hfails, hstage, hkinds⟩ := write_fails_again hwrite
          have hmiddle : SameKinds middle again := h
          have halike := hmiddle.write (out / file.path) file.content
          rw [hfails] at halike
          obtain ⟨herror, hlast⟩ := halike
          cases hagain : again.write (out / file.path) file.content with
          | mk next error =>
            rw [hagain] at herror hlast
            obtain rfl : error = some e' := herror
            exact ⟨rfl, .failed hstage, hmiddle.symm.trans (hkinds.trans hlast)⟩

end Outcome

end BuildChain
