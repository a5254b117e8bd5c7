import BuildChain.Proofs.FileTree

/-! # Where a write succeeds

Whether a write succeeds depends on where there are files and where there are directories, and on
what there is room for, but not on what the files hold. A write that succeeded can be repeated, and
one that failed fails again, at the same point.
-/

namespace BuildChain

/-- What a node is, without what it holds. -/
inductive NodeKind
  | file
  | directory
  deriving DecidableEq, Repr

def Node.kind : Node → NodeKind
  | file _ => .file
  | directory => .directory

theorem Node.kind_eq_directory_iff {node : Node} : node.kind = .directory ↔ node = .directory := by
  cases node <;> simp [kind]

namespace FileTree

variable {before middle after tree : FileTree} {location l : Location} {path : FilePath}
  {content : Text} {node node' : Node}

def kindAt? (tree : FileTree) (location : Location) : Option NodeKind :=
  (tree.get? location).map Node.kind

theorem kindAt?_eq_directory_iff :
    tree.kindAt? location = some .directory ↔ tree.get? location = some .directory := by
  simp [kindAt?, Node.kind_eq_directory_iff]

theorem kindAt?_eq_none_iff : tree.kindAt? location = none ↔ tree.get? location = none := by
  simp [kindAt?]

theorem kindAt?_set (hne : location ≠ []) :
    (tree.set location node).kindAt? l =
      if l = location then some node.kind else tree.kindAt? l := by
  rw [kindAt?, get?_set _ _ _ _ hne]
  split <;> rfl

theorem ne_nil_of_free (h : tree.get? location = none) : location ≠ [] := by
  have hfree : tree.get? location ≠ some .directory := by
    rw [h]
    exact (Option.some_ne_none _).symm
  exact ne_nil_of_get? hfree

theorem writeFile_of_directory (hlocate : tree.locate path = .ok l)
    (h : tree.get? l = some .directory) (content : Text) :
    tree.writeFile path content = (tree, some ⟨.isDirectory, path⟩) := by
  simp only [writeFile, hlocate, h]

theorem writeFile_of_not_directory (hlocate : tree.locate path = .ok l)
    (h : tree.get? l ≠ some .directory) (content : Text) :
    tree.writeFile path content =
      (tree.set l (.file (tree.limits.store l content).1),
        (tree.limits.store l content).2.map (⟨·, path⟩)) := by
  simp only [writeFile, hlocate]

/-- The steps of a path depend on the kinds of the nodes alone. -/
theorem step_eq (tree : FileTree) (location : Location) (segment : Text) :
    tree.step location segment =
      match tree.kindAt? location with
      | none => .error .missing
      | some .file => .error .notDirectory
      | some .directory => .ok (location.enter segment) := by
  rw [step, kindAt?]
  cases tree.get? location with
  | none => rfl
  | some node => cases node <;> rfl

theorem isDirectory_iff :
    tree.isDirectory path = true ↔
      ∃ location, tree.locate path = .ok location ∧ tree.kindAt? location = some .directory := by
  rw [isDirectory, at?]
  cases tree.locate path with
  | error fault => simp
  | ok location =>
    simp only [kindAt?_eq_directory_iff, Except.ok.injEq, exists_eq_left']
    cases h : tree.get? location with
    | none => simp
    | some node => cases node <;> simp

/-- What is there stays what it is, though a file may come to hold something else. -/
structure KeepsKinds (before after : FileTree) : Prop where
  working : after.working = before.working
  limits : after.limits = before.limits
  kind : ∀ l k, before.kindAt? l = some k → after.kindAt? l = some k

namespace KeepsKinds

theorem refl (tree : FileTree) : KeepsKinds tree tree where
  working := rfl
  limits := rfl
  kind _ _ h := h

theorem trans (h : KeepsKinds before middle) (h' : KeepsKinds middle after) :
    KeepsKinds before after where
  working := h'.working.trans h.working
  limits := h'.limits.trans h.limits
  kind l k hk := h'.kind l k (h.kind l k hk)

theorem keepsDirectories (h : KeepsKinds before after) : KeepsDirectories before after where
  working := h.working
  directory l hl := kindAt?_eq_directory_iff.mp (h.kind l _ (kindAt?_eq_directory_iff.mpr hl))

end KeepsKinds

theorem AddsDirectories.keepsKinds (h : AddsDirectories before after) :
    KeepsKinds before after where
  working := h.working
  limits := h.limits
  kind l k hk := by
    rcases h.untouched l with heq | ⟨hnone, -⟩
    · rw [kindAt?, heq]
      exact hk
    · rw [kindAt?_eq_none_iff.mpr hnone] at hk
      cases hk

/-- There are files and directories at the same locations, and there is room for the same. -/
structure SameKinds (before after : FileTree) : Prop where
  working : after.working = before.working
  limits : after.limits = before.limits
  kind : ∀ l, after.kindAt? l = before.kindAt? l

/-- Both operations ended in the same way, and the trees that they left have the same kinds. -/
structure Alike (result result' : FileTree × Option FileError) : Prop where
  error : result'.2 = result.2
  sameKinds : SameKinds result.1 result'.1

namespace SameKinds

theorem refl (tree : FileTree) : SameKinds tree tree where
  working := rfl
  limits := rfl
  kind _ := rfl

theorem symm (h : SameKinds before after) : SameKinds after before where
  working := h.working.symm
  limits := h.limits.symm
  kind l := (h.kind l).symm

theorem trans (h : SameKinds before middle) (h' : SameKinds middle after) :
    SameKinds before after where
  working := h'.working.trans h.working
  limits := h'.limits.trans h.limits
  kind l := (h'.kind l).trans (h.kind l)

theorem keepsKinds (h : SameKinds before after) : KeepsKinds before after where
  working := h.working
  limits := h.limits
  kind l _ hk := (h.kind l).trans hk

theorem walk (h : SameKinds before after) (location : Location) (segments : List Text) :
    after.walk location segments = before.walk location segments := by
  induction segments generalizing location with
  | nil => rfl
  | cons segment segments ih =>
    rw [FileTree.walk, FileTree.walk, step_eq, step_eq, h.kind]
    cases before.kindAt? location with
    | none => rfl
    | some kind =>
      cases kind with
      | file => rfl
      | directory => exact ih _

theorem locate (h : SameKinds before after) (path : FilePath) :
    after.locate path = before.locate path := by
  rw [FileTree.locate, FileTree.locate, h.working, h.walk]

theorem isDirectory (h : SameKinds before after) (path : FilePath) :
    after.isDirectory path = before.isDirectory path := by
  rw [Bool.eq_iff_iff, isDirectory_iff, isDirectory_iff, h.locate]
  simp only [h.kind]

theorem set (h : SameKinds before after) (hkind : node'.kind = node.kind) (hne : location ≠ []) :
    SameKinds (before.set location node) (after.set location node') where
  working := h.working
  limits := h.limits
  kind l := by rw [kindAt?_set hne, kindAt?_set hne, hkind, h.kind]

theorem makeDirectory_error (h : SameKinds before after) {fault : FileFault}
    (hmake : before.makeDirectory path = .error fault) :
    after.makeDirectory path = .error fault := by
  rw [makeDirectory] at hmake ⊢
  rw [h.locate]
  cases hlocate : before.locate path with
  | error fault' =>
    rw [hlocate] at hmake
    exact hmake
  | ok location =>
    simp only [hlocate] at hmake ⊢
    cases hnode : before.get? location with
    | none => simp [hnode] at hmake
    | some node =>
      have hafter : after.get? location ≠ none := by
        rw [ne_eq, ← kindAt?_eq_none_iff, h.kind, kindAt?_eq_none_iff, hnode]
        exact Option.some_ne_none node
      obtain ⟨node', hnode'⟩ := Option.ne_none_iff_exists'.mp hafter
      rw [hnode] at hmake
      rw [hnode']
      exact hmake

theorem makeDirectory_ok (h : SameKinds before after)
    (hmake : before.makeDirectory path = .ok middle) :
    ∃ middle', after.makeDirectory path = .ok middle' ∧ SameKinds middle middle' := by
  rw [makeDirectory] at hmake ⊢
  rw [h.locate]
  split at hmake
  · cases hmake
  next location hlocate =>
  split at hmake
  · cases hmake
  next hnone =>
  obtain rfl := Except.ok.inj hmake
  have hafter : after.get? location = none := by
    rw [← kindAt?_eq_none_iff, h.kind, kindAt?_eq_none_iff, hnone]
  refine ⟨after.set location .directory, ?_, h.set rfl (ne_nil_of_free hnone)⟩
  simp only [hafter]

theorem settle (h : SameKinds before after) (path : FilePath) (fault : FileFault) :
    Alike (before.settle path fault) (after.settle path fault) := by
  rw [FileTree.settle, FileTree.settle, h.isDirectory]
  split
  · exact ⟨rfl, h⟩
  · exact ⟨rfl, h⟩

theorem ensureDirectory (h : SameKinds before after) (path : FilePath) :
    Alike (before.ensureDirectory path) (after.ensureDirectory path) := by
  rw [FileTree.ensureDirectory, FileTree.ensureDirectory]
  cases hmake : before.makeDirectory path with
  | error fault =>
    rw [h.makeDirectory_error hmake]
    exact h.settle path fault
  | ok middle =>
    obtain ⟨middle', hmake', hkinds⟩ := h.makeDirectory_ok hmake
    rw [hmake']
    exact ⟨rfl, hkinds⟩

theorem makeDirectoriesFrom (h : SameKinds before after) (anchor : Anchor)
    (segments : List Text) (calls : Nat) :
    Alike (FileTree.makeDirectoriesFrom anchor segments calls before)
      (FileTree.makeDirectoriesFrom anchor segments calls after) := by
  induction segments generalizing calls with
  | nil => exact ⟨rfl, h⟩
  | cons segment above ih =>
    rw [FileTree.makeDirectoriesFrom, FileTree.makeDirectoriesFrom]
    cases hmake : before.makeDirectory ⟨anchor, (segment :: above).reverse⟩ with
    | ok middle =>
      obtain ⟨middle', hmake', hkinds⟩ := h.makeDirectory_ok hmake
      rw [hmake']
      exact ⟨rfl, hkinds⟩
    | error fault =>
      rw [h.makeDirectory_error hmake]
      cases fault with
      | missing =>
        simp only
        split
        · exact ⟨rfl, h⟩
        obtain ⟨herror, hkinds⟩ := ih (calls - 1)
        generalize FileTree.makeDirectoriesFrom anchor above (calls - 1) before = result
          at herror hkinds ⊢
        generalize FileTree.makeDirectoriesFrom anchor above (calls - 1) after = result'
          at herror hkinds ⊢
        obtain ⟨tree, error⟩ := result
        obtain ⟨tree', error'⟩ := result'
        obtain rfl : error' = error := herror
        cases error' with
        | some e => exact ⟨rfl, hkinds⟩
        | none => exact hkinds.ensureDirectory _
      | _ => exact h.settle _ _

theorem makeDirectories (h : SameKinds before after) (path : FilePath) :
    Alike (before.makeDirectories path) (after.makeDirectories path) := by
  rw [FileTree.makeDirectories, FileTree.makeDirectories, h.limits]
  exact h.makeDirectoriesFrom _ _ _

theorem writeFile (h : SameKinds before after) (path : FilePath) (content : Text) :
    Alike (before.writeFile path content) (after.writeFile path content) := by
  cases hlocate : before.locate path with
  | error fault =>
    simp only [FileTree.writeFile, h.locate, hlocate]
    exact ⟨rfl, h⟩
  | ok location =>
    have hlocate' : after.locate path = .ok location := (h.locate path).trans hlocate
    have hiff : after.get? location = some .directory ↔ before.get? location = some .directory := by
      rw [← kindAt?_eq_directory_iff, h.kind, kindAt?_eq_directory_iff]
    by_cases hdirectory : before.get? location = some .directory
    · rw [writeFile_of_directory hlocate hdirectory,
        writeFile_of_directory hlocate' (hiff.mpr hdirectory)]
      exact ⟨rfl, h⟩
    · rw [writeFile_of_not_directory hlocate hdirectory,
        writeFile_of_not_directory hlocate' (mt hiff.mp hdirectory), h.limits]
      exact ⟨rfl, h.set rfl (ne_nil_of_get? hdirectory)⟩

/-- The same write ends in the same way. -/
theorem write (h : SameKinds before after) (path : FilePath) (content : Text) :
    Alike (before.write path content) (after.write path content) := by
  obtain ⟨herror, hkinds⟩ := h.makeDirectories path.parent
  rw [FileTree.write, FileTree.write]
  generalize before.makeDirectories path.parent = result at herror hkinds ⊢
  generalize after.makeDirectories path.parent = result' at herror hkinds ⊢
  obtain ⟨tree, error⟩ := result
  obtain ⟨tree', error'⟩ := result'
  obtain rfl : error' = error := herror
  cases error' with
  | some e => exact ⟨rfl, hkinds⟩
  | none => exact hkinds.writeFile path content

/-- There is room for as much of a text. -/
theorem taken (h : SameKinds before after) (path : FilePath) (content : Text) :
    after.taken path content = before.taken path content := by
  rw [FileTree.taken, FileTree.taken, h.locate, h.limits]

end SameKinds

/-! ## Writing again -/

theorem keepsKinds_writeFile (tree : FileTree) (path : FilePath) (content : Text) :
    KeepsKinds tree (tree.writeFile path content).1 := by
  rw [writeFile]
  split
  · exact .refl tree
  next location _ =>
  split
  · exact .refl tree
  next hfree =>
  have hne : location ≠ [] := ne_nil_of_get? hfree
  constructor
  · rfl
  · rfl
  · intro l k hk
    simp only at hk ⊢
    rw [kindAt?_set hne]
    split
    · next hl =>
      subst hl
      cases k with
      | file => rfl
      | directory => exact absurd (kindAt?_eq_directory_iff.mp hk) hfree
    · exact hk

theorem keepsKinds_write (tree : FileTree) (path : FilePath) (content : Text) :
    KeepsKinds tree (tree.write path content).1 := by
  have hmake := addsDirectories_makeDirectories tree path.parent
  rw [write]
  split
  · next h =>
    rw [h] at hmake
    exact hmake.keepsKinds
  · next middle h =>
    rw [h] at hmake
    exact hmake.keepsKinds.trans (keepsKinds_writeFile middle path content)

theorem walk_concat (tree : FileTree) (location : Location) (segments : List Text)
    (segment : Text) :
    tree.walk location (segments ++ [segment]) =
      match tree.walk location segments with
      | .ok above => tree.step above segment
      | .error fault => .error fault := by
  induction segments generalizing location with
  | nil =>
    simp only [List.nil_append, walk]
    cases tree.step location segment <;> rfl
  | cons s segments ih =>
    simp only [List.cons_append, walk]
    cases tree.step location s with
    | error fault => rfl
    | ok next => exact ih next

/-- The last step of a walk needs a directory. -/
theorem walk_concat_eq_ok_iff {segments : List Text} {segment : Text} :
    tree.walk location (segments ++ [segment]) = .ok l ↔
      ∃ above, tree.walk location segments = .ok above ∧
        tree.kindAt? above = some .directory ∧ above.enter segment = l := by
  rw [walk_concat]
  cases tree.walk location segments with
  | error fault => simp
  | ok above =>
    simp only [step_eq, Except.ok.injEq, exists_eq_left']
    cases tree.kindAt? above with
    | none => simp
    | some kind => cases kind <;> simp

/-- A path leads somewhere if the one above it leads to a directory and its last segment can be a
name. -/
theorem locate_concat_eq_ok_iff {anchor : Anchor} {segments : List Text} {segment : Text} :
    tree.locate ⟨anchor, segments ++ [segment]⟩ = .ok l ↔
      FilePath.IsName segment ∧ ∃ above, tree.locate ⟨anchor, segments⟩ = .ok above ∧
        tree.kindAt? above = some .directory ∧ above.enter segment = l := by
  have hnames : (∀ s ∈ segments ++ [segment], FilePath.IsName s) ↔
      (∀ s ∈ segments, FilePath.IsName s) ∧ FilePath.IsName segment := by
    rw [List.forall_mem_append, List.forall_mem_singleton]
  have horigin : FilePath.origin tree.working ⟨anchor, segments ++ [segment]⟩ =
      FilePath.origin tree.working ⟨anchor, segments⟩ := rfl
  simp only [locate_eq_ok_iff, hnames, horigin, walk_concat_eq_ok_iff]
  constructor
  · rintro ⟨⟨habove, hsegment⟩, above, hwalk, hstep⟩
    exact ⟨hsegment, above, ⟨habove, hwalk⟩, hstep⟩
  · rintro ⟨hsegment, above, ⟨habove, hwalk⟩, hstep⟩
    exact ⟨⟨habove, hsegment⟩, above, hwalk, hstep⟩

theorem makeDirectoriesFrom_of_isDirectory {anchor : Anchor} {segments : List Text}
    (h : tree.isDirectory ⟨anchor, segments.reverse⟩ = true) (calls : Nat) :
    makeDirectoriesFrom anchor segments calls tree = (tree, none) := by
  cases segments with
  | nil => rfl
  | cons segment above =>
    obtain ⟨location, hlocate, hkind⟩ := isDirectory_iff.mp h
    have hmake : tree.makeDirectory ⟨anchor, (segment :: above).reverse⟩ = .error .occupied := by
      simp only [makeDirectory, hlocate, kindAt?_eq_directory_iff.mp hkind]
    rw [makeDirectoriesFrom, hmake]
    simp only [settle, h, if_true]

/-- Nothing has to be made above a path that leads somewhere. -/
theorem makeDirectoriesFrom_above {anchor : Anchor} {segment : Text} {above : List Text}
    (h : tree.locate ⟨anchor, (segment :: above).reverse⟩ = .ok l) (calls : Nat) :
    makeDirectoriesFrom anchor above calls tree = (tree, none) := by
  rw [List.reverse_cons] at h
  obtain ⟨-, location, hlocate, hkind, -⟩ := locate_concat_eq_ok_iff.mp h
  exact makeDirectoriesFrom_of_isDirectory (isDirectory_iff.mpr ⟨location, hlocate, hkind⟩) calls

theorem makeDirectories_parent (h : tree.locate path = .ok l) :
    tree.makeDirectories path.parent = (tree, none) := by
  obtain ⟨anchor, segments⟩ := path
  rcases List.eq_nil_or_concat segments with rfl | ⟨above, segment, rfl⟩
  · rfl
  · have hlocate : tree.locate ⟨anchor, (segment :: above.reverse).reverse⟩ = .ok l := by
      rwa [List.reverse_cons, List.reverse_reverse, ← List.concat_eq_append]
    rw [List.concat_eq_append, makeDirectories, FilePath.parent, List.dropLast_concat]
    exact makeDirectoriesFrom_above hlocate _

/-- A file that is there can be opened, and there is as much room in it as there was. -/
theorem write_of_file (hlocate : tree.locate path = .ok l) (hkind : tree.kindAt? l = some .file)
    (content : Text) :
    ∃ after, tree.write path content =
        (after, (tree.limits.store l content).2.map (⟨·, path⟩)) ∧ SameKinds tree after := by
  have hfile : tree.get? l ≠ some .directory := by
    rw [ne_eq, ← kindAt?_eq_directory_iff, hkind]
    decide
  refine ⟨tree.set l (.file (tree.limits.store l content).1), ?_, rfl, rfl, ?_⟩
  · rw [write, makeDirectories_parent hlocate]
    exact writeFile_of_not_directory hlocate hfile content
  · intro l'
    rw [kindAt?_set (ne_nil_of_get? hfile)]
    split
    · next hl => rw [hl, hkind]; rfl
    · rfl

/-- A write that succeeded succeeds again as long as what is there stays what it is. -/
theorem write_again (h : tree.write path content = (middle, none))
    (hkeeps : KeepsKinds middle after) :
    ∃ again, after.write path content = (again, none) ∧ SameKinds after again := by
  have hwrites := writes_write tree path content
  rw [h] at hwrites
  obtain ⟨room, -, location, hlocate, hfile, -⟩ := hwrites
  have hlocate' := hkeeps.keepsDirectories.locate hlocate
  have hkind : after.kindAt? location = some .file := by
    apply hkeeps.kind
    rw [kindAt?, hfile]
    rfl
  have hstore : (after.limits.store location content).2 = none := by
    rw [taken_of_locate hlocate, ← hkeeps.limits] at room
    rw [Option.eq_none_iff_forall_ne_some]
    intro fault hfault
    exact (store_of_snd_eq_some hfault).2.incomplete room
  obtain ⟨again, hwrite, hkinds⟩ := write_of_file hlocate' hkind content
  rw [hstore] at hwrite
  exact ⟨again, hwrite, hkinds⟩

theorem isDirectory_of_makeDirectory (h : tree.makeDirectory path = .ok after) :
    after.isDirectory path = true := by
  have hkeeps := (addsDirectories_makeDirectory h).keepsDirectories
  rw [makeDirectory] at h
  split at h
  · cases h
  next location hlocate =>
  split at h
  · cases h
  next hnone =>
  obtain rfl := Except.ok.inj h
  rw [isDirectory_iff]
  refine ⟨location, hkeeps.locate hlocate, ?_⟩
  rw [kindAt?_set (ne_nil_of_free hnone), if_pos rfl]
  rfl

theorem isDirectory_of_settle {fault : FileFault}
    (h : tree.settle path fault = (after, none)) : after.isDirectory path = true := by
  rw [settle] at h
  split at h
  · next hdirectory => rwa [← (Prod.mk.inj h).1]
  · cases h

theorem isDirectory_of_ensureDirectory (h : tree.ensureDirectory path = (after, none)) :
    after.isDirectory path = true := by
  rw [ensureDirectory] at h
  split at h
  · next hmake =>
    rw [← (Prod.mk.inj h).1]
    exact isDirectory_of_makeDirectory hmake
  · exact isDirectory_of_settle h

theorem isDirectory_of_makeDirectoriesFrom {anchor : Anchor} {segment : Text} {above : List Text}
    {calls : Nat} (h : makeDirectoriesFrom anchor (segment :: above) calls tree = (after, none)) :
    after.isDirectory ⟨anchor, (segment :: above).reverse⟩ = true := by
  rw [makeDirectoriesFrom] at h
  split at h
  · next hmake =>
    rw [← (Prod.mk.inj h).1]
    exact isDirectory_of_makeDirectory hmake
  · split at h
    · cases h
    · split at h
      · cases h
      · exact isDirectory_of_ensureDirectory h
  · exact isDirectory_of_settle h

theorem makeDirectoriesFrom_again {anchor : Anchor} {segments : List Text} {calls : Nat}
    (h : makeDirectoriesFrom anchor segments calls tree = (after, none)) :
    makeDirectoriesFrom anchor segments calls after = (after, none) := by
  cases segments with
  | nil => rfl
  | cons segment above =>
    exact makeDirectoriesFrom_of_isDirectory (isDirectory_of_makeDirectoriesFrom h) calls

theorem settle_of_not_located (h : ∀ l, tree.locate path ≠ .ok l) (fault : FileFault) :
    tree.settle path fault = (tree, some ⟨fault, path⟩) := by
  have hdirectory : tree.isDirectory path ≠ true := by
    intro hdirectory
    obtain ⟨l, hl, -⟩ := isDirectory_iff.mp hdirectory
    exact h l hl
  rw [settle, if_neg hdirectory]

/-- A directory can only be made below one that is there or can be made. -/
theorem makeDirectoriesFrom_cons_of_fails {anchor : Anchor} {above : List Text} {calls : Nat}
    {e : FileError} (hcalls : calls ≠ 0)
    (h : makeDirectoriesFrom anchor above (calls - 1) tree = (tree, some e)) (segment : Text) :
    ∃ e', makeDirectoriesFrom anchor (segment :: above) calls tree = (tree, some e') := by
  have hlocate : ∀ l, tree.locate ⟨anchor, (segment :: above).reverse⟩ ≠ .ok l := by
    intro l hl
    rw [makeDirectoriesFrom_above hl] at h
    cases h
  rw [makeDirectoriesFrom]
  cases hmake : tree.makeDirectory ⟨anchor, (segment :: above).reverse⟩ with
  | ok after =>
    rw [makeDirectory] at hmake
    split at hmake
    · cases hmake
    · next l hl => exact absurd hl (hlocate l)
  | error fault =>
    cases fault with
    | missing => exact ⟨e, by simp only [hcalls, if_false, h]⟩
    | _ => exact ⟨_, settle_of_not_located hlocate _⟩

/-- What could not be made cannot be made again, and this time nothing at all is made. -/
theorem makeDirectoriesFrom_fails_again {anchor : Anchor} {segments : List Text} {calls : Nat}
    {e : FileError} (h : makeDirectoriesFrom anchor segments calls tree = (after, some e)) :
    ∃ e', makeDirectoriesFrom anchor segments calls after = (after, some e') := by
  induction segments generalizing calls e with
  | nil => cases h
  | cons segment above ih =>
    have hfirst := h
    rw [makeDirectoriesFrom] at h
    split at h
    · cases h
    · split at h
      · -- There are no calls left, and nothing was made.
        obtain rfl := (Prod.mk.inj h).1
        exact ⟨e, hfirst⟩
      next hcalls =>
      split at h
      · next middle e' habove =>
        obtain rfl := (Prod.mk.inj h).1
        obtain ⟨e'', hagain⟩ := ih habove
        exact makeDirectoriesFrom_cons_of_fails hcalls hagain segment
      · next middle habove =>
        -- Only the last directory failed, and those above it are there by now.
        have hagain := makeDirectoriesFrom_again habove
        have hensure := h
        rw [ensureDirectory] at h
        split at h
        · cases h
        next fault hmake =>
        have hsame : (middle.settle ⟨anchor, (segment :: above).reverse⟩ fault).1 = middle :=
          settle_fst _ _
        obtain rfl : middle = after := by rw [← hsame, h]
        refine ⟨e, ?_⟩
        rw [makeDirectoriesFrom, hmake]
        cases fault with
        | missing => simp only [hcalls, if_false, hagain, hensure]
        | _ => exact h
    · next fault hmissing hmake =>
      have hsame : (tree.settle ⟨anchor, (segment :: above).reverse⟩ fault).1 = tree :=
        settle_fst _ _
      obtain rfl : tree = after := by rw [← hsame, h]
      exact ⟨e, hfirst⟩

theorem limits_of_makeDirectories {error : Option FileError}
    (h : tree.makeDirectories path = (after, error)) : after.limits = tree.limits := by
  have hadds := addsDirectories_makeDirectories tree path
  rw [h] at hadds
  exact hadds.limits

theorem makeDirectories_again (h : tree.makeDirectories path = (after, none)) :
    after.makeDirectories path = (after, none) := by
  rw [makeDirectories, limits_of_makeDirectories h]
  exact makeDirectoriesFrom_again h

theorem makeDirectories_fails_again {e : FileError}
    (h : tree.makeDirectories path = (after, some e)) :
    ∃ e', after.makeDirectories path = (after, some e') := by
  rw [makeDirectories, limits_of_makeDirectories h]
  exact makeDirectoriesFrom_fails_again h

/-- A write to a directory that is there changes nothing if it fails, or the file is there by then
and there is no room in it. -/
theorem writeFile_fails {e : FileError} (h : tree.writeFile path content = (after, some e)) :
    after = tree ∨
      ∃ l, after.locate path = .ok l ∧ after.kindAt? l = some .file ∧
        (after.limits.store l content).2.map (⟨·, path⟩) = some e := by
  cases hlocate : tree.locate path with
  | error fault =>
    simp only [writeFile, hlocate] at h
    exact Or.inl (Prod.mk.inj h).1.symm
  | ok l =>
    by_cases hdirectory : tree.get? l = some .directory
    · rw [writeFile_of_directory hlocate hdirectory] at h
      exact Or.inl (Prod.mk.inj h).1.symm
    · rw [writeFile_of_not_directory hlocate hdirectory] at h
      have hstores := stores_set hlocate hdirectory (tree.limits.store l content).1
      obtain ⟨rfl, herror⟩ := Prod.mk.inj h
      refine Or.inr ⟨l, hstores.keepsDirectories.locate hlocate, ?_, herror⟩
      rw [kindAt?_set (ne_nil_of_get? hdirectory), if_pos rfl]
      rfl

/-- A write that failed fails again, before the file is open or while it is stored as it did. -/
theorem write_fails_again {e : FileError} (h : tree.write path content = (after, some e)) :
    ∃ again e', after.write path content = (again, some e') ∧
      e'.fault.inStoring = e.fault.inStoring ∧ SameKinds after again := by
  rw [write] at h
  split at h
  · next middle e' hmake =>
    obtain ⟨rfl, rfl⟩ : middle = after ∧ e' = e := by simpa using h
    obtain ⟨e'', hagain⟩ := makeDirectories_fails_again hmake
    refine ⟨middle, e'', by rw [write, hagain], ?_, .refl middle⟩
    rw [(Refuses.of_makeDirectories_parent hagain).inStoring_eq_false,
      (Refuses.of_makeDirectories_parent hmake).inStoring_eq_false]
  · next middle hmake =>
    rcases writeFile_fails h with rfl | ⟨l, hlocate, hkind, hstore⟩
    · refine ⟨after, e, ?_, rfl, .refl after⟩
      rw [write, makeDirectories_again hmake]
      exact h
    · obtain ⟨again, hwrite, hkinds⟩ := write_of_file hlocate hkind content
      rw [hstore] at hwrite
      exact ⟨again, e, hwrite, rfl, hkinds⟩

end FileTree

end BuildChain
