import BuildChain.FileTree
import BuildChain.Proofs.FilePath

/-! # What a write changes

A write makes directories where nothing was and gives one file the bytes of a text. It fails before
the file is open, and then there is nothing new but directories, or while the file is stored, and
then the file holds a beginning of the bytes. All else stays.
-/

namespace BuildChain.FileTree

variable {before middle after tree : FileTree} {location l : Location} {segments : List Text}
  {path : FilePath} {bytes : Text.Bytes} {content : Text}

/-- The location has what it had, or a directory where nothing was. -/
def Untouched (before after : FileTree) (location : Location) : Prop :=
  after.get? location = before.get? location ∨
    before.get? location = none ∧ after.get? location = some .directory

theorem Untouched.trans (h : Untouched before middle l) (h' : Untouched middle after l) :
    Untouched before after l := by
  rcases h with h | ⟨hnone, hdirectory⟩
  · unfold Untouched
    rw [← h]
    exact h'
  · right
    constructor
    · exact hnone
    · rcases h' with h' | ⟨hnone', -⟩
      · rw [h', hdirectory]
      · rw [hdirectory] at hnone'
        cases hnone'

/-! ## Where paths lead -/

theorem locate_eq_ok_iff :
    tree.locate path = .ok l ↔
      (∀ s ∈ path.segments, FilePath.IsName s) ∧
        tree.walk (path.origin tree.working) path.segments = .ok l := by
  have hnames : (∀ s ∈ path.segments, FilePath.IsName s) ↔
      path.hasStray = false ∧ path.hasNull = false := by
    simp [FilePath.IsName, FilePath.hasStray, FilePath.hasNull, forall_and]
  rw [locate, hnames, ← FilePath.pathError?_text_eq_none_iff]
  cases Text.pathError? path.text with
  | some error => simp
  | none => cases path.hasNull <;> simp

theorem read_eq_ok_iff :
    tree.read path = .ok bytes ↔
      ∃ location, tree.locate path = .ok location ∧ tree.get? location = some (.file bytes) := by
  rw [read, at?]
  cases hlocate : tree.locate path with
  | error fault => simp
  | ok location =>
    cases hnode : tree.get? location with
    | none => simp [hnode]
    | some node => cases node <;> simp [hnode]

/-- Directories stay, those that relative paths start from included. -/
structure KeepsDirectories (before after : FileTree) : Prop where
  working : after.working = before.working
  directory : ∀ l, before.get? l = some .directory → after.get? l = some .directory

namespace KeepsDirectories

theorem refl (tree : FileTree) : KeepsDirectories tree tree where
  working := rfl
  directory _ h := h

theorem trans (h : KeepsDirectories before middle) (h' : KeepsDirectories middle after) :
    KeepsDirectories before after where
  working := h'.working.trans h.working
  directory l hl := h'.directory l (h.directory l hl)

theorem walk (h : KeepsDirectories before after) (hwalk : before.walk location segments = .ok l) :
    after.walk location segments = .ok l := by
  induction segments generalizing location with
  | nil => exact hwalk
  | cons segment segments ih =>
    rw [FileTree.walk] at hwalk
    split at hwalk
    · next next hstep =>
      have hdirectory : before.get? location = some .directory ∧ location.enter segment = next := by
        rw [step] at hstep
        split at hstep <;> simp_all
      rw [FileTree.walk, step, h.directory location hdirectory.1]
      simp only [hdirectory.2]
      exact ih hwalk
    · cases hwalk

/-- A path that leads somewhere leads there still. -/
theorem locate (h : KeepsDirectories before after) (hlocate : before.locate path = .ok l) :
    after.locate path = .ok l := by
  rw [locate_eq_ok_iff] at hlocate ⊢
  rw [h.working]
  exact ⟨hlocate.1, h.walk hlocate.2⟩

theorem read (h : KeepsDirectories before after) (hread : before.read path = .ok bytes)
    (huntouched : ∀ l, before.locate path = .ok l → Untouched before after l) :
    after.read path = .ok bytes := by
  obtain ⟨location, hlocate, hfile⟩ := read_eq_ok_iff.mp hread
  rw [read_eq_ok_iff]
  refine ⟨location, h.locate hlocate, ?_⟩
  rcases huntouched location hlocate with heq | ⟨hnone, -⟩
  · rw [heq, hfile]
  · rw [hfile] at hnone
    cases hnone

end KeepsDirectories

/-! ## Making directories -/

/-- There is nothing new but directories. -/
structure AddsDirectories (before after : FileTree) : Prop where
  working : after.working = before.working
  limits : after.limits = before.limits
  untouched : ∀ l, Untouched before after l

namespace AddsDirectories

theorem refl (tree : FileTree) : AddsDirectories tree tree where
  working := rfl
  limits := rfl
  untouched _ := Or.inl rfl

theorem trans (h : AddsDirectories before middle) (h' : AddsDirectories middle after) :
    AddsDirectories before after where
  working := h'.working.trans h.working
  limits := h'.limits.trans h.limits
  untouched l := (h.untouched l).trans (h'.untouched l)

theorem keepsDirectories (h : AddsDirectories before after) : KeepsDirectories before after where
  working := h.working
  directory l hl := by
    rcases h.untouched l with heq | ⟨hnone, -⟩
    · rw [heq, hl]
    · rw [hl] at hnone
      cases hnone

end AddsDirectories

/-- The root is always a directory. -/
theorem ne_nil_of_get? (h : tree.get? location ≠ some .directory) : location ≠ [] := by
  rintro rfl
  exact h rfl

theorem addsDirectories_makeDirectory (h : tree.makeDirectory path = .ok after) :
    AddsDirectories tree after := by
  rw [makeDirectory] at h
  split at h
  · cases h
  next location hlocate =>
  split at h
  · cases h
  next hnone =>
  obtain rfl := Except.ok.inj h
  have hfree : tree.get? location ≠ some .directory := by simp [hnone]
  have hne : location ≠ [] := ne_nil_of_get? hfree
  constructor
  · rfl
  · rfl
  · intro l
    unfold Untouched
    rw [get?_set _ _ _ _ hne]
    split
    · next hl =>
      rw [hl]
      exact Or.inr ⟨hnone, rfl⟩
    · exact Or.inl rfl

theorem settle_fst (path : FilePath) (fault : FileFault) : (tree.settle path fault).1 = tree := by
  rw [settle]
  split <;> rfl

theorem addsDirectories_ensureDirectory (tree : FileTree) (path : FilePath) :
    AddsDirectories tree (tree.ensureDirectory path).1 := by
  rw [ensureDirectory]
  split
  · next h => exact addsDirectories_makeDirectory h
  · rw [settle_fst]
    exact .refl tree

theorem addsDirectories_makeDirectoriesFrom (anchor : Anchor) (segments : List Text)
    (calls : Nat) (tree : FileTree) :
    AddsDirectories tree (makeDirectoriesFrom anchor segments calls tree).1 := by
  induction segments generalizing calls with
  | nil => exact .refl tree
  | cons segment above ih =>
    rw [makeDirectoriesFrom]
    split
    · next h => exact addsDirectories_makeDirectory h
    · split
      · exact .refl tree
      · have habove := ih (calls - 1)
        split
        · next h =>
          rw [h] at habove
          exact habove
        · next middle h =>
          rw [h] at habove
          exact habove.trans (addsDirectories_ensureDirectory middle _)
    · rw [settle_fst]
      exact .refl tree

theorem addsDirectories_makeDirectories (tree : FileTree) (path : FilePath) :
    AddsDirectories tree (tree.makeDirectories path).1 :=
  addsDirectories_makeDirectoriesFrom _ _ _ tree

/-! ## Writing files -/

/-- The file at the path got the bytes, and there is nothing else that is new but directories. -/
structure Stores (before : FileTree) (path : FilePath) (bytes : Text.Bytes) (after : FileTree) :
    Prop where
  keepsDirectories : KeepsDirectories before after
  exists_location : ∃ location, after.locate path = .ok location ∧
    after.get? location = some (.file bytes) ∧ ∀ l ≠ location, Untouched before after l

/-- The file that was written is the only one that changed. -/
theorem Stores.untouched (h : Stores before path bytes after) (hl : after.locate path ≠ .ok l) :
    Untouched before after l := by
  obtain ⟨location, hlocate, -, huntouched⟩ := h.exists_location
  apply huntouched
  rintro rfl
  exact hl hlocate

theorem stores_set (hlocate : tree.locate path = .ok location)
    (hfile : tree.get? location ≠ some .directory) (bytes : Text.Bytes) :
    Stores tree path bytes (tree.set location (.file bytes)) := by
  have hnew : ∀ l, (tree.set location (.file bytes)).get? l =
      if l = location then some (.file bytes) else tree.get? l :=
    fun l => get?_set _ _ _ _ (ne_nil_of_get? hfile)
  have hkeeps : KeepsDirectories tree (tree.set location (.file bytes)) := by
    constructor
    · rfl
    · intro l hl
      rw [hnew, if_neg, hl]
      rintro rfl
      exact hfile hl
  refine ⟨hkeeps, location, hkeeps.locate hlocate, by simp [hnew], ?_⟩
  intro l hl
  left
  rw [hnew, if_neg hl]

theorem Stores.of_addsDirectories (hadds : AddsDirectories before middle)
    (hstores : Stores middle path bytes after) : Stores before path bytes after := by
  obtain ⟨location, hlocate, hfile, huntouched⟩ := hstores.exists_location
  refine ⟨hadds.keepsDirectories.trans hstores.keepsDirectories, location, hlocate, hfile, ?_⟩
  intro l hl
  exact (hadds.untouched l).trans (huntouched l hl)

/-- What the tree has room for of a text, in the file that the path leads to. -/
def taken (tree : FileTree) (path : FilePath) (content : Text) : Text.Bytes :=
  match tree.locate path with
  | .ok location => (tree.limits.store location content).1
  | .error _ => []

theorem taken_of_locate (hlocate : tree.locate path = .ok location) (content : Text) :
    tree.taken path content = (tree.limits.store location content).1 := by
  rw [taken, hlocate]

/-- The bytes are a beginning of those of the text, and not all of them. -/
structure IsCut (content : Text) (bytes : Text.Bytes) : Prop where
  beginning : bytes <+: Text.encode content
  incomplete : bytes ≠ Text.encode content

/-- A fault that comes up when the file is open: there is no room, or there are no bytes for the
content. -/
inductive Breaks (content : Text) : FileFault → Prop
  | tooLarge : Breaks content .tooLarge
  | unencodable {error : Text.EncodeError} (halves : ¬ content.IsWhole) :
    Breaks content (.unencodable error)

theorem Breaks.inStoring {fault : FileFault} (h : Breaks content fault) :
    fault.inStoring = true := by
  cases h <;> rfl

theorem isCut_nil (h : ¬ content.IsWhole) : IsCut content [] where
  beginning := List.nil_prefix
  incomplete hnil := by
    rw [Text.encode_eq_nil_iff.mp hnil.symm] at h
    exact h (List.forall_mem_nil _)

theorem isCut_take {room : Nat} (h : room < (Text.encode content).length) :
    IsCut content ((Text.encode content).take room) where
  beginning := List.take_prefix room _
  incomplete hall := by
    have hlength := congrArg List.length hall
    rw [List.length_take] at hlength
    omega

/-- A file holds all of a text, or a beginning of it and there is a fault. -/
theorem store_cases (limits : Limits) (location : Location) (content : Text) :
    limits.store location content = (Text.encode content, none) ∨
      ∃ bytes fault, limits.store location content = (bytes, some fault) ∧
        Breaks content fault ∧ IsCut content bytes := by
  rw [Limits.store]
  split
  · next error hencode =>
    have hhalves : ¬ content.IsWhole := by
      rw [← Text.encodeError?_eq_none_iff, hencode]
      exact Option.some_ne_none error
    exact .inr ⟨[], _, rfl, .unencodable hhalves, isCut_nil hhalves⟩
  split
  · exact .inl rfl
  · next room hlimit =>
    split
    · exact .inl rfl
    · next hroom => exact .inr ⟨_, _, rfl, .tooLarge, isCut_take (by omega)⟩

theorem store_of_snd_eq_none {limits : Limits}
    (h : (limits.store location content).2 = none) :
    (limits.store location content).1 = Text.encode content := by
  rcases store_cases limits location content with hstore | ⟨bytes, fault, hstore, -, -⟩
  · rw [hstore]
  · rw [hstore] at h
    cases h

theorem store_of_snd_eq_some {limits : Limits} {fault : FileFault}
    (h : (limits.store location content).2 = some fault) :
    Breaks content fault ∧ IsCut content (limits.store location content).1 := by
  rcases store_cases limits location content with hstore | ⟨bytes, fault', hstore, hbreaks, hcut⟩
  · rw [hstore] at h
    cases h
  · rw [hstore] at h ⊢
    rw [← Option.some.inj h]
    exact ⟨hbreaks, hcut⟩

/-- A fault that comes up before a file is open. The file system reports it, or it has a reason of
its own. -/
inductive Refuses (path : FilePath) (deep : Prop) : FileFault → Prop
  | reported {fault : FileFault} (reported : fault.isReported = true)
      (opening : fault.inStoring = false) : Refuses path deep fault
  | unnameable {error : Text.EncodeError} (stray : path.hasStray = true) :
    Refuses path deep (.unnameable error)
  | embeddedNull (null : path.hasNull = true) : Refuses path deep .embeddedNull
  | tooDeep (nested : deep) : Refuses path deep .tooDeep

namespace Refuses

variable {fault : FileFault} {path' : FilePath} {deep deep' : Prop}

theorem inStoring_eq_false (h : Refuses path deep fault) : fault.inStoring = false := by
  cases h with
  | reported reported opening => exact opening
  | unnameable stray => rfl
  | embeddedNull null => rfl
  | tooDeep nested => rfl

theorem imp (h : Refuses path deep fault) (hsegments : path.segments ⊆ path'.segments)
    (hdeep : deep → deep') : Refuses path' deep' fault := by
  have hany : ∀ p : Text → Bool, path.segments.any p = true → path'.segments.any p = true := by
    intro p h
    obtain ⟨s, hs, hp⟩ := List.any_eq_true.mp h
    exact List.any_eq_true.mpr ⟨s, hsegments hs, hp⟩
  cases h with
  | reported reported opening => exact .reported reported opening
  | unnameable stray => exact .unnameable (hany _ stray)
  | embeddedNull null => exact .embeddedNull (hany _ null)
  | tooDeep nested => exact .tooDeep (hdeep nested)

theorem of_walk (h : tree.walk location segments = .error fault) : Refuses path deep fault := by
  induction segments generalizing location with
  | nil => cases h
  | cons segment segments ih =>
    rw [walk] at h
    split at h
    · exact ih h
    · next fault' hstep =>
      obtain rfl := Except.error.inj h
      rw [step] at hstep
      split at hstep
      · obtain rfl := Except.error.inj hstep
        exact .reported rfl rfl
      · obtain rfl := Except.error.inj hstep
        exact .reported rfl rfl
      · cases hstep

theorem of_locate (h : tree.locate path = .error fault) : Refuses path deep fault := by
  rw [locate] at h
  split at h
  · next error hpath =>
    obtain rfl := Except.error.inj h
    apply Refuses.unnameable
    rw [← Bool.not_eq_false, ← FilePath.pathError?_text_eq_none_iff, hpath]
    exact Option.some_ne_none error
  split at h
  · next hnull =>
    obtain rfl := Except.error.inj h
    exact .embeddedNull hnull
  · exact of_walk h

theorem of_makeDirectory (h : tree.makeDirectory path = .error fault) :
    Refuses path deep fault := by
  rw [makeDirectory] at h
  split at h
  · next fault' hlocate =>
    obtain rfl := Except.error.inj h
    exact of_locate hlocate
  · split at h
    · obtain rfl := Except.error.inj h
      exact .reported rfl rfl
    · cases h

theorem of_settle {e : FileError} (h : tree.settle path fault = (after, some e))
    (hfault : Refuses path deep fault) : Refuses path deep e.fault := by
  rw [settle] at h
  split at h
  · cases h
  · obtain rfl := Option.some.inj (Prod.mk.inj h).2
    exact hfault

theorem of_ensureDirectory {e : FileError} (h : tree.ensureDirectory path = (after, some e)) :
    Refuses path deep e.fault := by
  rw [ensureDirectory] at h
  split at h
  · cases h
  · next fault hmake => exact of_settle h (of_makeDirectory hmake)

theorem of_makeDirectoriesFrom {anchor : Anchor} {calls : Nat} {e : FileError}
    (h : makeDirectoriesFrom anchor segments calls tree = (after, some e)) :
    Refuses ⟨anchor, segments.reverse⟩ (calls < segments.length) e.fault := by
  induction segments generalizing calls after e with
  | nil => cases h
  | cons segment above ih =>
    rw [makeDirectoriesFrom] at h
    split at h
    · cases h
    · split at h
      · next hcalls =>
        obtain rfl := Option.some.inj (Prod.mk.inj h).2
        exact .tooDeep (by simp [hcalls])
      · split at h
        · next habove =>
          obtain rfl := Option.some.inj (Prod.mk.inj h).2
          apply (ih habove).imp
          · simp
          · rw [List.length_cons]
            omega
        · exact of_ensureDirectory h
    · next fault _ hmake => exact of_settle h (of_makeDirectory hmake)

theorem of_makeDirectories_parent {e : FileError}
    (h : tree.makeDirectories path.parent = (after, some e)) :
    Refuses path (tree.limits.nesting < path.parent.segments.length) e.fault := by
  apply (of_makeDirectoriesFrom h).imp
  · rw [List.reverse_reverse]
    exact List.dropLast_subset path.segments
  · simp

end Refuses

/-- What can come of writing a text: it is stored, it is cut while it is stored, or the file is not
even opened. -/
inductive Writes (before : FileTree) (path : FilePath) (content : Text) :
    FileTree → Option FileError → Prop
  | stored {after : FileTree} (room : after.taken path content = Text.encode content)
      (stores : Stores before path (Text.encode content) after) :
      Writes before path content after none
  | cut {after : FileTree} {e : FileError} (breaks : Breaks content e.fault)
      (cut : IsCut content (after.taken path content))
      (stores : Stores before path (after.taken path content) after) :
      Writes before path content after (some e)
  | refused {after : FileTree} {e : FileError}
      (refuses : Refuses path (before.limits.nesting < path.parent.segments.length) e.fault)
      (adds : AddsDirectories before after) : Writes before path content after (some e)

theorem Writes.of_addsDirectories {error : Option FileError} (hadds : AddsDirectories before middle)
    (hwrites : Writes middle path content after error) :
    Writes before path content after error := by
  cases hwrites with
  | stored room stores => exact .stored room (stores.of_addsDirectories hadds)
  | cut breaks cut stores => exact .cut breaks cut (stores.of_addsDirectories hadds)
  | refused refuses adds =>
    rw [hadds.limits] at refuses
    exact .refused refuses (hadds.trans adds)

theorem writes_writeFile (tree : FileTree) (path : FilePath) (content : Text) :
    Writes tree path content (tree.writeFile path content).1 (tree.writeFile path content).2 := by
  rw [writeFile]
  split
  · next hlocate => exact .refused (.of_locate hlocate) (.refl tree)
  next location hlocate =>
  split
  · exact .refused (.reported rfl rfl) (.refl tree)
  next hfile =>
  have hstores := stores_set hlocate hfile (tree.limits.store location content).1
  have htaken : taken _ path content = (tree.limits.store location content).1 :=
    taken_of_locate (hstores.keepsDirectories.locate hlocate) content
  simp only
  cases hstore : (tree.limits.store location content).2 with
  | none =>
    rw [store_of_snd_eq_none hstore] at hstores htaken ⊢
    exact .stored htaken hstores
  | some fault =>
    obtain ⟨hbreaks, hcut⟩ := store_of_snd_eq_some hstore
    rw [← htaken] at hcut
    exact .cut hbreaks hcut (htaken.symm ▸ hstores)

theorem writes_write (tree : FileTree) (path : FilePath) (content : Text) :
    Writes tree path content (tree.write path content).1 (tree.write path content).2 := by
  have hadds := addsDirectories_makeDirectories tree path.parent
  rw [write]
  split
  · next middle e hmake =>
    rw [hmake] at hadds
    exact .refused (.of_makeDirectories_parent hmake) hadds
  · next middle hmake =>
    rw [hmake] at hadds
    exact (writes_writeFile middle path content).of_addsDirectories hadds

/-- What writing a text to the path can fail with. All of it but what comes of the path and of
the text are errors of the file system. -/
inductive WriteFault (limits : Limits) (path : FilePath) (content : Text) : FileFault → Prop
  | reported {fault : FileFault} (reported : fault.isReported = true) :
      WriteFault limits path content fault
  | unnameable {error : Text.EncodeError} (stray : path.hasStray = true) :
      WriteFault limits path content (.unnameable error)
  | embeddedNull (null : path.hasNull = true) : WriteFault limits path content .embeddedNull
  | tooDeep (nested : limits.nesting < path.parent.segments.length) :
      WriteFault limits path content .tooDeep
  | unencodable {error : Text.EncodeError} (halves : ¬ content.IsWhole) :
      WriteFault limits path content (.unencodable error)

theorem Writes.writeFault {e : FileError} (h : Writes before path content after (some e)) :
    WriteFault before.limits path content e.fault := by
  cases h with
  | cut breaks cut stores =>
    generalize e.fault = fault at breaks ⊢
    cases breaks with
    | tooLarge => exact .reported rfl
    | unencodable halves => exact .unencodable halves
  | refused refuses adds =>
    generalize e.fault = fault at refuses ⊢
    cases refuses with
    | reported reported opening => exact .reported reported
    | unnameable stray => exact .unnameable stray
    | embeddedNull null => exact .embeddedNull null
    | tooDeep nested => exact .tooDeep nested

/-! ## What has changed -/

/-- The files that changed are those below the working directory that were not there before with
the same bytes. -/
theorem mem_changedFiles_iff {text : Text} :
    (text, bytes) ∈ before.changedFiles after ↔
      ∃ segments, (after.working ++ segments, .file bytes) ∈ after.nodes ∧
        before.get? (after.working ++ segments) ≠ some (.file bytes) ∧
        Text.join "/" segments = text := by
  rw [changedFiles, List.mem_mergeSort, List.mem_filterMap]
  constructor
  · rintro ⟨⟨location, node⟩, hchange, hfile⟩
    obtain ⟨hnode, hnew⟩ := List.mem_filter.mp hchange
    cases node with
    | directory => cases hfile
    | file bytes' =>
      simp only at hfile
      split at hfile
      · next hbelow =>
        obtain ⟨segments, rfl⟩ := List.isPrefixOf_iff_prefix.mp hbelow
        simp only [List.drop_left, Option.some.injEq, Prod.mk.injEq] at hfile
        obtain ⟨rfl, rfl⟩ := hfile
        exact ⟨segments, hnode, by simpa using hnew, rfl⟩
      · cases hfile
  · rintro ⟨segments, hnode, hnew, rfl⟩
    refine ⟨(after.working ++ segments, .file bytes), ?_, by simp⟩
    exact List.mem_filter.mpr ⟨hnode, by simpa using hnew⟩

end BuildChain.FileTree
