import BuildChain.Proofs.Script.Section
import BuildChain.Proofs.TestOrder.Predecessor
import BuildChain.Script.Plugin

/-! # What the plugin tells of the conventions

The script of the plugin shows every convention: two conventions have one script only if they
differ in nothing but the order and the repetition of excluded names, or in whether versions are
taken from no project or from one with an empty path.
-/

namespace BuildChain

/-- The texts that a script can show. -/
def Conventions.texts (conventions : Conventions) : List Text :=
  conventions.group :: conventions.plugins ++ conventions.versionsFrom.toList ++
    conventions.extensions.flatMap (fun e => [e.1, e.2]) ++ conventions.gitKeys ++
    conventions.excluded ++ [conventions.tasks.test, conventions.tasks.hammer]

namespace Script.Plugin

open Conventions

/-- The conventions differ in nothing that matters to a build. -/
structure Alike (c d : Conventions) : Prop where
  group : c.group = d.group
  plugins : c.plugins = d.plugins
  versionsFrom : nonempty? c.versionsFrom = nonempty? d.versionsFrom
  extensions : c.extensions = d.extensions
  gitKeys : c.gitKeys = d.gitKeys
  mem_excluded : ∀ name, name ∈ c.excluded ↔ name ∈ d.excluded
  tasks : c.tasks = d.tasks

/-- The expression of a list that is left out when it is empty. -/
def list? (ts : List Text) : Option Text :=
  if ts.isEmpty then none else some (listOf ts)

def versionSection (path : Text) : List Text :=
  [oneLine "javaModuleDependencies" (call "versionsFromConsistentResolution" path), []]

def gitSection (keys : Text) : List Text :=
  [oneLine "gitProperties" ("keys = " ++ keys), []]

def dropSection (names : Text) : List Text :=
  ["        " ++ oneLine ".filter" ("it !in " ++ names)]

/-- The task that is waited for, by its name. -/
def Dependency.task : Dependency → Text
  | ownTask task => task
  | predecessorTask task => task

def remark (task : Text) : List Text :=
  ["// Remove the following once '" ++ task ++ "' tasks are allowed to run in parallel"]

variable {c d : Conventions} {ts us : List Text}

theorem list?_inj (ht : ∀ t ∈ ts, .char '"' ∉ t) (hu : ∀ u ∈ us, .char '"' ∉ u) :
    list? ts = list? us ↔ ts = us := by
  cases ts <;> cases us <;> simp [list?, listOf_inj ht hu]

theorem toList_inj {t u : Option Text} : t.toList = u.toList ↔ t = u := by
  cases t <;> cases u <;> simp

theorem versionLines_eq (path : Option Text) :
    versionLines path = (nonempty? path).toList.flatMap versionSection := by
  rcases path with _ | _ | _ <;> rfl

theorem gitLines_eq (keys : List Text) :
    gitLines keys = (list? keys).toList.flatMap gitSection := by
  cases keys <;> rfl

theorem dropLines_eq (conventions : Conventions) :
    dropLines (orderBlock conventions).dropped =
      (list? (TestOrder.sortDistinct conventions.excluded)).toList.flatMap dropSection := by
  unfold orderBlock list?
  cases conventions.excluded with
  | nil => rfl
  | cons name names =>
    have hne : (TestOrder.sortDistinct (name :: names)).isEmpty = false := by
      rw [List.isEmpty_eq_false_iff]
      exact List.ne_nil_of_mem (TestOrder.mem_sortDistinct.mpr List.mem_cons_self)
    rw [hne]
    rfl

theorem sections_version : Sections 'j' versionSection where
  first _ _ := rfl
  tells h := by simpa [versionSection, oneLine, call, literal] using h

theorem sections_extension : Sections 'c' extensionLines where
  first _ _ := rfl
  tells {a b t u} h := by
    obtain ⟨configuration, extended⟩ := a
    obtain ⟨configuration', extended'⟩ := b
    simpa [extensionLines, block, indent, opening, call, literal, and_assoc] using h

theorem sections_git : Sections 'g' gitSection where
  first _ _ := rfl
  tells h := by simpa [gitSection, oneLine] using h

theorem sections_remark : Sections '/' remark where
  first _ _ := rfl
  tells h := by simpa [remark] using h

/-- The step that drops names is told from the one that sorts them. -/
theorem dropSection_append_inj {names names' : Option Text} {t u : List Text} :
    names.toList.flatMap dropSection ++ (indexLines ++ t) =
        names'.toList.flatMap dropSection ++ (indexLines ++ u) ↔
      names = names' ∧ t = u := by
  have hsorted : ∀ names t u, dropSection names ++ t ≠ indexLines ++ u := by
    intro names t u h
    have hchar : some (CodePoint.char 'f') = some (CodePoint.char 's') :=
      congrArg (fun lines => lines.head?.bind (·[9]?)) h
    exact absurd hchar (by decide)
  constructor
  · intro h
    cases names with
    | none =>
      cases names' with
      | none => exact ⟨rfl, List.append_cancel_left h⟩
      | some names' => exact absurd h.symm (hsorted names' _ t)
    | some names =>
      cases names' with
      | none => exact absurd h (hsorted names _ u)
      | some names' => simpa [dropSection, oneLine] using h
  · rintro ⟨rfl, rfl⟩
    rfl

def taskLines (tasks : List TaskBlock) : List Text :=
  predecessorLine :: tasks.flatMap TaskBlock.lines

theorem opening_call_inj {function t u : Text} :
    opening (call function t) = opening (call function u) ↔ t = u := by
  simp [opening, call, literal]

theorem taskLines_inj :
    taskLines (orderBlock c).tasks = taskLines (orderBlock d).tasks ↔ c.tasks = d.tasks := by
  constructor
  · intro h
    have htest : some (opening (call "tasks.named" c.tasks.test)) =
        some (opening (call "tasks.named" d.tasks.test)) := congrArg (·[1]?) h
    have hhammer : some (opening (call "tasks.named" c.tasks.hammer)) =
        some (opening (call "tasks.named" d.tasks.hammer)) := congrArg (·[5]?) h
    rw [Option.some_inj, opening_call_inj] at htest hhammer
    cases hc : c.tasks
    cases hd : d.tasks
    simp_all
  · intro h
    simp only [orderBlock, h]

theorem orderLines_inj :
    (orderBlock c).lines = (orderBlock d).lines ↔
      list? (TestOrder.sortDistinct c.excluded) = list? (TestOrder.sortDistinct d.excluded) ∧
        c.tasks = d.tasks := by
  have horder : ∀ c, (orderBlock c).lines = namesLines ++
      ((list? (TestOrder.sortDistinct c.excluded)).toList.flatMap dropSection ++
        (indexLines ++ (block "if (sequentialTestIndex > 0)" (taskLines (orderBlock c).tasks) ++
          [[]]))) := by
    intro c
    simp only [OrderBlock.lines, dropLines_eq, taskLines, List.append_assoc]
  rw [horder, horder, List.append_cancel_left_eq, dropSection_append_inj, block_append_inj,
    taskLines_inj, and_iff_left rfl]

theorem lines_eq (c : Conventions) :
    lines c =
      block "plugins" (c.plugins.map (call "id")) ++
        ([] :: (("group = " : Text) ++ literal c.group) :: [] ::
          ((nonempty? c.versionsFrom).toList.flatMap versionSection ++
            (c.extensions.flatMap extensionLines ++
              ((list? c.gitKeys).toList.flatMap gitSection ++
                (remark c.tasks.test ++ (orderBlock c).lines))))) := by
  simp only [lines, pluginLines, groupLines, versionLines_eq, gitLines_eq, remark,
    List.append_assoc, List.cons_append, List.nil_append]

theorem call_inj {function t u : Text} : call function t = call function u ↔ t = u := by
  simp [call, literal]

/-- The sections of a script are told apart, whether or not some of them are missing. -/
theorem lines_inj :
    lines c = lines d ↔
      c.plugins = d.plugins ∧ c.group = d.group ∧
      nonempty? c.versionsFrom = nonempty? d.versionsFrom ∧ c.extensions = d.extensions ∧
      list? c.gitKeys = list? d.gitKeys ∧
      list? (TestOrder.sortDistinct c.excluded) = list? (TestOrder.sortDistinct d.excluded) ∧
      c.tasks = d.tasks := by
  have hplugins : c.plugins.map (call "id") = d.plugins.map (call "id") ↔ c.plugins = d.plugins :=
    List.map_inj_right fun _ _ => call_inj.mp
  have hgroup : ("group = " : Text) ++ literal c.group = ("group = " : Text) ++ literal d.group ↔
      c.group = d.group := by
    simp [literal]
  have hremark : ∀ (c : Conventions) {char : CodePoint}, '/' ≠ char →
      first? (remark c.tasks.test ++ (orderBlock c).lines) ≠ some char := by
    intro c char hne
    rw [sections_remark.first]
    simpa using hne
  have hgit : ∀ (c : Conventions) {char : CodePoint}, 'g' ≠ char → '/' ≠ char →
      first? ((list? c.gitKeys).toList.flatMap gitSection ++
        (remark c.tasks.test ++ (orderBlock c).lines)) ≠ some char := by
    intro c char hne hne'
    exact sections_git.first?_flatMap_append hne (hremark c hne')
  have hextension : ∀ c : Conventions, first? (c.extensions.flatMap extensionLines ++
      ((list? c.gitKeys).toList.flatMap gitSection ++
        (remark c.tasks.test ++ (orderBlock c).lines))) ≠ some 'j' := by
    intro c
    exact sections_extension.first?_flatMap_append (by decide)
      (hgit c (by decide) (by decide))
  rw [lines_eq, lines_eq, block_append_inj, hplugins, List.cons_inj_right, List.cons.injEq, hgroup,
    List.cons_inj_right, sections_version.flatMap_append_inj (hextension c) (hextension d),
    toList_inj, sections_extension.flatMap_append_inj (hgit c (by decide) (by decide))
      (hgit d (by decide) (by decide)),
    sections_git.flatMap_append_inj (hremark c (by decide)) (hremark d (by decide)),
    toList_inj, sections_remark.append_inj, orderLines_inj]
  constructor
  · rintro ⟨hp, hg, hv, he, hk, -, hx, ht⟩
    exact ⟨hp, hg, hv, he, hk, hx, ht⟩
  · rintro ⟨hp, hg, hv, he, hk, hx, ht⟩
    exact ⟨hp, hg, hv, he, hk, congrArg TestTasks.test ht, hx, ht⟩

/-- Expressions of lists are told apart only if no text in them holds a double quote. -/
theorem lines_eq_iff (hc : ∀ t ∈ c.texts, Quotable t) (hd : ∀ t ∈ d.texts, Quotable t) :
    lines c = lines d ↔ Alike c d := by
  have hkeys : ∀ {c : Conventions}, (∀ t ∈ c.texts, Quotable t) → ∀ t ∈ c.gitKeys, .char '"' ∉ t := by
    intro c hc t ht
    exact (hc t (by simp [texts, ht])).1
  have hexcluded : ∀ {c : Conventions}, (∀ t ∈ c.texts, Quotable t) →
      ∀ t ∈ TestOrder.sortDistinct c.excluded, .char '"' ∉ t := by
    intro c hc t ht
    rw [TestOrder.mem_sortDistinct] at ht
    exact (hc t (by simp [texts, ht])).1
  rw [lines_inj, list?_inj (hkeys hc) (hkeys hd), list?_inj (hexcluded hc) (hexcluded hd),
    TestOrder.sortDistinct_inj]
  constructor
  · rintro ⟨hp, hg, hv, he, hk, hx, ht⟩
    exact ⟨hg, hp, hv, he, hk, hx, ht⟩
  · rintro ⟨hg, hp, hv, he, hk, hx, ht⟩
    exact ⟨hp, hg, hv, he, hk, hx, ht⟩

theorem eq_some_of_nonempty? {path : Option Text} {t : Text} (h : nonempty? path = some t) :
    path = some t := by
  rcases path with _ | _ | _ <;> simp_all [nonempty?]

theorem newline_mem_line {dependency : Dependency} :
    .char '\n' ∈ dependency.line ↔ .char '\n' ∈ dependency.task := by
  cases dependency with
  | ownTask task =>
    change .char '\n' ∈ ("mustRunAfter(" : Text) ++ call "tasks.named" task ++ (")" : Text) ↔
      .char '\n' ∈ task
    simp
  | predecessorTask task =>
    change .char '\n' ∈ call "mustRunAfter" ((":$predecessorProject:" : Text) ++ task) ↔
      .char '\n' ∈ task
    simp

theorem unbroken_taskBlock {b : TaskBlock} (hb : .char '\n' ∉ b.task)
    (h : ∀ dependency ∈ b.runsAfter, .char '\n' ∉ dependency.task) : Unbroken b.lines := by
  rw [TaskBlock.lines, unbroken_block, newline_mem_call]
  refine ⟨by simpa using hb, ?_⟩
  intro line hline
  obtain ⟨dependency, hd, rfl⟩ := List.mem_map.mp hline
  rw [newline_mem_line]
  exact h dependency hd

theorem unbroken_orderLines (htest : .char '\n' ∉ c.tasks.test)
    (hhammer : .char '\n' ∉ c.tasks.hammer)
    (hexcluded : Unbroken c.excluded) : Unbroken (orderBlock c).lines := by
  have hdrop : Unbroken (dropLines (orderBlock c).dropped) := by
    rw [dropLines_eq, unbroken_flatMap]
    intro names hnames
    obtain ⟨-, rfl⟩ : TestOrder.sortDistinct c.excluded ≠ [] ∧
        listOf (TestOrder.sortDistinct c.excluded) = names := by
      simpa [list?] using hnames
    have hsorted : Unbroken (TestOrder.sortDistinct c.excluded) :=
      fun name hname => hexcluded name (TestOrder.mem_sortDistinct.mp hname)
    simpa [dropSection] using newline_notMem_listOf hsorted
  have htasks : ∀ b ∈ (orderBlock c).tasks, Unbroken b.lines := by
    intro b hb
    rcases List.mem_pair.mp hb with rfl | rfl
    · exact unbroken_taskBlock htest (by simp [Dependency.task, htest, hhammer])
    · exact unbroken_taskBlock hhammer (by simp [Dependency.task, htest, hhammer])
  simp only [OrderBlock.lines, unbroken_append, unbroken_block, unbroken_cons, unbroken_flatMap]
  exact ⟨⟨⟨⟨by decide, hdrop⟩, by decide⟩, by decide, by decide, htasks⟩, by simp⟩

theorem unbroken_lines (hc : ∀ t ∈ c.texts, Quotable t) : Unbroken (lines c) := by
  have hn : Unbroken c.texts := fun t ht => (hc t ht).2
  simp only [texts, unbroken_append, unbroken_cons, unbroken_flatMap, unbroken_nil] at hn
  obtain ⟨⟨⟨⟨⟨⟨hgroup, hplugins⟩, hversion⟩, hextensions⟩, hkeys⟩, hexcluded⟩, htest, hhammer, -⟩ := hn
  simp only [lines_eq, unbroken_append, unbroken_cons, unbroken_block, unbroken_flatMap]
  refine ⟨⟨by decide, ?_⟩, by simp, by simpa [literal] using hgroup, by simp, ?_, ?_, ?_, ?_,
    unbroken_orderLines htest hhammer hexcluded⟩
  · intro line hline
    obtain ⟨id, hid, rfl⟩ := List.mem_map.mp hline
    simpa using hplugins id hid
  · intro path hpath
    have hpath := eq_some_of_nonempty? (Option.mem_toList.mp hpath)
    simpa [versionSection] using hversion path (by simp [hpath])
  · intro extension hextension
    simpa [extensionLines] using hextensions extension hextension
  · intro keys hlist
    obtain ⟨-, rfl⟩ : c.gitKeys ≠ [] ∧ listOf c.gitKeys = keys := by
      simpa [list?] using hlist
    simpa [gitSection] using newline_notMem_listOf hkeys
  · simpa [remark] using htest

/-- Conventions whose texts hold neither double quotes nor newlines have one script if and only if
they are alike. -/
theorem text_eq_iff_alike (hc : ∀ t ∈ c.texts, Quotable t) (hd : ∀ t ∈ d.texts, Quotable t) :
    text c = text d ↔ Alike c d := by
  have hne : ∀ c, lines c ≠ [] := by
    intro c h
    rw [lines_eq] at h
    simp [block] at h
  rw [text, text, ofLines_inj (hne c) (hne d) (unbroken_lines hc) (unbroken_lines hd),
    lines_eq_iff hc hd]

/-- Neither the order of excluded names nor an empty path shows, but which task is which does. -/
theorem text_eq_iff_alike_reordered :
    let c : Conventions := { Conventions.default with versionsFrom := none, excluded := ["b", "a", "b"] }
    let d : Conventions := { Conventions.default with versionsFrom := some [], excluded := ["a", "b"] }
    let e : Conventions := { c with tasks := ⟨c.tasks.hammer, c.tasks.test⟩ }
    (∀ t ∈ c.texts, Quotable t) ∧ (∀ t ∈ d.texts, Quotable t) ∧ (∀ t ∈ e.texts, Quotable t) ∧
    text c = text d ∧ text c ≠ text e := by
  intro c d e
  have hc : ∀ t ∈ c.texts, Quotable t := by decide
  have hd : ∀ t ∈ d.texts, Quotable t := by decide
  have he : ∀ t ∈ e.texts, Quotable t := by decide
  have hexcluded : ∀ name, name ∈ c.excluded ↔ name ∈ d.excluded := by
    intro name
    simp only [c, d, List.mem_cons, List.not_mem_nil, or_false]
    tauto
  refine ⟨hc, hd, he, ?_, ?_⟩
  · exact (text_eq_iff_alike hc hd).mpr ⟨rfl, rfl, rfl, rfl, rfl, hexcluded, rfl⟩
  · intro h
    exact absurd ((text_eq_iff_alike hc he).mp h).tasks (by decide)

end Script.Plugin

end BuildChain
