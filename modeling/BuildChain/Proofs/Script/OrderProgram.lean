import BuildChain.Proofs.Script.PluginText
import BuildChain.Proofs.TestOrder.Predecessor

/-! # The test order that the plugin computes

The part of the plugin that orders the tests is a small program. It sorts the names of all
projects with their repetitions, looks for its own project and declares what the two tasks wait
for. Here the program is read from the text of the plugin. What it declares are the constraints of
the project, although these are computed without repetitions.
-/

namespace BuildChain.Script.Plugin

open TestOrder

/-! ## Programs -/

/-- An expression for a list of names. -/
inductive NameList
  /-- The names of all projects, one for each project. -/
  | projects
  | without (names : NameList) (dropped : List Text)
  | sorted (names : NameList)

/-- The value of an expression in a build. Sorting keeps repetitions. -/
def NameList.eval (projectNames : List Text) : NameList → List Text
  | projects => projectNames
  | without names dropped => (names.eval projectNames).filter (!dropped.contains ·)
  | sorted names => (names.eval projectNames).mergeSort fun t u => !decide (u < t)

/-- The program of the plugin: the names in which a project looks for itself, and what it declares
if another project stands before it. -/
structure OrderProgram where
  names : NameList
  tasks : List TaskBlock

/-- The path of the task that is waited for. A task of the own project goes by its name alone. -/
def Dependency.path (predecessor active : Text) : Dependency → Text
  | ownTask task => ProjectPath.flatTask active task
  | predecessorTask task => ProjectPath.flatTask predecessor task

/-- What a block declares in the project `active`. -/
def TaskBlock.constraint (predecessor active : Text) (b : TaskBlock) : Constraint where
  task := ProjectPath.flatTask active b.task
  runsAfter := b.runsAfter.map (Dependency.path predecessor active)

/-- The position of the first occurrence, or -1. -/
def indexOf (names : List Text) (name : Text) : Int :=
  match names.idxOf? name with
  | some index => index
  | none => -1

/-- What the program declares in the project `active`. There is no result if it looks beyond the
list. -/
def OrderProgram.run (program : OrderProgram) (projectNames : List Text) (active : Text) :
    Option (List Constraint) := do
  let order := program.names.eval projectNames
  if 0 < indexOf order active then
    let predecessor ← order[(indexOf order active - 1).toNat]?
    return program.tasks.map (TaskBlock.constraint predecessor active)
  else
    return []

/-! ## The reader -/

/-- The lines after the last one that is the given one. -/
def afterLastLine (line : Text) (lines : List Text) : List Text :=
  (lines.reverse.takeWhile (· != line)).reverse

/-- The names that a step of the expression drops. -/
def dropped? (line : Text) : Option (List Text) :=
  (Text.after? "        .filter \x7b it !in " line).bind fun rest =>
    (Text.after? "\x7d " rest.reverse).bind fun reversed => listOf? reversed.reverse

/-- The step that sorts the names. -/
def sortLine : Text :=
  "        .sorted()"

/-- The steps that follow an expression, and the lines after them. -/
def steps : NameList → List Text → NameList × List Text
  | names, [] => (names, [])
  | names, line :: lines =>
    if line = sortLine then steps names.sorted lines
    else
      match dropped? line with
      | some dropped => steps (names.without dropped) lines
      | none => (names, line :: lines)

/-- The task of a block that a line opens. -/
def task? : (line : Text) → Option Text :=
  quoted? "    tasks.named(" ") \x7b"

def ownTask? (line : Text) : Option Dependency :=
  (quoted? "        mustRunAfter(tasks.named(" "))" line).map .ownTask

def predecessorTask? (line : Text) : Option Dependency :=
  (quoted? "        mustRunAfter(" ")" line).bind fun path =>
    (Text.after? ":$predecessorProject:" path).map .predecessorTask

def dependency? (line : Text) : Option Dependency :=
  (ownTask? line).or (predecessorTask? line)

/-- Where among the declarations a line stands. -/
inductive Place
  | between
  /-- In a block whose opening line and dependencies so far have been read. -/
  | inside (task : Text) (runsAfter : List Dependency)

/-- The lines that close the declarations, with an empty one after them. -/
def ending : List Text :=
  ["\x7d", []]

/-- The blocks that lines complete up to the end. -/
def blocks? : Place → List Text → Option (List TaskBlock)
  | _, [] => none
  | .between, line :: lines =>
    if line :: lines = ending then some []
    else (task? line).bind fun task => blocks? (.inside task []) lines
  | .inside task runsAfter, line :: lines =>
    if line = "    \x7d" then (blocks? .between lines).map (⟨task, runsAfter⟩ :: ·)
    else
      (dependency? line).bind fun dependency =>
        blocks? (.inside task (runsAfter ++ [dependency])) lines

/-- The lines that an expression for names starts with. -/
def source : List Text :=
  ["    rootProject.subprojects", "        .map \x7b it.name \x7d"]

/-- The lines from the expression to the declarations: they find the project and the one before
it. -/
def search : List Text :=
  ["val sequentialTestIndex = sequentialTestProjects.indexOf(name)", [],
    "if (sequentialTestIndex > 0) \x7b",
    "    val predecessorProject = sequentialTestProjects[sequentialTestIndex - 1]"]

/-- The program in the lines that start with the expression for the names. -/
def program? (lines : List Text) : Option OrderProgram := do
  let lines ← source.isPrefixOf? lines
  let (names, lines) := steps .projects lines
  let lines ← search.isPrefixOf? lines
  let tasks ← blocks? .between lines
  return ⟨names, tasks⟩

/-- The program in the text of a plugin. -/
def read? (t : Text) : Option OrderProgram :=
  program? (afterLastLine "val sequentialTestProjects =" (Text.split (· == '\n') t))

/-- What a plugin with the given text declares in the project `active`. -/
def declared? (t : Text) (projectNames : List Text) (active : Text) : Option (List Constraint) :=
  (read? t).bind fun program => program.run projectNames active

/-! ## Reading the lines -/

/-- The names in a block can stand in literals. -/
structure TaskBlock.Quotable (b : TaskBlock) : Prop where
  task : Script.Quotable b.task
  runsAfter : ∀ d ∈ b.runsAfter, Script.Quotable d.task

/-- The names of the conventions can stand in literals of the program. -/
structure Quotable (conventions : Conventions) : Prop where
  excluded : ∀ name ∈ conventions.excluded, Script.Quotable name
  test : Script.Quotable conventions.tasks.test
  hammer : Script.Quotable conventions.tasks.hammer

variable {conventions : Conventions} {names order dropped lines front rest : List Text}
  {list : NameList} {active line task t : Text} {b : TaskBlock} {blocks : List TaskBlock}
  {d : Dependency}

theorem afterLastLine_append_cons (h : line ∉ rest) :
    afterLastLine line (front ++ line :: rest) = rest := by
  have hkeep : ∀ l ∈ rest.reverse, (l != line) = true := by
    intro l hl
    rw [List.mem_reverse] at hl
    exact bne_iff_ne.mpr (ne_of_mem_of_not_mem hl h)
  rw [afterLastLine, List.reverse_append, List.reverse_cons, List.append_assoc,
    List.takeWhile_append_of_pos hkeep]
  simp

theorem isPrefixOf?_append (front rest : List Text) :
    front.isPrefixOf? (front ++ rest) = some rest :=
  List.isPrefixOf?_eq_some_iff_append_eq.mpr rfl

theorem dropped?_line (h : ∀ t ∈ dropped, .char '"' ∉ t) :
    dropped? ("        " ++ oneLine ".filter" ("it !in " ++ listOf dropped)) = some dropped := by
  have hline : ("        " ++ oneLine ".filter" ("it !in " ++ listOf dropped) : Text) =
      "        .filter \x7b it !in " ++ (listOf dropped ++ " \x7d") := by
    simp [oneLine, opening]
  have hback : (listOf dropped ++ " \x7d" : Text).reverse = "\x7d " ++ (listOf dropped).reverse := by
    rw [List.reverse_append]
    rfl
  rw [dropped?, hline, Text.after?_append, Option.bind_some, hback, Text.after?_append,
    Option.bind_some, List.reverse_reverse, listOf?_listOf h]

theorem steps_dropLines (h : ∀ t ∈ dropped, .char '"' ∉ t) :
    steps list (dropLines (some dropped) ++ lines) = steps (list.without dropped) lines := by
  have hline : ("        " ++ oneLine ".filter" ("it !in " ++ listOf dropped) : Text) ≠
      sortLine := by
    intro h
    have hchar : ∀ t : Text, ("        " ++ oneLine ".filter" t : Text)[9]? = some (.char 'f') :=
      fun _ => rfl
    have hsort := (congrArg (fun t : Text => t[9]?) h).symm.trans (hchar _)
    exact absurd hsort (by decide)
  change steps list (("        " ++ oneLine ".filter" ("it !in " ++ listOf dropped)) :: lines) = _
  rw [steps, if_neg hline, dropped?_line h]

theorem steps_sorted :
    steps list (sortLine :: (search ++ lines)) = (list.sorted, search ++ lines) := by
  have hsorted : ("val sequentialTestIndex = sequentialTestProjects.indexOf(name)" : Text) ≠
      sortLine := by decide
  have hdropped : dropped? "val sequentialTestIndex = sequentialTestProjects.indexOf(name)" =
      none := by decide
  rw [steps, if_pos rfl, search, List.cons_append, steps, if_neg hsorted, hdropped]

theorem task?_line (h : .char '"' ∉ task) :
    task? (indent (opening (call "tasks.named" task))) = some task := by
  have hline : indent (opening (call "tasks.named" task)) =
      "    tasks.named(" ++ literal task ++ ") \x7b" := by
    simp [indent, opening, call]
  rw [task?, quoted?_eq_some_iff (by decide) (by decide)]
  exact ⟨hline, h⟩

theorem dependency?_line (h : .char '"' ∉ d.task) :
    dependency? (indent (indent d.line)) = some d := by
  cases d with
  | ownTask task =>
    have hline : indent (indent (Dependency.ownTask task).line) =
        "        mustRunAfter(tasks.named(" ++ literal task ++ "))" := by
      change indent (indent ("mustRunAfter(" ++ call "tasks.named" task ++ ")")) = _
      simp [indent, call]
    have hread : quoted? "        mustRunAfter(tasks.named(" "))"
        (indent (indent (Dependency.ownTask task).line)) = some task := by
      rw [quoted?_eq_some_iff (by decide) (by decide)]
      exact ⟨hline, h⟩
    rw [dependency?, ownTask?, hread]
    rfl
  | predecessorTask task =>
    have hline : indent (indent (Dependency.predecessorTask task).line) =
        "        mustRunAfter(" ++ literal (":$predecessorProject:" ++ task) ++ ")" := by
      change indent (indent (call "mustRunAfter" (":$predecessorProject:" ++ task))) = _
      simp [indent, call]
    have hquote : .char '"' ∉ (":$predecessorProject:" ++ task : Text) := by
      rw [List.mem_append]
      exact not_or.mpr ⟨by decide, h⟩
    have hread : quoted? "        mustRunAfter(" ")"
        (indent (indent (Dependency.predecessorTask task).line)) =
          some (":$predecessorProject:" ++ task) := by
      rw [quoted?_eq_some_iff (by decide) (by decide)]
      exact ⟨hline, hquote⟩
    have hown : ownTask? (indent (indent (Dependency.predecessorTask task).line)) = none := by
      rw [ownTask?, Option.map_eq_none_iff, Option.eq_none_iff_forall_ne_some]
      intro t ht
      rw [quoted?_eq_some_iff (by decide) (by decide), hline] at ht
      simp [literal] at ht
    rw [dependency?, hown, Option.none_or, predecessorTask?, hread, Option.bind_some,
      Text.after?_append]
    rfl

theorem blocks?_inside {seen runsAfter : List Dependency}
    (h : ∀ d ∈ runsAfter, .char '"' ∉ d.task) :
    blocks? (.inside task seen)
        (runsAfter.map (fun d => indent (indent d.line)) ++ indent closing :: rest) =
      (blocks? .between rest).map (⟨task, seen ++ runsAfter⟩ :: ·) := by
  induction runsAfter generalizing seen with
  | nil =>
    rw [List.map_nil, List.nil_append, blocks?, if_pos (by decide), List.append_nil]
  | cons d runsAfter ih =>
    obtain ⟨hd, h⟩ := List.forall_mem_cons.mp h
    have hopen : indent (indent d.line) ≠ "    \x7d" := by simp [indent]
    rw [List.map_cons, List.cons_append, blocks?, if_neg hopen, dependency?_line hd,
      Option.bind_some, ih h, List.append_assoc, List.singleton_append]

theorem blocks?_flatMap (h : ∀ b ∈ blocks, b.Quotable) :
    blocks? .between ((blocks.flatMap TaskBlock.lines).map indent ++ ending) = some blocks := by
  induction blocks with
  | nil => rfl
  | cons b blocks ih =>
    obtain ⟨hb, h⟩ := List.forall_mem_cons.mp h
    have hlines : ((b :: blocks).flatMap TaskBlock.lines).map indent ++ ending =
        indent (opening (call "tasks.named" b.task)) ::
          (b.runsAfter.map (fun d => indent (indent d.line)) ++ indent closing ::
            ((blocks.flatMap TaskBlock.lines).map indent ++ ending)) := by
      simp [TaskBlock.lines, block]
    have hopen : ∀ rest, indent (opening (call "tasks.named" b.task)) :: rest ≠ ending := by
      intro rest heq
      exact absurd (List.cons.inj heq).1 (by simp [indent])
    rw [hlines, blocks?, if_neg (hopen _), task?_line hb.task.1, Option.bind_some,
      blocks?_inside fun d hd => (hb.runsAfter d hd).1, ih h]
    rfl

/-! ## Reading the text -/

/-- The program of the part that orders the tests. -/
def OrderBlock.program (b : OrderBlock) : OrderProgram where
  names :=
    .sorted (match b.dropped with
      | none => .projects
      | some dropped => .without .projects dropped)
  tasks := b.tasks

/-- The lines of the program after the first one. -/
def programLines (b : OrderBlock) : List Text :=
  source ++ (dropLines b.dropped ++ (sortLine ::
    (search ++ ((b.tasks.flatMap TaskBlock.lines).map indent ++ ending))))

theorem lines_orderBlock (b : OrderBlock) :
    b.lines = ("val sequentialTestProjects =" : Text) :: programLines b := by
  simp only [OrderBlock.lines, block, List.map_cons, List.append_assoc]
  rfl

/-- The program starts where its first line stands for the last time. -/
theorem firstLine_notMem_programLines (b : OrderBlock) :
    ("val sequentialTestProjects =" : Text) ∉ programLines b := by
  have hblank : ∀ line : Text, line.head? = some ' ' →
      ("val sequentialTestProjects =" : Text) ≠ line := by
    rintro line hline rfl
    exact absurd hline (by decide)
  have hdrop : ("val sequentialTestProjects =" : Text) ∉ dropLines b.dropped := by
    cases b.dropped with
    | none => exact List.not_mem_nil
    | some names =>
      intro h
      exact hblank _ rfl (List.mem_singleton.mp h)
  have htasks : ("val sequentialTestProjects =" : Text) ∉
      (b.tasks.flatMap TaskBlock.lines).map indent := by
    intro h
    obtain ⟨line, -, hline⟩ := List.mem_map.mp h
    exact hblank _ rfl hline.symm
  simp only [programLines, List.mem_append, List.mem_cons, not_or]
  exact ⟨by decide, hdrop, by decide, by decide, htasks, by decide⟩

theorem program?_programLines {b : OrderBlock}
    (hdropped : ∀ dropped, b.dropped = some dropped → ∀ t ∈ dropped, .char '"' ∉ t)
    (htasks : ∀ t ∈ b.tasks, t.Quotable) : program? (programLines b) = some b.program := by
  have hsteps : ∀ rest, steps .projects (dropLines b.dropped ++ (sortLine :: (search ++ rest))) =
      (b.program.names, search ++ rest) := by
    intro rest
    rw [OrderBlock.program]
    cases hb : b.dropped with
    | none => exact steps_sorted
    | some dropped => rw [steps_dropLines (hdropped dropped hb), steps_sorted]
  simp only [program?, programLines, isPrefixOf?_append, hsteps, blocks?_flatMap htasks,
    Option.bind_eq_bind, Option.bind_some]
  rfl

theorem quotable_tasks (h : Quotable conventions) :
    ∀ b ∈ (orderBlock conventions).tasks, b.Quotable := by
  intro b hb
  rcases List.mem_pair.mp hb with rfl | rfl
  · exact ⟨h.test, by simp [Dependency.task, h.test, h.hammer]⟩
  · exact ⟨h.hammer, by simp [Dependency.task, h.test, h.hammer]⟩

theorem quote_notMem_dropped (h : Quotable conventions)
    (hdropped : (orderBlock conventions).dropped = some dropped) : ∀ t ∈ dropped, .char '"' ∉ t := by
  unfold orderBlock at hdropped
  split at hdropped
  · cases hdropped
  · obtain rfl := Option.some.inj hdropped
    exact fun t ht => (h.excluded t (mem_sortDistinct.mp ht)).1

/-- Whatever the plugin says before it, its program is read from its text. -/
theorem read?_text_conventions (h : Quotable conventions) :
    read? (text conventions) = some (orderBlock conventions).program := by
  obtain ⟨front, hne, hlines⟩ : ∃ front, front ≠ [] ∧
      lines conventions = front ++ (orderBlock conventions).lines :=
    ⟨_, by simp, List.append_cons ..⟩
  have hunbroken : Unbroken (orderBlock conventions).lines :=
    unbroken_orderLines h.test.2 h.hammer.2 fun name hname => (h.excluded name hname).2
  have hprogram : (orderBlock conventions).lines ≠ [] := by
    rw [lines_orderBlock]
    exact List.cons_ne_nil _ _
  have hsplit : Text.split (· == '\n') (text conventions) =
      Text.split (· == '\n') (Text.ofLines front) ++ (orderBlock conventions).lines := by
    have hjoin : Text.ofLines (front ++ (orderBlock conventions).lines) =
        Text.ofLines front ++ .char '\n' :: Text.ofLines (orderBlock conventions).lines :=
      Text.join_append hne hprogram
    rw [text, hlines, hjoin, Text.split_append_cons (by simp), split_ofLines hprogram hunbroken]
  rw [read?, hsplit, lines_orderBlock, afterLastLine_append_cons (firstLine_notMem_programLines _),
    program?_programLines (fun _ => quote_notMem_dropped h) (quotable_tasks h)]

/-! ## What the program declares -/

theorem mem_eval_program :
    t ∈ (orderBlock conventions).program.names.eval names ↔
      t ∈ ordered names conventions.excluded := by
  rw [mem_ordered]
  by_cases h : conventions.excluded = []
  · simp [OrderBlock.program, orderBlock, NameList.eval, h]
  · simp [OrderBlock.program, orderBlock, NameList.eval, h]

theorem ascending_eval_sorted (list : NameList) : Ascending (list.sorted.eval names) := by
  have h : ((list.eval names).mergeSort fun t u => !decide (u < t)).Pairwise
      fun t u => (!decide (u < t)) = true := by
    apply List.pairwise_mergeSort
    · intro t u v htu huv
      simp only [Bool.not_eq_true', decide_eq_false_iff_not] at htu huv ⊢
      intro hvt
      by_cases heq : v = u
      · exact htu (heq ▸ hvt)
      · exact htu (List.lt_trans (lt_of_not_lt huv heq) hvt)
    · intro t u
      by_cases hlt : u < t
      · simp [hlt, List.lt_asymm hlt]
      · simp [hlt]
  simpa [Ascending, NameList.eval] using h

theorem indexOf_eq_of_some {n : Nat} (h : position? order active = some n) :
    indexOf order active = n := by
  unfold position? at h
  rw [indexOf, h]

theorem indexOf_eq_of_none (h : position? order active = none) : indexOf order active = -1 := by
  unfold position? at h
  rw [indexOf, h]

/-- The program finds the predecessor of the project in its list of names. -/
theorem run_eq (program : OrderProgram) :
    program.run names active =
      match predecessorIn? (program.names.eval names) active with
      | some predecessor => some (program.tasks.map (TaskBlock.constraint predecessor active))
      | none => some [] := by
  unfold OrderProgram.run predecessorIn?
  generalize program.names.eval names = order
  cases hp : position? order active with
  | none => simp [indexOf_eq_of_none hp]
  | some index =>
    simp only [indexOf_eq_of_some hp]
    cases index with
    | zero => rfl
    | succ index =>
      obtain ⟨hmem, hindex⟩ := position?_eq_some_iff.mp hp
      have hlt : index < order.length := by
        have := List.idxOf_lt_length_of_mem hmem
        omega
      simp [List.getElem?_eq_getElem hlt]

theorem run_program (conventions : Conventions) (names : List Text) (active : Text) :
    (orderBlock conventions).program.run names active =
      some (constraints names conventions.excluded (fun _ => none) conventions.tasks active) := by
  have hpredecessor : predecessorIn? ((orderBlock conventions).program.names.eval names) active =
      predecessorIn? (ordered names conventions.excluded) active := by
    apply predecessorIn?_congr
    · exact ascending_eval_sorted _
    · exact (pairwise_ordered names conventions.excluded).imp List.lt_asymm
    · intro t
      exact mem_eval_program
  rw [run_eq, hpredecessor]
  unfold constraints constraintsIn
  cases predecessorIn? (ordered names conventions.excluded) active <;> rfl

/-- The text of the plugin holds a program that declares, for any projects, the constraints of the
project it is applied to. The names that it shows have to be such that a literal can show them. -/
theorem declared?_text (h : Quotable conventions) (names : List Text) (active : Text) :
    declared? (text conventions) names active =
      some (constraints names conventions.excluded (fun _ => none) conventions.tasks active) := by
  rw [declared?, read?_text_conventions h, Option.bind_some, run_program]

/-- Conventions with two exclusions, one of them given twice. A line of the group looks like the
first line of the program. -/
def confusing : Conventions :=
  { Conventions.default with
    group := "a\nval sequentialTestProjects =\n", excluded := ["lib", "docs", "lib"] }

theorem declared?_confusing :
    Quotable confusing ∧
    declared? (text confusing) ["web", "app", "lib", "app", "web"] "web" =
      some [⟨":web:test", [":app:test", ":app:hammerTest"]⟩,
        ⟨":web:hammerTest", [":web:test", ":app:hammerTest"]⟩] := by
  have h : Quotable confusing := ⟨by decide, by decide, by decide⟩
  refine ⟨h, ?_⟩
  rw [declared?_text h]
  decide

end BuildChain.Script.Plugin
