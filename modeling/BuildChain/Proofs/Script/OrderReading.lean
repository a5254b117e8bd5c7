import BuildChain.Proofs.Script.OrderText
import BuildChain.Proofs.Script.Section
import BuildChain.Proofs.TestOrder.Predecessor

/-! # Reading a test order script

A test order script is read back line by line. The name of the project may have several lines: it
ends with the last line that ends in an apostrophe, for no line of a block does. What is read are
the constraints, but for the project of the task that each of them is about.
-/

namespace BuildChain.Script

namespace Order

/-- What a block of a script declares: a task of the project, and the tasks that it waits for. -/
abbrev Block := Text × List Text

/-- The block of a constraint leaves out the project of the task. -/
def shown (constraint : Constraint) : Block :=
  (Text.afterLast ':' constraint.task, constraint.runsAfter)

def blockLines (b : Block) : List Text :=
  block (call "tasks.named" b.1) (b.2.map (call "mustRunAfter")) ++ [[]]

/-- What a script without blocks says. -/
def unconstrained : Text :=
  "// No predecessor: tests of this project are not constrained"

def bodyLines (blocks : List Block) : List Text :=
  if blocks = [] then [unconstrained, []] else [] :: blocks.flatMap blockLines

def title (name : Text) : Text :=
  header ++ name ++ [CodePoint.char '\'']

/-! ## The reader -/

def task? : (line : Text) → Option Text :=
  quoted? "tasks.named(" ") \x7b"

def wait? : (line : Text) → Option Text :=
  quoted? "    mustRunAfter(" ")"

/-- Where in a script a line stands. -/
inductive Place
  | between
  /-- In a block whose opening line and waits so far have been read. -/
  | inside (task : Text) (waits : List Text)
  /-- Behind the closing line of a block. -/
  | behind (b : Block)

/-- The blocks that lines complete. -/
def blocks? : Place → List Text → Option (List Block)
  | .between, [] => some []
  | .between, line :: lines => (task? line).bind fun task => blocks? (.inside task []) lines
  | .inside task waits, line :: lines =>
    if line = closing then blocks? (.behind (task, waits)) lines
    else (wait? line).bind fun wait => blocks? (.inside task (waits ++ [wait])) lines
  | .behind b, [] :: lines => (blocks? .between lines).map (b :: ·)
  | _, _ => none

def body? (lines : List Text) : Option (List Block) :=
  if lines = [unconstrained, []] then some []
  else
    match lines with
    | [] :: line :: lines => blocks? .between (line :: lines)
    | _ => none

/-- Parts the lines after the last one that ends in an apostrophe. -/
def cutTitle : List Text → Option (List Text × List Text)
  | [] => none
  | line :: lines =>
    match cutTitle lines with
    | some (front, back) => some (line :: front, back)
    | none => if line.getLast? = some '\'' then some ([line], lines) else none

def name? (title : Text) : Option Text :=
  (Text.after? header title).bind fun t =>
    if t.getLast? = some '\'' then some t.dropLast else none

/-- The name of the project and the blocks of its script. -/
def read? (t : Text) : Option (Text × List Block) := do
  let (titleLines, rest) ← cutTitle (Text.split (· == '\n') t)
  let name ← name? (Text.ofLines titleLines)
  let blocks ← body? rest
  return (name, blocks)

variable {line name t : Text} {ls : List Text} {b : Block} {blocks : List Block}

/-! ## Single lines -/

theorem task?_eq_some_iff :
    task? line = some t ↔ line = opening (call "tasks.named" t) ∧ .char '"' ∉ t := by
  have hline : opening (call "tasks.named" t) =
      ("tasks.named(" : Text) ++ literal t ++ (") \x7b" : Text) := by
    simp [opening, call]
  rw [task?, quoted?_eq_some_iff (by decide) (by decide), hline]

theorem wait?_eq_some_iff :
    wait? line = some t ↔ line = indent (call "mustRunAfter" t) ∧ .char '"' ∉ t := by
  have hline : indent (call "mustRunAfter" t) =
      ("    mustRunAfter(" : Text) ++ literal t ++ (")" : Text) := by
    simp [indent, call]
  rw [wait?, quoted?_eq_some_iff (by decide) (by decide), hline]

theorem indent_ne_closing (t : Text) : indent t ≠ closing := by
  intro h
  have hchar : CodePoint.char ' ' = CodePoint.char '\x7d' := (List.cons.inj h).1
  exact absurd hchar (by decide)

/-! ## Blocks -/

/-- The texts of a block can stand in literals. -/
def Block.Quotable (b : Block) : Prop :=
  Script.Quotable b.1 ∧ ∀ t ∈ b.2, Script.Quotable t

theorem blocks?_inside (task : Text) (seen waits : List Text) (rest : List Text)
    (h : ∀ t ∈ waits, .char '"' ∉ t) :
    blocks? (.inside task seen) ((waits.map (call "mustRunAfter")).map indent ++
        closing :: [] :: rest) =
      (blocks? .between rest).map ((task, seen ++ waits) :: ·) := by
  induction waits generalizing seen with
  | nil => simp [blocks?]
  | cons wait waits ih =>
    obtain ⟨hwait, h⟩ := List.forall_mem_cons.mp h
    rw [List.map_cons, List.map_cons, List.cons_append, blocks?, if_neg (indent_ne_closing _),
      wait?_eq_some_iff.mpr ⟨rfl, hwait⟩, Option.bind_some, ih _ h]
    simp

theorem flatMap_blockLines_cons (task : Text) (waits : List Text) (blocks : List Block) :
    ((task, waits) :: blocks).flatMap blockLines =
      opening (call "tasks.named" task) :: ((waits.map (call "mustRunAfter")).map indent ++
        closing :: [] :: blocks.flatMap blockLines) := by
  simp [blockLines, block]

theorem blocks?_flatMap (h : ∀ b ∈ blocks, b.Quotable) :
    blocks? .between (blocks.flatMap blockLines) = some blocks := by
  induction blocks with
  | nil => rfl
  | cons b blocks ih =>
    obtain ⟨⟨htask, hwaits⟩, h⟩ := List.forall_mem_cons.mp h
    rw [flatMap_blockLines_cons, blocks?, task?_eq_some_iff.mpr ⟨rfl, htask.1⟩, Option.bind_some,
      blocks?_inside _ _ _ _ fun t ht => (hwaits t ht).1, ih h]
    rfl

/-- The lines that are left to read from a place on. -/
def Place.Left (blocks : List Block) (ls : List Text) : Place → Prop
  | .between => ls = blocks.flatMap blockLines
  | .inside task seen => ∃ waits later, blocks = (task, seen ++ waits) :: later ∧
      ls = (waits.map (call "mustRunAfter")).map indent ++
        closing :: [] :: later.flatMap blockLines
  | .behind b => ∃ later, blocks = b :: later ∧ ls = [] :: later.flatMap blockLines

/-- What is read as blocks is nothing but blocks. -/
theorem left_of_blocks?_eq_some {place : Place} (h : blocks? place ls = some blocks) :
    place.Left blocks ls := by
  fun_induction blocks? place ls generalizing blocks with
  | case1 =>
    obtain rfl := Option.some.inj h
    rfl
  | case2 line lines ih =>
    obtain ⟨task, htask, h⟩ := Option.bind_eq_some_iff.mp h
    obtain ⟨waits, later, rfl, rfl⟩ := ih task h
    rw [(task?_eq_some_iff.mp htask).1]
    exact (flatMap_blockLines_cons task waits later).symm
  | case3 task waits lines ih =>
    obtain ⟨later, rfl, rfl⟩ := ih h
    exact ⟨[], later, by simp, rfl⟩
  | case4 task seen line lines hne ih =>
    obtain ⟨wait, hwait, h⟩ := Option.bind_eq_some_iff.mp h
    obtain ⟨waits, later, rfl, rfl⟩ := ih wait h
    rw [(wait?_eq_some_iff.mp hwait).1]
    exact ⟨wait :: waits, later, by simp, rfl⟩
  | case5 b lines ih =>
    obtain ⟨later, hlater, rfl⟩ := Option.map_eq_some_iff.mp h
    exact ⟨later, rfl, congrArg ([] :: ·) (ih hlater)⟩
  | case6 => cases h

theorem body?_bodyLines (h : ∀ b ∈ blocks, b.Quotable) : body? (bodyLines blocks) = some blocks := by
  cases blocks with
  | nil => rfl
  | cons b blocks =>
    have hread := blocks?_flatMap h
    rw [bodyLines, if_neg (by simp), flatMap_blockLines_cons] at *
    have hne : [] :: opening (call "tasks.named" b.1) ::
        ((b.2.map (call "mustRunAfter")).map indent ++
          closing :: [] :: blocks.flatMap blockLines) ≠ [unconstrained, []] := by
      intro hlines
      exact absurd (List.cons.inj hlines).1 (by decide)
    rw [body?, if_neg hne]
    exact hread

theorem eq_bodyLines_of_body? (h : body? ls = some blocks) : ls = bodyLines blocks := by
  unfold body? at h
  split at h
  · next hls =>
    obtain rfl := Option.some.inj h
    exact hls
  · split at h
    · next line lines _ =>
      have hleft : line :: lines = blocks.flatMap blockLines := left_of_blocks?_eq_some h
      have hne : blocks ≠ [] := by
        rintro rfl
        cases hleft
      rw [bodyLines, if_neg hne, hleft]
    · cases h

/-! ## The title -/

theorem name?_title (name : Text) : name? (title name) = some name := by
  have hlast : (name ++ [CodePoint.char '\'']).getLast? = some '\'' := List.getLast?_concat
  rw [name?, title, List.append_assoc, Text.after?_append, Option.bind_some, if_pos hlast,
    List.dropLast_concat]

theorem eq_title_of_name? (h : name? t = some name) : t = title name := by
  obtain ⟨u, hu, h⟩ := Option.bind_eq_some_iff.mp h
  split at h
  · next hlast =>
    obtain rfl := Option.some.inj h
    rw [Text.eq_append_of_after? hu, title, List.append_assoc, List.dropLast_append_getLast? _ hlast]
  · cases h

theorem cutTitle_of_forall (h : ∀ line ∈ ls, line.getLast? ≠ some '\'') : cutTitle ls = none := by
  induction ls with
  | nil => rfl
  | cons line ls ih =>
    obtain ⟨hline, h⟩ := List.forall_mem_cons.mp h
    rw [cutTitle, ih h]
    exact if_neg hline

theorem cutTitle_append {front : List Text} (hline : line.getLast? = some '\'')
    (h : ∀ line ∈ ls, line.getLast? ≠ some '\'') :
    cutTitle (front ++ line :: ls) = some (front ++ [line], ls) := by
  induction front with
  | nil =>
    rw [List.nil_append, cutTitle, cutTitle_of_forall h]
    exact if_pos hline
  | cons first front ih =>
    rw [List.cons_append, cutTitle, ih]
    rfl

theorem eq_append_of_cutTitle {front back : List Text} (h : cutTitle ls = some (front, back)) :
    ls = front ++ back ∧ front ≠ [] := by
  fun_induction cutTitle ls generalizing front back with
  | case1 => cases h
  | case2 line lines front' back' hcut ih =>
    obtain ⟨rfl, rfl⟩ := Prod.mk.inj (Option.some.inj h)
    rw [(ih hcut).1]
    exact ⟨rfl, List.cons_ne_nil _ _⟩
  | case3 line lines _ _ ih =>
    obtain ⟨rfl, rfl⟩ := Prod.mk.inj (Option.some.inj h)
    exact ⟨rfl, List.cons_ne_nil _ _⟩
  | case4 => cases h

/-! ## Scripts -/

theorem lines_eq_title_cons (name : Text) (constraints : List Constraint) :
    lines name constraints = title name :: bodyLines (constraints.map shown) := by
  cases constraints with
  | nil => rfl
  | cons constraint constraints =>
    rw [bodyLines, if_neg (by simp), List.flatMap_map]
    rfl

theorem bodyLines_ne_nil (blocks : List Block) : bodyLines blocks ≠ [] := by
  unfold bodyLines
  split <;> simp

theorem text_eq_title_append (name : Text) (constraints : List Constraint) :
    text name constraints =
      title name ++ .char '\n' :: Text.ofLines (bodyLines (constraints.map shown)) := by
  obtain ⟨line, rest, hbody⟩ := List.exists_cons_of_ne_nil (bodyLines_ne_nil (constraints.map shown))
  rw [text, lines_eq_title_cons, hbody, ofLines_cons, ofLines_cons]
  rfl

theorem unbroken_bodyLines (h : ∀ b ∈ blocks, b.Quotable) : Unbroken (bodyLines blocks) := by
  unfold bodyLines
  split
  · decide
  · rw [unbroken_cons, unbroken_flatMap]
    refine ⟨by simp, fun b hb => ?_⟩
    obtain ⟨htask, hwaits⟩ := h b hb
    rw [blockLines, unbroken_append, unbroken_block, newline_mem_call]
    refine ⟨⟨by simpa using htask.2, ?_⟩, by simp⟩
    intro line hline
    obtain ⟨t, ht, rfl⟩ := List.mem_map.mp hline
    simpa using (hwaits t ht).2

/-- No line behind the title ends as the title does. -/
theorem getLast?_of_mem_bodyLines (h : line ∈ bodyLines blocks) : line.getLast? ≠ some '\'' := by
  unfold bodyLines at h
  split at h
  · rcases List.mem_pair.mp h with rfl | rfl <;> decide
  · rcases List.mem_cons.mp h with rfl | h
    · decide
    · obtain ⟨b, -, h⟩ := List.mem_flatMap.mp h
      simp only [blockLines, block, List.mem_append, List.mem_cons, List.mem_map,
        List.not_mem_nil, or_false] at h
      rcases h with ((rfl | ⟨_, ⟨t, -, rfl⟩, rfl⟩) | rfl) | rfl
      · simp [opening]
      · have hclose : (")" : Text).getLast? = some ')' := rfl
        rw [indent, call, ← List.append_assoc, List.getLast?_append, hclose]
        simp
      · decide
      · decide

/-- A block shows a constraint without any character that the constraint does not hold. -/
theorem quotable_shown {constraint : Constraint}
    (h : ∀ t ∈ constraint.task :: constraint.runsAfter, Quotable t) :
    (shown constraint).Quotable := by
  obtain ⟨⟨hquote, hnewline⟩, hwaits⟩ := List.forall_mem_cons.mp h
  exact ⟨⟨fun hmem => hquote (Text.mem_of_mem_afterLast hmem),
    fun hmem => hnewline (Text.mem_of_mem_afterLast hmem)⟩, hwaits⟩

/-- The project and the blocks are read back from a script. -/
theorem read?_text_of_quotable {constraints : List Constraint} (name : Text)
    (h : ∀ constraint ∈ constraints, ∀ t ∈ constraint.task :: constraint.runsAfter, Quotable t) :
    read? (text name constraints) = some (name, constraints.map shown) := by
  have hblocks : ∀ b ∈ constraints.map shown, b.Quotable := by
    intro b hb
    obtain ⟨constraint, hconstraint, rfl⟩ := List.mem_map.mp hb
    exact quotable_shown (h constraint hconstraint)
  obtain ⟨front, last, hfront⟩ := Text.exists_split_concat (c := '\n') (d := '\'') (by decide)
    (header ++ name)
  have hsplit : Text.split (· == '\n') (text name constraints) =
      front ++ (last ++ [CodePoint.char '\'']) :: bodyLines (constraints.map shown) := by
    rw [text_eq_title_append, Text.split_append_cons (by simp), title, hfront,
      split_ofLines (bodyLines_ne_nil _) (unbroken_bodyLines hblocks)]
    simp
  have htitle : Text.ofLines (front ++ [last ++ [CodePoint.char '\'']]) = title name := by
    rw [← hfront]
    exact Text.join_split _
  rw [read?, hsplit, cutTitle_append List.getLast?_concat fun _ => getLast?_of_mem_bodyLines]
  simp only [Option.bind_eq_bind, Option.bind_some, htitle, name?_title, body?_bodyLines hblocks]
  rfl

/-- Nothing but the script is read as it. -/
theorem eq_text_of_read? {constraints : List Constraint}
    (h : read? t = some (name, constraints.map shown)) : t = text name constraints := by
  obtain ⟨⟨front, back⟩, hcut, h⟩ := Option.bind_eq_some_iff.mp h
  obtain ⟨name', hname, h⟩ := Option.bind_eq_some_iff.mp h
  obtain ⟨blocks, hbody, h⟩ := Option.bind_eq_some_iff.mp h
  obtain ⟨rfl, rfl⟩ := Prod.mk.inj (Option.some.inj h)
  obtain ⟨hsplit, hne⟩ := eq_append_of_cutTitle hcut
  obtain rfl := eq_bodyLines_of_body? hbody
  calc t = Text.ofLines (Text.split (· == '\n') t) := (Text.join_split t).symm
    _ = Text.ofLines front ++ .char '\n' :: Text.ofLines (bodyLines (constraints.map shown)) := by
      rw [hsplit]
      exact Text.join_append hne (bodyLines_ne_nil _)
    _ = text name' constraints := by rw [eq_title_of_name? hname, ← text_eq_title_append]

/-! ## The scripts of an order -/

/-- The blocks of a project with a predecessor, one for each of its two test tasks. -/
def blocksAfter (path : (name task : Text) → Text) (tasks : TestTasks)
    (predecessor active : Text) : List Block := [
  (tasks.test, [path predecessor tasks.test, path predecessor tasks.hammer]),
  (tasks.hammer, [path active tasks.test, path predecessor tasks.hammer])]

theorem map_shown_constraints {tasks : TestTasks} (htest : .char ':' ∉ tasks.test)
    (hhammer : .char ':' ∉ tasks.hammer) (names excluded : List Text) (paths : Text → Option Text)
    (active : Text) :
    (TestOrder.constraints names excluded paths tasks active).map shown =
      match TestOrder.predecessor? names excluded active with
      | some predecessor => blocksAfter (TestOrder.taskPath paths) tasks predecessor active
      | none => [] := by
  have htask : ∀ {task : Text}, .char ':' ∉ task →
      Text.afterLast ':' (TestOrder.taskPath paths active task) = task := by
    intro task ht
    obtain ⟨above, habove⟩ := TestOrder.exists_taskPath paths active task
    rw [habove, Text.afterLast_append_cons ht]
  rw [TestOrder.constraints_eq]
  cases TestOrder.predecessor? names excluded active with
  | none => rfl
  | some predecessor =>
    simp [TestOrder.constraintsAfter, blocksAfter, shown, htask htest, htask hhammer]

/-- A script says the name of its project and the constraints, in order, and no other text is read
as saying this. So scripts are the same if and only if they say the same. The script of a project
with a predecessor says of either of its test tasks, in one block each, which two tasks it waits
for; those of other projects have no blocks. -/
theorem read?_text (name : Text) (constraints : List Constraint)
    (h : ∀ constraint ∈ constraints, ∀ t ∈ constraint.task :: constraint.runsAfter, Quotable t) :
    read? (text name constraints) = some (name, constraints.map shown) ∧
    (∀ t, read? t = some (name, constraints.map shown) → t = text name constraints) ∧
    (∀ (name' : Text) (constraints' : List Constraint),
      (∀ constraint ∈ constraints', ∀ t ∈ constraint.task :: constraint.runsAfter, Quotable t) →
      (text name constraints = text name' constraints' ↔
        name = name' ∧ constraints.map shown = constraints'.map shown)) ∧
    ∀ (names excluded : List Text) (paths : Text → Option Text) (tasks : TestTasks)
      (active : Text), .char ':' ∉ tasks.test → .char ':' ∉ tasks.hammer →
      constraints = TestOrder.constraints names excluded paths tasks active →
      read? (text name constraints) = some (name,
        match TestOrder.predecessor? names excluded active with
        | some predecessor => blocksAfter (TestOrder.taskPath paths) tasks predecessor active
        | none => []) := by
  have hread := read?_text_of_quotable name h
  refine ⟨hread, fun _ => eq_text_of_read?, ?_, ?_⟩
  · intro name' constraints' h'
    have hread' := read?_text_of_quotable name' h'
    constructor
    · intro htext
      rw [← htext, hread] at hread'
      exact Prod.mk.inj (Option.some.inj hread')
    · rintro ⟨rfl, hshown⟩
      rw [← hshown] at hread'
      exact (eq_text_of_read? hread').symm
  · rintro names excluded paths tasks active htest hhammer rfl
    rw [hread, map_shown_constraints htest hhammer]

/-- The name of the project has two lines, and one of its tasks a path of its own. -/
theorem read?_text_nested :
    let paths : Text → Option Text := fun name => if name = "core" then some "libs:core" else none
    let constraints := TestOrder.constraints ["core", "app", "docs"] ["docs"] paths
      ⟨"test", "hammerTest"⟩ "core"
    (∀ constraint ∈ constraints, ∀ t ∈ constraint.task :: constraint.runsAfter, Quotable t) ∧
    read? (text "it's\n'core'" constraints) = some (("it's\n'core'" : Text),
      ([("test", [":app:test", ":app:hammerTest"]),
        ("hammerTest", [":libs:core:test", ":app:hammerTest"])] : List Block)) := by
  intro paths constraints
  have hquotable : ∀ constraint ∈ constraints,
      ∀ t ∈ constraint.task :: constraint.runsAfter, Quotable t := by
    decide
  obtain ⟨-, -, -, hblocks⟩ := read?_text "it's\n'core'" constraints hquotable
  refine ⟨hquotable, ?_⟩
  rw [hblocks ["core", "app", "docs"] ["docs"] paths ⟨"test", "hammerTest"⟩ "core" (by decide)
    (by decide) rfl]
  decide

end Order

end BuildChain.Script
