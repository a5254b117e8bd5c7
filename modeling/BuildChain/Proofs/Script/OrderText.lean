import BuildChain.Proofs.Text.Split
import BuildChain.Script.Order

/-! # Whose script it is

The scripts of two projects of a build have different texts. A script shows the name of its
project in front of its first colon, and what else stands there depends on the project only in
that it has a predecessor or not.
-/

namespace BuildChain

namespace TestOrder

variable (paths : Text → Option Text) (name task : Text)

theorem exists_taskPath : ∃ above, taskPath paths name task = above ++ .char ':' :: task := by
  unfold taskPath
  cases paths name with
  | none => exact ⟨':' :: name, by simp [ProjectPath.flatTask]⟩
  | some path => exact ⟨ProjectPath.normalize path, by simp [ProjectPath.task]⟩

theorem exists_cons_taskPath : ∃ rest, taskPath paths name task = .char ':' :: rest := by
  unfold taskPath
  cases paths name with
  | none => exact ⟨name ++ .char ':' :: task, by simp [ProjectPath.flatTask]⟩
  | some path =>
    exact ⟨Text.join ":" (ProjectPath.segments path) ++ .char ':' :: task, by
      simp [ProjectPath.task, ProjectPath.normalize, ProjectPath.ofSegments]⟩

end TestOrder

namespace Script.Order

open TestOrder

/-- What a script starts with. -/
def header : Text :=
  "// Sequential test order for project '"

/-- What stands between the name of the project and the first colon. -/
def lead (tasks : TestTasks) (constrained : Bool) : Text :=
  if constrained then
    "'\n\n" ++ opening (call "tasks.named" (Text.afterLast ':' tasks.test)) ++
      "\n    mustRunAfter(\""
  else
    "'\n// No predecessor"

variable {names excluded : List Text} {paths : Text → Option Text} {tasks : TestTasks}
  {p q : Text}

theorem colon_notMem_opening_call {function argument : Text} (hf : .char ':' ∉ function)
    (ha : .char ':' ∉ argument) : .char ':' ∉ opening (call function argument) := by
  have hopen : .char ':' ∉ ("(" : Text) := by decide
  have hquote : .char ':' ∉ ("\"" : Text) := by decide
  have hclose : .char ':' ∉ (")" : Text) := by decide
  have hbrace : .char ':' ∉ (" \x7b" : Text) := by decide
  simp only [opening, call, literal, List.mem_append, not_or]
  exact ⟨⟨⟨⟨hf, hopen⟩, ⟨hquote, ha⟩, hquote⟩, hclose⟩, hbrace⟩

theorem colon_notMem_lead (tasks : TestTasks) (constrained : Bool) :
    .char ':' ∉ lead tasks constrained := by
  cases constrained with
  | false =>
    rw [lead, if_neg Bool.false_ne_true]
    decide
  | true =>
    have hfront : .char ':' ∉ ("'\n\n" : Text) := by decide
    have hcall : .char ':' ∉ opening (call "tasks.named" (Text.afterLast (.char ':') tasks.test)) :=
      colon_notMem_opening_call (by decide) (Text.notMem_afterLast _)
    have hback : .char ':' ∉ ("\n    mustRunAfter(\"" : Text) := by decide
    rw [lead, if_pos rfl, List.mem_append, List.mem_append]
    rintro ((h | h) | h) <;> contradiction

theorem getLast?_lead (tasks : TestTasks) (constrained : Bool) :
    (lead tasks constrained).getLast? = some (if constrained then .char '"' else .char 'r') := by
  cases constrained with
  | false => rfl
  | true =>
    have hback : ("\n    mustRunAfter(\"" : Text).getLast? = some (.char '"') := by decide
    rw [lead, if_pos rfl, List.getLast?_append, hback]
    rfl

theorem ofLines_cons (line : Text) (rest : List Text) :
    Text.ofLines (line :: rest) = line ++ rest.flatMap (.char '\n' :: ·) :=
  Text.join_cons line rest

/-- The first colon of a script with constraints is that of the first task that is waited for. -/
theorem exists_text_cons (name task x : Text) (more : List Text) (constraints : List Constraint) :
    ∃ rest, text name (⟨task, (.char ':' :: x) :: more⟩ :: constraints) =
      header ++ name ++
        ("'\n\n" ++ opening (call "tasks.named" (Text.afterLast (.char ':') task)) ++
          "\n    mustRunAfter(\"") ++ CodePoint.char ':' :: rest := by
  have hlines : ∃ further, lines name (⟨task, (.char ':' :: x) :: more⟩ :: constraints) =
      (header ++ name ++ "'") :: [] ::
        opening (call "tasks.named" (Text.afterLast (.char ':') task)) ::
        indent (call "mustRunAfter" (.char ':' :: x)) :: further := ⟨_, rfl⟩
  obtain ⟨further, hfurther⟩ := hlines
  have hcall : indent (call "mustRunAfter" (.char ':' :: x)) =
      "    mustRunAfter(\"" ++ CodePoint.char ':' :: (x ++ "\"" ++ ")") := rfl
  refine ⟨x ++ "\"" ++ ")" ++ further.flatMap (.char '\n' :: ·), ?_⟩
  rw [text, hfurther, ofLines_cons, List.flatMap_cons, List.flatMap_cons, List.flatMap_cons, hcall]
  simp only [List.append_assoc, List.cons_append, List.nil_append]
  rfl

/-- The name of the project is the first thing that varies in its script. -/
theorem exists_text_eq (names excluded : List Text) (paths : Text → Option Text)
    (tasks : TestTasks) (p : Text) :
    ∃ constrained rest, text p (constraints names excluded paths tasks p) =
      header ++ p ++ lead tasks constrained ++ .char ':' :: rest := by
  unfold constraints constraintsIn
  cases predecessorIn? (ordered names excluded) p with
  | none =>
    refine ⟨false, " tests of this project are not constrained\n", ?_⟩
    rw [text, lines, ofLines_cons]
    simp only [List.append_assoc]
    rfl
  | some q =>
    obtain ⟨above, habove⟩ := exists_taskPath paths p tasks.test
    obtain ⟨x, hx⟩ := exists_cons_taskPath paths q tasks.test
    simp only [constraintsAfter, habove, hx]
    obtain ⟨rest, hrest⟩ := exists_text_cons p (above ++ .char ':' :: tasks.test) x
      [taskPath paths q tasks.hammer] [⟨taskPath paths p tasks.hammer,
        [above ++ .char ':' :: tasks.test, taskPath paths q tasks.hammer]⟩]
    rw [Text.afterLast_cons] at hrest
    exact ⟨true, rest, hrest⟩

/-- The names of two projects can be told from their scripts. -/
theorem name_of_text_eq (hp : .char ':' ∉ p) (hq : .char ':' ∉ q)
    (h : text p (constraints names excluded paths tasks p) =
      text q (constraints names excluded paths tasks q)) : p = q := by
  obtain ⟨constrained, rest, hpe⟩ := exists_text_eq names excluded paths tasks p
  obtain ⟨constrained', rest', hqe⟩ := exists_text_eq names excluded paths tasks q
  have hfront : ∀ {name : Text} {constrained : Bool}, .char ':' ∉ name →
      .char ':' ∉ header ++ name ++ lead tasks constrained := by
    intro name constrained hname hmem
    have hheader : .char ':' ∉ header := by decide
    rcases List.mem_append.mp hmem with hmem | hmem
    · rcases List.mem_append.mp hmem with hmem | hmem <;> contradiction
    · exact colon_notMem_lead tasks constrained hmem
  rw [hpe, hqe, Text.append_cons_inj (hfront hp) (hfront hq)] at h
  obtain ⟨hfronts, -⟩ := h
  -- One of the projects may be the first of all: then the texts in front of the colon end apart.
  obtain rfl : constrained = constrained' := by
    have hlast := congrArg List.getLast? hfronts
    simp only [List.getLast?_append, getLast?_lead, Option.some_or] at hlast
    cases constrained <;> cases constrained' <;> simp at hlast ⊢
  exact List.append_cancel_left (List.append_cancel_right hfronts)

end Script.Order

end BuildChain
