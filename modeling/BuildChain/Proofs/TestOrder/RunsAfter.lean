import Mathlib.Logic.Relation
import BuildChain.Proofs.ProjectPath
import BuildChain.Proofs.TestOrder.Predecessor

/-! # The order of the test tasks

Each project waits for its predecessor alone. Along the chain every test task comes after all test
tasks of all earlier projects, and nothing else is related. No task waits for itself as long as
the two tasks of a project have different names.
-/

namespace BuildChain

/-- Some constraint makes the first task wait for the second. -/
def RunsAfter (constraints : List Constraint) (x y : Text) : Prop :=
  ∃ c ∈ constraints, c.task = x ∧ y ∈ c.runsAfter

instance (constraints : List Constraint) (x y : Text) : Decidable (RunsAfter constraints x y) :=
  inferInstanceAs (Decidable (∃ c ∈ constraints, c.task = x ∧ y ∈ c.runsAfter))

/-- The names of the two tasks. -/
def TestTasks.both (tasks : TestTasks) : List Text :=
  [tasks.test, tasks.hammer]

@[simp] theorem TestTasks.mem_both {tasks : TestTasks} {t : Text} :
    t ∈ tasks.both ↔ t = tasks.test ∨ t = tasks.hammer := by
  simp [both]

namespace TestOrder

/-- The constraints of all projects that take part, as those of projects right below the root. -/
def declared (names excluded : List Text) (tasks : TestTasks) : List Constraint :=
  (all names excluded tasks).flatMap Prod.snd

/-- The constraints of some projects of an order. -/
def chain (order : List Text) (path : (name task : Text) → Text) (tasks : TestTasks)
    (actives : List Text) : List Constraint :=
  actives.flatMap (constraintsIn order path tasks)

theorem declared_eq_chain (names excluded : List Text) (tasks : TestTasks) :
    declared names excluded tasks =
      chain (ordered names excluded) ProjectPath.flatTask tasks (ordered names excluded) := by
  simp [declared, chain, all, List.flatMap_map]

/-- Task `t` of project `p` has its turn after task `u` of project `q`. -/
def Follows (order : List Text) (tasks : TestTasks) (p t q u : Text) : Prop :=
  order.idxOf q < order.idxOf p ∨
    p = q ∧ order.head? ≠ some p ∧ t = tasks.hammer ∧ u = tasks.test

instance (order : List Text) (tasks : TestTasks) (p t q u : Text) :
    Decidable (Follows order tasks p t q u) :=
  inferInstanceAs (Decidable (_ ∨ _))

/-- The paths of two tasks of the members, the first of which has its turn after the second. -/
def Later (order : List Text) (path : (name task : Text) → Text) (tasks : TestTasks)
    (members : List Text) (x y : Text) : Prop :=
  ∃ p ∈ members, ∃ q ∈ members, ∃ t ∈ tasks.both, ∃ u ∈ tasks.both,
    x = path p t ∧ y = path q u ∧ Follows order tasks p t q u

/-- The paths of different tasks of the members are different. -/
def Separates (path : (name task : Text) → Text) (tasks : TestTasks) (members : List Text) :
    Prop :=
  ∀ p ∈ members, ∀ q ∈ members, ∀ t ∈ tasks.both, ∀ u ∈ tasks.both,
    path p t = path q u → p = q ∧ t = u

/-- The members hold some projects together with their predecessors. -/
def Covers (order members actives : List Text) : Prop :=
  ∀ p ∈ actives, p ∈ members ∧ ∀ q, predecessorIn? order p = some q → q ∈ members

variable {order members actives : List Text} {path : (name task : Text) → Text}
  {tasks : TestTasks} {x y p q r t u v : Text}

/-- The four pairs of tasks that one project declares. -/
theorem runsAfter_chain_iff :
    RunsAfter (chain order path tasks actives) x y ↔
      ∃ p ∈ actives, ∃ q, predecessorIn? order p = some q ∧
        (x = path p tasks.test ∧ (y = path q tasks.test ∨ y = path q tasks.hammer) ∨
          x = path p tasks.hammer ∧ (y = path p tasks.test ∨ y = path q tasks.hammer)) := by
  have hone : ∀ p c, c ∈ constraintsIn order path tasks p ↔
      ∃ q, predecessorIn? order p = some q ∧ c ∈ constraintsAfter path tasks q p := by
    intro p c
    unfold constraintsIn
    cases predecessorIn? order p <;> simp
  simp only [RunsAfter, chain, List.mem_flatMap, hone]
  constructor
  · rintro ⟨c, ⟨p, hp, q, hq, hc⟩, rfl, hy⟩
    simp only [constraintsAfter, List.mem_cons, List.not_mem_nil, or_false] at hc
    refine ⟨p, hp, q, hq, ?_⟩
    rcases hc with rfl | rfl
    · exact Or.inl ⟨rfl, by simpa using hy⟩
    · exact Or.inr ⟨rfl, by simpa using hy⟩
  · rintro ⟨p, hp, q, hq, ⟨rfl, hy⟩ | ⟨rfl, hy⟩⟩
    · exact ⟨_, ⟨p, hp, q, hq, List.mem_cons_self⟩, rfl, by simpa using hy⟩
    · exact ⟨_, ⟨p, hp, q, hq, List.mem_cons_of_mem _ List.mem_cons_self⟩, rfl,
        by simpa using hy⟩

theorem Follows.trans (hne : tasks.test ≠ tasks.hammer) (h : Follows order tasks p t q u)
    (h' : Follows order tasks q u r v) : Follows order tasks p t r v := by
  rcases h with h | ⟨rfl, hp, ht, hu⟩
  · rcases h' with h' | ⟨rfl, _⟩
    · exact Or.inl (Nat.lt_trans h' h)
    · exact Or.inl h
  · rcases h' with h' | ⟨rfl, _, hu', _⟩
    · exact Or.inl h'
    · exact (hne (hu.symm.trans hu')).elim

theorem not_follows_self (hne : tasks.test ≠ tasks.hammer) : ¬ Follows order tasks p t p t := by
  rintro (h | ⟨_, _, ht, ht'⟩)
  · exact Nat.lt_irrefl _ h
  · exact hne (ht'.symm.trans ht)

/-- What a single constraint declares respects the order. -/
theorem later_of_runsAfter (hn : order.Nodup) (hc : Covers order members actives)
    (h : RunsAfter (chain order path tasks actives) x y) :
    Later order path tasks members x y := by
  obtain ⟨p, hp, q, hq, h⟩ := runsAfter_chain_iff.mp h
  obtain ⟨hpo, hqo, hlt⟩ := (predecessorIn?_eq_some_iff hn).mp hq
  have hearlier : ∀ t u, Follows order tasks p t q u := fun _ _ => Or.inl (by omega)
  have hp' := (hc p hp).1
  have hq' := (hc p hp).2 q hq
  rcases h with ⟨rfl, rfl | rfl⟩ | ⟨rfl, rfl | rfl⟩
  · exact ⟨p, hp', q, hq', _, by simp, _, by simp, rfl, rfl, hearlier _ _⟩
  · exact ⟨p, hp', q, hq', _, by simp, _, by simp, rfl, rfl, hearlier _ _⟩
  · have hfirst := (exists_predecessorIn?_iff hn hpo).mp ⟨q, hq⟩
    exact ⟨p, hp', p, hp', _, by simp, _, by simp, rfl, rfl, Or.inr ⟨rfl, hfirst, rfl, rfl⟩⟩
  · exact ⟨p, hp', q, hq', _, by simp, _, by simp, rfl, rfl, hearlier _ _⟩

theorem Later.trans (hne : tasks.test ≠ tasks.hammer) (hs : Separates path tasks members)
    {z : Text} (h : Later order path tasks members x y) (h' : Later order path tasks members y z) :
    Later order path tasks members x z := by
  obtain ⟨p, hp, q, hq, t, ht, u, hu, rfl, hy, h⟩ := h
  obtain ⟨q', hq', r, hr, u', hu', v, hv, hy', rfl, h'⟩ := h'
  obtain ⟨rfl, rfl⟩ := hs q hq q' hq' u hu u' hu' (hy.symm.trans hy')
  exact ⟨p, hp, r, hr, t, ht, v, hv, rfl, rfl, h.trans hne h'⟩

theorem later_of_transGen (hn : order.Nodup) (hc : Covers order members actives)
    (hne : tasks.test ≠ tasks.hammer) (hs : Separates path tasks members)
    (h : Relation.TransGen (RunsAfter (chain order path tasks actives)) x y) :
    Later order path tasks members x y := by
  induction h with
  | single h => exact later_of_runsAfter hn hc h
  | tail _ h ih => exact ih.trans hne hs (later_of_runsAfter hn hc h)

/-- Constraints of different tasks have no cycle. -/
theorem acyclic_chain (hn : order.Nodup) (hc : Covers order members actives)
    (hne : tasks.test ≠ tasks.hammer) (hs : Separates path tasks members) (x : Text) :
    ¬ Relation.TransGen (RunsAfter (chain order path tasks actives)) x x := by
  intro h
  obtain ⟨p, hp, q, hq, t, ht, u, hu, rfl, hx, h⟩ := later_of_transGen hn hc hne hs h
  obtain ⟨rfl, rfl⟩ := hs p hp q hq t ht u hu hx
  exact not_follows_self hne h

/-- Both tasks of a project wait for the hammer task of its predecessor. -/
theorem runsAfter_hammer (hp : p ∈ actives) (hq : predecessorIn? order p = some q)
    (ht : t ∈ tasks.both) :
    RunsAfter (chain order path tasks actives) (path p t) (path q tasks.hammer) := by
  refine runsAfter_chain_iff.mpr ⟨p, hp, q, hq, ?_⟩
  rcases TestTasks.mem_both.mp ht with rfl | rfl
  · exact Or.inl ⟨rfl, Or.inr rfl⟩
  · exact Or.inr ⟨rfl, Or.inr rfl⟩

theorem runsAfter_own (hp : p ∈ actives) (hq : predecessorIn? order p = some q) :
    RunsAfter (chain order path tasks actives) (path p tasks.hammer) (path p tasks.test) :=
  runsAfter_chain_iff.mpr ⟨p, hp, q, hq, Or.inr ⟨rfl, Or.inl rfl⟩⟩

theorem transGen_predecessor (hp : p ∈ actives) (hq : predecessorIn? order p = some q)
    (ht : t ∈ tasks.both) (hu : u ∈ tasks.both) :
    Relation.TransGen (RunsAfter (chain order path tasks actives)) (path p t) (path q u) := by
  rcases TestTasks.mem_both.mp hu with rfl | rfl
  · have htest : RunsAfter (chain order path tasks actives) (path p tasks.test)
        (path q tasks.test) :=
      runsAfter_chain_iff.mpr ⟨p, hp, q, hq, Or.inl ⟨rfl, Or.inl rfl⟩⟩
    rcases TestTasks.mem_both.mp ht with rfl | rfl
    · exact .single htest
    · exact .head (runsAfter_own hp hq) (.single htest)
  · exact .single (runsAfter_hammer hp hq ht)

/-- Along the chain every task of an earlier project is reached. -/
theorem transGen_of_idxOf_lt (hn : order.Nodup) (hp : p ∈ order) (hq : q ∈ order)
    (hlt : order.idxOf q < order.idxOf p) (ht : t ∈ tasks.both) (hu : u ∈ tasks.both) :
    Relation.TransGen (RunsAfter (chain order path tasks order)) (path p t) (path q u) := by
  -- By induction on the position of the later project, whose predecessor stands at `n`.
  obtain ⟨n, hn'⟩ : ∃ n, order.idxOf p = n := ⟨_, rfl⟩
  induction n generalizing p t with
  | zero => omega
  | succ n ih =>
    have hfirst : order.head? ≠ some p := by
      intro h
      rw [List.head?_eq_getElem?] at h
      have := idxOf_of_getElem? hn h
      omega
    obtain ⟨r, hr⟩ := (exists_predecessorIn?_iff hn hp).mpr hfirst
    obtain ⟨-, hro, he⟩ := (predecessorIn?_eq_some_iff hn).mp hr
    rcases Nat.lt_or_ge (order.idxOf q) (order.idxOf r) with hqr | hqr
    · exact .head (runsAfter_hammer hp hr ht) (ih hro hqr (by simp) (by omega))
    · obtain rfl : r = q := (List.idxOf_inj hro).mp (by omega)
      exact transGen_predecessor hp hr ht hu

theorem covers_self (hn : order.Nodup) : Covers order order order :=
  fun _ hp => ⟨hp, fun _ hq => ((predecessorIn?_eq_some_iff hn).mp hq).2.1⟩

theorem transGen_iff_follows (hn : order.Nodup) (hne : tasks.test ≠ tasks.hammer)
    (hs : Separates path tasks order) (hp : p ∈ order) (hq : q ∈ order) (ht : t ∈ tasks.both)
    (hu : u ∈ tasks.both) :
    Relation.TransGen (RunsAfter (chain order path tasks order)) (path p t) (path q u) ↔
      Follows order tasks p t q u := by
  have hc := covers_self hn
  constructor
  · intro h
    obtain ⟨p', hp', q', hq', t', ht', u', hu', hx, hy, h⟩ := later_of_transGen hn hc hne hs h
    obtain ⟨rfl, rfl⟩ := hs p hp p' hp' t ht t' ht' hx
    obtain ⟨rfl, rfl⟩ := hs q hq q' hq' u hu u' hu' hy
    exact h
  · rintro (hlt | ⟨rfl, hfirst, rfl, rfl⟩)
    · exact transGen_of_idxOf_lt hn hp hq hlt ht hu
    · obtain ⟨r, hr⟩ := (exists_predecessorIn?_iff hn hp).mpr hfirst
      exact .single (runsAfter_own hp hr)

/-- With one name for both tasks, a second project waits for itself. -/
theorem acyclic_chain_iff (hn : order.Nodup) (hs : tasks.test ≠ tasks.hammer →
      Separates path tasks order) :
    (∀ x, ¬ Relation.TransGen (RunsAfter (chain order path tasks order)) x x) ↔
      tasks.test ≠ tasks.hammer ∨ order.length ≤ 1 := by
  have hc := covers_self hn
  constructor
  · intro hacyclic
    by_contra hno
    obtain ⟨heq, hlen⟩ := not_or.mp hno
    have hlt : 1 < order.length := by omega
    have hpos := idxOf_of_getElem? hn (List.getElem?_eq_getElem hlt)
    have hfirst : order.head? ≠ some order[1] := by
      intro h
      rw [List.head?_eq_getElem?] at h
      have := idxOf_of_getElem? hn h
      omega
    obtain ⟨q, hq⟩ := (exists_predecessorIn?_iff hn (List.getElem_mem hlt)).mpr hfirst
    have hown : RunsAfter (chain order path tasks order) (path order[1] tasks.hammer)
        (path order[1] tasks.test) := runsAfter_own (List.getElem_mem hlt) hq
    rw [not_not.mp heq] at hown
    exact hacyclic _ (.single hown)
  · rintro (hne | hlen) x h
    · exact acyclic_chain hn hc hne (hs hne) x h
    · obtain ⟨y, h, -⟩ := Relation.TransGen.head'_iff.mp h
      obtain ⟨p, hp, q, hq, -⟩ := runsAfter_chain_iff.mp h
      have hpos := (predecessorIn?_eq_some_iff hn).mp hq
      have := List.idxOf_lt_length_of_mem hp
      omega

theorem separates_flatTask {tasks : TestTasks} (h : ∀ p ∈ members, .char ':' ∉ p) :
    Separates ProjectPath.flatTask tasks members :=
  fun p hp q hq _ _ _ _ he => (ProjectPath.flatTask_inj (h p hp) (h q hq)).mp he

/-- A test task comes after all test tasks of earlier projects, and a hammer task after the test
task of its own project unless that is the first. No other paths are related. There is a cycle
only if both tasks have one name and there are two projects. -/
theorem transGen_declared_iff (names excluded : List Text) (tasks : TestTasks)
    (hnames : ∀ name ∈ names, .char ':' ∉ name) :
    (tasks.test ≠ tasks.hammer →
      (∀ p ∈ ordered names excluded, ∀ q ∈ ordered names excluded,
        ∀ t ∈ tasks.both, ∀ u ∈ tasks.both,
          Relation.TransGen (RunsAfter (declared names excluded tasks))
            (ProjectPath.flatTask p t) (ProjectPath.flatTask q u) ↔
          Follows (ordered names excluded) tasks p t q u) ∧
      ∀ x y, Relation.TransGen (RunsAfter (declared names excluded tasks)) x y →
        ∃ p ∈ ordered names excluded, ∃ q ∈ ordered names excluded,
          ∃ t ∈ tasks.both, ∃ u ∈ tasks.both,
            x = ProjectPath.flatTask p t ∧ y = ProjectPath.flatTask q u) ∧
    ((∀ x, ¬ Relation.TransGen (RunsAfter (declared names excluded tasks)) x x) ↔
      tasks.test ≠ tasks.hammer ∨ (ordered names excluded).length ≤ 1) := by
  have hn := nodup_ordered names excluded
  have hs : Separates ProjectPath.flatTask tasks (ordered names excluded) :=
    separates_flatTask fun p hp => hnames p (mem_ordered.mp hp).1
  rw [declared_eq_chain]
  refine ⟨fun hne => ⟨?_, ?_⟩, acyclic_chain_iff hn fun _ => hs⟩
  · intro p hp q hq t ht u hu
    exact transGen_iff_follows hn hne hs hp hq ht hu
  · intro x y h
    obtain ⟨p, hp, q, hq, t, ht, u, hu, hx, hy, -⟩ :=
      later_of_transGen hn (covers_self hn) hne hs h
    exact ⟨p, hp, q, hq, t, ht, u, hu, hx, hy⟩

/-- Three projects, one of them excluded and one named twice. -/
theorem transGen_declared_between :
    (∀ name ∈ [("c" : Text), "a", "b", "c"], .char ':' ∉ name) ∧
    Relation.TransGen
      (RunsAfter (declared ["c", "a", "b", "c"] ["b"] ⟨"test", "hammerTest"⟩))
      (":c:test" : Text) (":a:test" : Text) ∧
    ¬ Relation.TransGen
      (RunsAfter (declared ["c", "a", "b", "c"] ["b"] ⟨"test", "hammerTest"⟩))
      (":a:hammerTest" : Text) (":a:test" : Text) := by
  have hnames : ∀ name ∈ [("c" : Text), "a", "b", "c"], .char ':' ∉ name := by decide
  have horder := ((transGen_declared_iff _ ["b"] ⟨"test", "hammerTest"⟩ hnames).1 (by decide)).1
  refine ⟨hnames, ?_, ?_⟩
  · exact (horder "c" (by decide) "a" (by decide) "test" (by decide) "test" (by decide)).mpr
      (by decide)
  · intro h
    have hf := (horder "a" (by decide) "a" (by decide) "hammerTest" (by decide) "test"
      (by decide)).mp h
    exact absurd hf (by decide)

end TestOrder

end BuildChain
