import BuildChain.Proofs.Settings.IncludeForms
import BuildChain.Proofs.Settings.ParentsFirst
import BuildChain.Proofs.Settings.Tokens

/-! # Texts that a script prints

A line that prints a text declares nothing of its own. The readers of statements do not tell the
printed text from code, so what it declares are the statements that start in it. A call ends in the
line at the latest, and the other statements may reach beyond it.
-/

namespace BuildChain.Settings

open Text

variable {α : Type} {read : Reader α} {before before' : Option CodePoint} {c : CodePoint}
  {key s t u v w x y : Text} {calls : List (List Text)}

/-! ## Statements that start in a part of a script -/

/-- In the part `w` of a script, with `t` after it, no statement starts that declares something. A
call without quoted arguments declares nothing. -/
structure DeclaresNothing (w t : Text) : Prop where
  rootName : startingIn rootNameStatement w t = []
  directory : startingIn directoryStatement w t = []
  call : (startingIn includeCall w t).flatten = []
  command : startingIn includeCommand w t = []

instance (w t : Text) : Decidable (DeclaresNothing w t) :=
  decidable_of_iff (startingIn rootNameStatement w t = [] ∧
      startingIn directoryStatement w t = [] ∧ (startingIn includeCall w t).flatten = [] ∧
      startingIn includeCommand w t = [])
    ⟨fun h => ⟨h.1, h.2.1, h.2.2.1, h.2.2.2⟩,
      fun h => ⟨h.rootName, h.directory, h.call, h.command⟩⟩

theorem rootName?_append (w t : Text) :
    rootName? (w ++ t) = (startingIn rootNameStatement w t).head?.or (rootName? t) :=
  head?_occurrences_append rfl

theorem directories_append (h : startingIn directoryStatement w t = []) :
    directories (w ++ t) = directories t := by
  have hsame := (finds_of_startingIn h).occurrences_append rfl
  rw [directories, hsame, List.nil_append, directories]

theorem includeCall_congr (h : atWordStart before = atWordStart before') :
    includeCall before t = includeCall before' t := by
  simp only [includeCall, h]

theorem includeCommand_congr (h : atWordStart before = atWordStart before') :
    includeCommand before t = includeCommand before' t := by
  simp only [includeCommand, h]

/-- What is included in a part without commands comes before what is included after it. -/
theorem includes_append (hw : atWordStart w.getLast? = true)
    (hcall : Finds includeCall none w t calls) (hcommand : Finds includeCommand none w t []) :
    includes (w ++ t) = calls.flatten ++ includes t := by
  have hstart : atWordStart w.getLast? = atWordStart none := hw
  obtain ⟨ms, hl, hms, hm⟩ := hcall.marks_append (includeCall_congr hstart)
  obtain ⟨ns, hl', hns, hn⟩ := hcommand.marks_append (includeCommand_congr hstart)
  have hlength : ms.length = ns.length := hl.trans hl'.symm
  rw [includes, hm, hn, List.zipWith_append hlength, List.flatten_append,
    flatten_zipWith hlength (.inr hns), hms, hns, List.flatten_nil, List.append_nil, includes]

/-- A call goes no further than the last parenthesis of the part that it starts in. -/
theorem length_le_of_includeCall {r : List Text × Text} (hy : .char 'i' ∉ y)
    (hw : u ++ c :: v = x ++ .char ')' :: y) (hread : includeCall before (c :: (v ++ t)) = some r) :
    t.length ≤ r.2.length := by
  obtain ⟨-, blanks, inner, hblanks, hinner, hform, -⟩ := includeCall_eq_some_iff.mp hread
  have hclose : .char ')' ∈ c :: v := by
    rcases List.append_eq_append_iff.mp hw with ⟨z, -, hz⟩ | ⟨z, -, hz⟩
    · simp [hz]
    · have hc : c = 'i' := (List.cons.inj hform).1
      cases z with
      | nil => exact List.mem_of_mem_head? (congrArg List.head? hz).symm
      | cons d z =>
        obtain ⟨-, rfl⟩ := List.cons.inj hz
        simp [hc] at hy
  obtain ⟨p, q, hp, hclosed⟩ := List.eq_append_cons_of_mem hclose
  have hkey : .char ')' ∉ withKeyword (blanks ++ .char '(' :: inner) :=
    notMem_withKeyword_append (by decide) (by decide) hblanks (by simp [hinner])
  have hsame : p ++ .char ')' :: (q ++ t) =
      withKeyword (blanks ++ .char '(' :: inner) ++ .char ')' :: r.2 := by
    calc p ++ .char ')' :: (q ++ t) = (p ++ .char ')' :: q) ++ t := by simp
      _ = c :: (v ++ t) := by rw [← hp, List.cons_append]
      _ = withKeyword (blanks ++ .char '(' :: inner) ++ .char ')' :: r.2 := by
        rw [hform, withKeyword_append, List.append_assoc, List.cons_append]
  obtain ⟨-, hrest⟩ := (append_cons_inj hclosed hkey).mp hsame
  rw [← hrest, List.length_append]
  omega

/-! ## Lines that print -/

/-- A line that prints a text. -/
def printLine (t : Text) : Text :=
  ("println(" : Text) ++ quoted .double t ++ (")\n" : Text)

theorem printLine_eq (t : Text) :
    printLine t = ("println(" : Text) ++ quoted .double t ++ .char ')' :: [.char '\n'] :=
  rfl

theorem getLast?_printLine (t : Text) : (printLine t).getLast? = some '\n' := by
  rw [printLine_eq, List.getLast?_append_cons]
  rfl

theorem closing?_quoted {quote : Quote} (hquote : quote.char ∉ t) (hbackslash : .char '\\' ∉ t) :
    closing? quote.char false (t ++ [quote.char]) = some [] := by
  induction t with
  | nil => cases quote <;> rfl
  | cons c t ih =>
    rw [List.mem_cons, not_or] at hquote hbackslash
    rw [List.cons_append, closing?_cons (Ne.symm hbackslash.1) (Ne.symm hquote.1)]
    exact ih hquote.2 hbackslash.2

theorem stripComments_printLine (hquote : .char '"' ∉ t) (hbackslash : .char '\\' ∉ t) (s : Text) :
    stripComments (printLine t ++ s) = printLine t ++ stripComments s := by
  have hstart : IsCode ("println(" : Text) := by decide
  have hend : IsCode (')' :: ['\n']) := by decide
  have hliteral (u : Text) : stripComments (quoted .double t ++ u) = quoted .double t ++
      stripComments u := stripComments_literal (closing?_quoted hquote hbackslash) u
  rw [printLine_eq, List.append_assoc, List.append_assoc, hstart.strip, hliteral, hend.strip,
    List.append_assoc, List.append_assoc]

/-- A printed text without the key of a statement does not start one. -/
theorem Keyed.startingIn_printLine (h : Keyed key read) (hstart : Avoids key ("println(\"" : Text))
    (hend : Avoids key [.char '"', .char ')', .char '\n']) (hquote : .char '"' ∉ key)
    (ht : ¬ key <:+: t) (s : Text) :
    startingIn read (printLine t) s = [] := by
  have htext : Quiet read (t ++ .char '"' :: [.char ')', .char '\n']) :=
    h.quiet_append_cons hquote ht (h.quiet_of_avoids hend)
  have hline : printLine t =
      ("println(\"" : Text) ++ (t ++ .char '"' :: [.char ')', .char '\n']) := by
    rw [printLine_eq, List.append_assoc, quoted_append]
    exact List.append_cons _ _ _
  rw [hline]
  exact ((h.quiet_of_avoids hstart).append htext).finds.startingIn

theorem includes_printLine (h : startingIn includeCommand (printLine t) s = []) :
    includes (printLine t ++ s) =
      (startingIn includeCall (printLine t) s).flatten ++ includes s := by
  obtain ⟨calls, hcalls⟩ : ∃ calls, Finds includeCall none (printLine t) s calls := by
    apply exists_finds
    intro u c v r hsplit hread
    exact length_le_of_includeCall (by decide) (hsplit.symm.trans (printLine_eq t)) hread
  have hlast : atWordStart (printLine t).getLast? = true := by
    rw [getLast?_printLine]
    decide
  rw [includes_append hlast hcalls (finds_of_startingIn h), hcalls.startingIn]

/-- A printed text without the keys of statements declares nothing, whatever follows it. -/
theorem declaresNothing_printLine (hinclude : ¬ ("include" : Text) <:+: t)
    (hrootName : ¬ ("rootProject.name" : Text) <:+: t) (hproject : ¬ ("project(" : Text) <:+: t)
    (s : Text) : DeclaresNothing (printLine t) s where
  rootName := keyed_rootNameStatement.startingIn_printLine (by decide) (by decide) (by decide)
    hrootName s
  directory := keyed_directoryStatement.startingIn_printLine (by decide) (by decide) (by decide)
    hproject s
  call := by
    have hnone := keyed_includeCall.startingIn_printLine (by decide) (by decide) (by decide)
      hinclude s
    rw [hnone, List.flatten_nil]
  command := keyed_includeCommand.startingIn_printLine (by decide) (by decide) (by decide)
    hinclude s

/-- The projects of the script are those without the line. -/
theorem projects_printLine (h : DeclaresNothing (printLine t) s) :
    projects (printLine t ++ s) = projects s := by
  rw [projects, projectPaths, includes_printLine h.command, h.call, List.nil_append,
    directories_append h.directory, projects, projectPaths]

end BuildChain.Settings

namespace BuildChain.Build

open Settings Text

/-- A printed text is read as code. If a root name is set in it, then this is the name of the
build. What calls in it include comes first, unless it holds a command. The script is read as if
the line was not there if nothing is declared in it, as in a text without the keys. -/
theorem ofScript_printLine {t : Text} (hquote : .char '"' ∉ t) (hbackslash : .char '\\' ∉ t)
    (s directoryName : Text) (properties : Entries) :
    let line := printLine t
    let following := stripComments s
    let build := ofScript (line ++ s) directoryName properties
    let alone := ofScript s directoryName properties
    build.rootName = (startingIn rootNameStatement line following).head?.getD alone.rootName ∧
    (startingIn includeCommand line following = [] →
      build.projects.map Project.path = firstOccurrences
        (((startingIn includeCall line following).flatten ++ includes following).flatMap
          ancestry)) ∧
    (DeclaresNothing line following → build = alone) ∧
    (¬ ("include" : Text) <:+: t → ¬ ("rootProject.name" : Text) <:+: t →
      ¬ ("project(" : Text) <:+: t → DeclaresNothing line following) := by
  have hstrip := stripComments_printLine hquote hbackslash s
  simp only [ofScript, hstrip]
  refine ⟨?_, ?_, ?_, ?_⟩
  · rw [rootName?_append]
    cases (startingIn rootNameStatement (printLine t) (stripComments s)).head? with
    | none => rfl
    | some name => rfl
  · intro hcommand
    rw [map_path_projects, projectPaths, includes_printLine hcommand]
  · intro hnothing
    rw [rootName?_append, hnothing.rootName, projects_printLine hnothing]
    rfl
  · intro hinclude hrootName hproject
    exact declaresNothing_printLine hinclude hrootName hproject _

/-- Calls without quoted texts are harmless. -/
theorem ofScript_printLine_harmless :
    let t : Text := ("to include(x), name the project 'x'" : Text)
    let s : Text := ("include 'a'\n" : Text)
    .char '"' ∉ t ∧ .char '\\' ∉ t ∧ DeclaresNothing (printLine t) (stripComments s) ∧
    ofScript (printLine t ++ s) "build" [] = ofScript s "build" [] := by
  intro t s
  have hquote : .char '"' ∉ t := by decide
  have hbackslash : .char '\\' ∉ t := by decide
  have hnothing : DeclaresNothing (printLine t) (stripComments s) := by decide +kernel
  obtain ⟨-, -, halone, -⟩ := ofScript_printLine hquote hbackslash s "build" []
  exact ⟨hquote, hbackslash, hnothing, halone hnothing⟩

/-- A printed call includes a project, a printed assignment names the build, a printed
directory moves a project, and a printed command takes the next statement for its argument. -/
theorem ofScript_printLine_declares :
    let s : Text := "include 'a'\n"
    let after (t : Text) : Build := ofScript (printLine t ++ s) "build" []
    ofScript s "build" [] = ⟨"build", [⟨":a", "a", "a"⟩], []⟩ ∧
    after "include('x')" = ⟨"build", [⟨":x", "x", "x"⟩, ⟨":a", "a", "a"⟩], []⟩ ∧
    after "rootProject.name = 'x'" = ⟨"x", [⟨":a", "a", "a"⟩], []⟩ ∧
    after "project(':a').projectDir = 'x'" = ⟨"build", [⟨":a", "a", "x"⟩], []⟩ ∧
    after "include " = ⟨"build", [], []⟩ := by
  decide +kernel

end BuildChain.Build
