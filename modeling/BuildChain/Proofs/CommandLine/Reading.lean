import BuildChain.CommandLine.Usage
import BuildChain.Proofs.CommandLine.Line
import BuildChain.Proofs.Plan.Steps
import BuildChain.Proofs.Text.Split

/-! # Reading a command line

How an option is written does not matter, and neither does where the directory stands among the
options: a command line is read as what it asks for.
-/

namespace BuildChain.CommandLine

open Text

variable {switch : Switch} {word : Text} {r : Reading}

/-! ## Words -/

namespace Switch

theorem eq_of_head?_name {s t : Switch} (h : s.name.head? = t.name.head?) : s = t := by
  revert h
  cases s <;> cases t <;> decide

theorem equals_notMem_name (switch : Switch) : .char '=' ∉ switch.name := by
  cases switch <;> decide

theorem letter_ne_dash (switch : Switch) : switch.letter ≠ '-' := by
  cases switch <;> decide

/-- The names of the options start with different letters, so any beginning tells them apart. -/
theorem completions_abbreviation (name : Abbreviation switch) :
    completions name.text = [switch] := by
  obtain ⟨rest, hrest⟩ := name.beginning
  have hname : ∀ s : Switch, (after? name.text s.name).isSome = decide (s = switch) := by
    intro s
    rw [Bool.eq_iff_iff, decide_eq_true_eq, Option.isSome_iff_exists]
    constructor
    · rintro ⟨rest', h⟩
      apply eq_of_head?_name
      rw [eq_append_of_after? h, ← hrest, List.head?_append_of_ne_nil _ name.ne_nil,
        List.head?_append_of_ne_nil _ name.ne_nil]
    · rintro rfl
      exact ⟨rest, hrest ▸ after?_append _ _⟩
  simp only [completions, hname]
  cases switch <;> rfl

end Switch

theorem Abbreviation.ne_equals (name : Abbreviation switch) :
    ∀ d ∈ name.text, (d != '=') = true := by
  intro d hd
  rw [bne_iff_ne]
  rintro rfl
  exact switch.equals_notMem_name (name.beginning.subset hd)

namespace Word

theorem ofText_argument (h : word.head? ≠ some '-') : ofText word = .ok (.argument word) := by
  unfold ofText
  split <;> simp_all

theorem ofText_named (name : Abbreviation switch) :
    ofText ("--" ++ name.text) = .ok (.long switch none) := by
  have htake : name.text.takeWhile (· != .char '=') = name.text :=
    List.takeWhile_eq_self_iff.mpr name.ne_equals
  have hdrop : name.text.dropWhile (· != .char '=') = [] :=
    List.dropWhile_eq_nil_iff.mpr name.ne_equals
  change ofText ('-' :: '-' :: name.text) = _
  simp [ofText, htake, Switch.completions_abbreviation, assigned?, hdrop, after?]

theorem ofText_assigned (name : Abbreviation switch) (value : Text) :
    ofText ("--" ++ name.text ++ .char '=' :: value) = .ok (.long switch (some value)) := by
  have htake : (name.text ++ .char '=' :: value).takeWhile (· != .char '=') = name.text :=
    takeWhile_append_cons name.ne_equals (by decide)
  have hdrop : (name.text ++ .char '=' :: value).dropWhile (· != .char '=') = .char '=' :: value :=
    dropWhile_append_cons name.ne_equals (by decide)
  change ofText (.char '-' :: .char '-' :: (name.text ++ .char '=' :: value)) = _
  simp [ofText, htake, Switch.completions_abbreviation, assigned?, hdrop, after?]

theorem ofText_letter (switch : Switch) (attached : Text) :
    ofText (switch.shortForm ++ attached) = .ok (.short switch (attached? attached)) := by
  cases switch <;> rfl

theorem attached?_value (value : ValueText) : attached? value.text = some value.text := by
  have hne := value.ne_nil
  have hequals := value.not_equals
  unfold attached?
  split <;> simp_all

end Word

theorem ne_mark_of_head? (h : word.head? ≠ some '-') : word ≠ "--" := by
  rintro rfl
  exact h rfl

theorem classify_cons {w : Word} {words : List Text} {classified : List Word} (hne : word ≠ "--")
    (hword : Word.ofText word = .ok w) (hwords : classify words = .ok classified) :
    classify (word :: words) = .ok (w :: classified) := by
  rw [classify, if_neg hne]
  simp only [hword, hwords]
  rfl

namespace Given

/-- What the words of an option are on their own. -/
def classified : Given → List Word
  | setting s (.assigned _) => [.long s.switch (some s.value.text)]
  | setting s (.named _) => [.long s.switch none, .argument s.value.text]
  | setting s .attached => [.short s.switch (some s.value.text)]
  | setting s .lettered => [.short s.switch none, .argument s.value.text]
  | dryRun (.named _) => [.long .dryRun none]
  | dryRun .lettered => [.short .dryRun none]

variable {rest : List Text} {words : List Word}

theorem classify_words (g : Given) (h : classify rest = .ok words) :
    classify (g.words ++ rest) = .ok (g.classified ++ words) := by
  have hname {switch : Switch} (name : Abbreviation switch) (t : Text) :
      ("--" : Text) ++ name.text ++ t ≠ "--" := by
    have hne := name.ne_nil
    simp [hne]
  have hletter (switch : Switch) (t : Text) : switch.shortForm ++ t ≠ "--" := by
    have hne := switch.letter_ne_dash
    simp [Switch.shortForm, hne]
  have hvalue (value : ValueText) :
      classify (value.text :: rest) = .ok (.argument value.text :: words) :=
    classify_cons (ne_mark_of_head? value.not_dash) (Word.ofText_argument value.not_dash) h
  match g with
  | setting s (.assigned name) => exact classify_cons (hname _ _) (Word.ofText_assigned name _) h
  | setting s (.named name) =>
    exact classify_cons (by simpa using hname name []) (Word.ofText_named name) (hvalue _)
  | setting s .attached =>
    refine classify_cons (hletter _ _) ?_ h
    rw [Word.ofText_letter, Word.attached?_value]
  | setting s .lettered =>
    exact classify_cons (by simpa using hletter s.switch []) (Word.ofText_letter s.switch [])
      (hvalue _)
  | dryRun (.named name) =>
    exact classify_cons (by simpa using hname name []) (Word.ofText_named name) h
  | dryRun .lettered => exact classify_cons (by decide) (Word.ofText_letter .dryRun []) h

theorem classify_flatMap_words (given : List Given) (h : classify rest = .ok words) :
    classify (given.flatMap Given.words ++ rest) =
      .ok (given.flatMap classified ++ words) := by
  induction given with
  | nil => exact h
  | cons g given ih =>
    rw [List.flatMap_cons, List.append_assoc, g.classify_words ih, List.flatMap_cons,
      List.append_assoc]

end Given

theorem Line.classify_words (line : Line) :
    classify line.words =
      .ok (line.before.flatMap Given.classified ++
        .argument line.directory :: line.after.flatMap Given.classified) := by
  have hafter : classify (line.after.flatMap Given.words) =
      .ok (line.after.flatMap Given.classified) := by
    have := Given.classify_flatMap_words line.after (show classify [] = .ok [] from rfl)
    simpa using this
  exact Given.classify_flatMap_words line.before
    (classify_cons (ne_mark_of_head? line.not_dash) (Word.ofText_argument line.not_dash) hafter)

/-! ## What options come to -/

namespace Given

/-- An option with the value that it is given, however it is written. -/
def pair : Given → Switch × Value
  | setting s _ => (s.switch, .text s.value.text)
  | dryRun _ => (.dryRun, .nothing)

end Given

theorem values_concat (switch : Switch) (given : List Given) (g : Given) :
    values switch (given ++ [g]) = values switch given ++ (g.value? switch).toList := by
  rw [values, List.filterMap_append, values]
  cases h : g.value? switch <;> simp [h]

theorem foldlM_one {α β ε : Type} (f : β → α → Except ε β) (b : β) (a : α) :
    [a].foldlM f b = f b a := by
  simp only [List.foldlM_cons, List.foldlM_nil, bind_pure]

/-- One more option changes what the options come to as taking it in does. -/
theorem giveAll_optionsOf (given : List Given) (g : Given) :
    (optionsOf given).giveAll [g.pair] = .ok (optionsOf (given ++ [g])) := by
  rw [Options.giveAll, foldlM_one]
  cases g with
  | dryRun spelling =>
    simp [Given.pair, Options.give, optionsOf, values_concat, Given.value?, Given.mode?,
      Given.isDryRun]
  | setting s spelling =>
    cases s with
    | exclude name =>
      by_cases h : values .exclude given = [] <;>
        simp [Given.pair, Setting.switch, Setting.value, Options.give, optionsOf, values_concat,
          Given.value?, Given.mode?, Given.isDryRun, h]
    | _ =>
      simp [Given.pair, Setting.switch, Setting.value, Options.give, optionsOf, values_concat,
        Given.value?, Given.mode?, Given.isDryRun, Mode.ofText?_text]

/-! ## Reading -/

theorem Setting.takesValue_switch (s : Setting) : s.switch.takesValue = true := by
  cases s <;> rfl

theorem Cluster.valued_value (s : Setting) :
    Cluster.valued s.switch s.value.text = .ok ⟨[(s.switch, .text s.value.text)], none⟩ := by
  rw [valued, if_pos s.takesValue_switch, Value.ofAttached,
    if_neg (ne_mark_of_head? s.value.not_dash)]

theorem Cluster.ofAttached_of_takesValue (h : switch.takesValue = true) (t : Text) :
    Cluster.ofAttached switch t = Cluster.valued switch t := by
  cases t with
  | nil => rfl
  | cons c t => rw [ofAttached, h]

namespace Reading

/-- No value is due, and no mark has been read. -/
def Ready (r : Reading) : Prop :=
  r.expecting = .anything ∨ r.expecting = .afterDirectory

theorem step_of_ready (h : r.Ready) (w : Word) : r.step w = r.plain w := by
  rcases h with h | h <;> simp [step, h]

/-- However an option is written, it is taken in with its value. -/
theorem foldlM_classified (h : r.Ready) (g : Given) :
    g.classified.foldlM Reading.step r = r.give [g.pair] := by
  -- an option that the next word gives its value
  have hawaiting (s : Setting) {w : Word} (hw : r.plain w = r.cluster (.ok (.bare s.switch))) :
      [w, .argument s.value.text].foldlM Reading.step r =
        r.give [(s.switch, .text s.value.text)] := by
    rw [List.foldlM_cons, step_of_ready h, hw, Cluster.bare, if_pos s.takesValue_switch]
    exact foldlM_one _ _ _
  match g with
  | .setting s (.assigned name) =>
    rw [Given.classified, foldlM_one, step_of_ready h, plain, Cluster.valued_value]
    rfl
  | .setting s (.named name) => exact hawaiting s rfl
  | .setting s .attached =>
    rw [Given.classified, foldlM_one, step_of_ready h, plain,
      Cluster.ofAttached_of_takesValue s.takesValue_switch, Cluster.valued_value]
    rfl
  | .setting s .lettered => exact hawaiting s rfl
  | .dryRun (.named name) | .dryRun .lettered =>
    rw [Given.classified, foldlM_one, step_of_ready h]
    rfl

/-- What was read of a line up to a point: the directory, if it came before, and options. -/
structure Holds (r : Reading) (directory : Option FilePath) (given : List Given) : Prop where
  directory_eq : r.directory = directory
  options_eq : r.options = optionsOf given
  surplus_eq : r.surplus = []
  ready : r.Ready

variable {directory : Option FilePath} {given : List Given}

theorem Holds.step (h : r.Holds directory given) (g : Given) :
    ∃ r', g.classified.foldlM Reading.step r = .ok r' ∧ r'.Holds directory (given ++ [g]) := by
  refine ⟨{ r with options := optionsOf (given ++ [g]), expecting := .anything }, ?_,
    h.directory_eq, rfl, h.surplus_eq, .inl rfl⟩
  rw [foldlM_classified h.ready, give, h.options_eq, giveAll_optionsOf]
  rfl

theorem Holds.run (h : r.Holds directory given) (further : List Given) :
    ∃ r', (further.flatMap Given.classified).foldlM Reading.step r = .ok r' ∧
      r'.Holds directory (given ++ further) := by
  induction further generalizing r given with
  | nil => exact ⟨r, rfl, by simpa using h⟩
  | cons g further ih =>
    obtain ⟨r₁, hfirst, h₁⟩ := h.step g
    obtain ⟨r₂, hfurther, h₂⟩ := ih h₁
    refine ⟨r₂, ?_, by simpa using h₂⟩
    rw [List.flatMap_cons, List.foldlM_append, hfirst]
    exact hfurther

theorem holds_start : start.Holds none [] :=
  ⟨rfl, rfl, rfl, .inl rfl⟩

theorem Holds.argument (h : r.Holds none given) (t : Text) :
    ∃ r', r.step (.argument t) = .ok r' ∧ r'.Holds (some (FilePath.ofText t)) given := by
  refine ⟨{ r with directory := some (FilePath.ofText t), expecting := .afterDirectory }, ?_,
    rfl, h.options_eq, h.surplus_eq, .inr rfl⟩
  rw [step_of_ready h.ready, plain, Reading.argument, h.directory_eq]

theorem Holds.finish {path : FilePath} (h : r.Holds (some path) given) :
    r.finish = .ok ⟨path, optionsOf given⟩ := by
  have hexpecting := h.ready
  rw [Ready] at hexpecting
  rcases hexpecting with he | he <;>
    simp [Reading.finish, he, h.directory_eq, h.surplus_eq, h.options_eq]

end Reading

namespace Line

variable (line : Line)

theorem parse_words : parse line.words = .ok line.invocation := by
  obtain ⟨r₁, hbefore, h₁⟩ := Reading.holds_start.run line.before
  obtain ⟨r₂, hdirectory, h₂⟩ := h₁.argument line.directory
  obtain ⟨r₃, hafter, h₃⟩ := h₂.run line.after
  have hwords : (line.before.flatMap Given.classified ++
      .argument line.directory :: line.after.flatMap Given.classified).foldlM Reading.step
        Reading.start = .ok r₃ := by
    rw [List.foldlM_append, hbefore]
    change (r₁.step (.argument line.directory) >>= _) = _
    rw [hdirectory]
    exact hafter
  rw [parse, line.classify_words]
  simp only [hwords]
  exact h₃.finish

theorem mode_eq :
    (line.given.filterMap Given.mode?).map Mode.text = values .mode line.given := by
  rw [List.map_filterMap, values]
  congr 1
  funext g
  cases g with
  | dryRun spelling => rfl
  | setting s spelling => cases s <;> rfl

theorem request_invocation : line.invocation.request = line.request := by
  have htext (t : Option Text) : (t.map Value.text).bind Value.text? = t := by
    cases t <;> rfl
  have htexts (ts : List Text) : (ts.map Value.text).filterMap Value.text? = ts := by
    simp [List.filterMap_map, Function.comp_def, Value.text?]
  have hmode (m : Option Mode) : (m.getD .plugin).text = (m.map Mode.text).getD "plugin" := by
    cases m <;> rfl
  have hselection : (optionsOf line.given).selection =
      (values .project line.given).getLast?.elim .all .only := by
    rw [Options.selection, optionsOf]
    cases (values .project line.given).getLast? <;> rfl
  have hexcluded : (optionsOf line.given).excluded.map (List.filterMap Value.text?) =
      line.request.excluded := by
    rw [optionsOf, request]
    split
    · rfl
    · exact congrArg some (htexts _)
  rw [Invocation.request, invocation, hselection, hexcluded]
  simp only [optionsOf, request, htext, Option.map_some, Option.getD_some, hmode, ← mode_eq,
    List.getLast?_map]

theorem excludesUnnamed_invocation : line.invocation.excludesUnnamed = false := by
  rw [Invocation.excludesUnnamed, invocation, optionsOf]
  split <;> simp

theorem run_words (tree : FileTree) : run line.words tree = line.request.run tree := by
  rw [run, line.parse_words]
  change line.invocation.run tree = _
  unfold Invocation.run
  rw [line.excludesUnnamed_invocation, line.request_invocation]
  cases line.request.plan tree <;> rfl

/-- A command line is read as what it asks for, and the program does that, whatever the order of
the options and the way each is written. Of the values that an option is given the last counts,
but exclusions add up. -/
theorem parse_words_request :
    parse line.words = .ok line.invocation ∧ line.invocation.request = line.request ∧
      ∀ tree, run line.words tree = line.request.run tree :=
  ⟨line.parse_words, line.request_invocation, line.run_words⟩

/-- A line whose directory has the name of an option, as has a value. -/
def projectLine : Line where
  before := [
    .setting (.exclude ⟨"a", by decide, by decide, by decide⟩)
      (.assigned ⟨"ex", by decide, by decide⟩),
    .setting (.mode .static) .attached]
  directory := "project"
  ne_nil := by decide
  not_dash := by decide
  after := [
    .setting (.exclude ⟨"b c", by decide, by decide, by decide⟩) .lettered,
    .setting (.project ⟨"core", by decide, by decide, by decide⟩)
      (.named ⟨"p", by decide, by decide⟩),
    .dryRun .lettered,
    .setting (.project ⟨"group", by decide, by decide, by decide⟩) .attached,
    .setting (.mode .report) (.named ⟨"mo", by decide, by decide⟩)]

example :
    projectLine.words = ["--ex=a", "-mstatic", "project", "-x", "b c", "--p", "core", "-n",
      "-pgroup", "--mo", "report"] ∧
    projectLine.request =
      { directory := FilePath.ofSegment "project"
        output := none
        dryRun := true
        mode := "report"
        selection := .only "group"
        excluded := some ["a", "b c"]
        group := none } := by
  decide +kernel

end Line

end BuildChain.CommandLine
