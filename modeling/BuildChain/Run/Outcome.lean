import BuildChain.Run.Load
import BuildChain.Run.Plan

/-! # Carrying out a plan

A plan can be performed, which writes its files, or rehearsed, which prints what would be written.
The outcome holds what was printed, how the run ended and the files there are then. A file that
cannot be written ends the run, and what came before it stays.

Every text can be printed. What a terminal makes of it is left out, also that some terminals take no
halves of surrogate pairs.
-/

namespace BuildChain

inductive Ending
  | completed
  | exited (code : Nat)
  | failed (failure : Failure)
  deriving DecidableEq, Repr

structure Outcome where
  /-- The lines printed. -/
  out : List Text
  /-- The lines printed as warnings and errors. -/
  err : List Text
  ending : Ending
  tree : FileTree
  deriving DecidableEq, Repr

namespace Outcome

/-- A run that did nothing. -/
def ofTree (tree : FileTree) : Outcome where
  out := []
  err := []
  ending := .completed
  tree := tree

/-- A run that ended at a failure and printed nothing. -/
def ofFailure (failure : Failure) (tree : FileTree) : Outcome :=
  { ofTree tree with ending := .failed failure }

/-- Carries out steps below the directory `out` until a file cannot be written. -/
def ofSteps (out : FilePath) : List Step → FileTree → Outcome
  | [], tree => ofTree tree
  | .warn warning :: steps, tree =>
    let rest := ofSteps out steps tree
    { rest with err := warning.text :: rest.err }
  | .say text :: steps, tree =>
    let rest := ofSteps out steps tree
    { rest with out := text :: rest.out }
  | .generate file :: steps, tree =>
    let path := out / file.path
    match tree.write path file.content with
    | (tree, some e) => ofFailure (.file e) tree
    | (tree, none) =>
      let rest := ofSteps out steps tree
      { rest with out := ("  \u2713 " ++ path.text) :: rest.out }

end Outcome

namespace Step

/-- The line above and below a title. -/
def rule : Text :=
  List.replicate 60 '='

/-- The lines that a step prints instead of writing a file. -/
def shown : Step → List Text
  | warn _ => []
  | say text => [text]
  | generate file => [rule, file.path.text, rule, file.content, []]

def warnings : Step → List Text
  | warn warning => [warning.text]
  | _ => []

end Step

/-- The lines that end a run that wrote its files below `out`. -/
def Closing.lines (out : FilePath) : Closing → List Text
  | silent => []
  | plugin group => [
    "\n\u2705 Convention plugin generated in: " ++ (out / Plan.pluginDirectory).text,
    "\n\u26a0\ufe0f  Next steps:",
    "  1. Apply it in each subproject: plugins \x7b id(\"" ++ group ++ ".conventions\") \x7d",
    "  2. Run: ./gradlew test"]
  | scripts count => [
    "\n\u2705 Test order scripts generated for " ++ Text.ofNat count ++ " projects in: " ++
      out.text,
    "\n\u26a0\ufe0f  Next steps:",
    "  1. Apply in each build file: apply(from = \"" ++ Plan.orderFileName ++ "\")",
    "  2. Regenerate whenever subprojects are added or renamed"]

namespace Plan

/-- Writes the files of a plan below the directory `out`. -/
def perform (out : FilePath) (plan : Plan) (tree : FileTree) : Outcome :=
  let o := Outcome.ofSteps out plan.steps tree
  match o.ending with
  | .completed => { o with out := o.out ++ plan.closing.lines out }
  | _ => o

/-- Prints what performing a plan would write. -/
def rehearse (plan : Plan) (tree : FileTree) : Outcome where
  out := plan.steps.flatMap Step.shown
  err := plan.steps.flatMap Step.warnings
  ending := .completed
  tree := tree

end Plan

end BuildChain
