import BuildChain.TestOrder

/-! # The test order report

A numbered list of the projects in their order, each with its predecessor, and the names of the
build that take no part.
-/

namespace BuildChain.Report

/-- The line of a project, numbered within the given width. -/
def numberedLine (width number : Nat) (predecessor : Option Text) (name : Text) : Text :=
  let place : Text := match predecessor with
    | some predecessor => "(after " ++ predecessor ++ ")"
    | none => "(first)"
  "  " ++ Text.padLeft width (Text.ofNat number) ++ ". " ++ name ++ "  " ++ place

/-- The lines of the projects from `number` on, given the one before them. -/
def numberedLines (width : Nat) : (number : Nat) → (predecessor : Option Text) → List Text →
    List Text
  | _, _, [] => []
  | number, predecessor, name :: names =>
    numberedLine width number predecessor name ::
      numberedLines width (number + 1) (some name) names

/-- The names that take no part, in ascending order. -/
def skipped (names excluded : List Text) : List Text :=
  TestOrder.sortDistinct (names.filter excluded.contains)

def skippedLines (names : List Text) : List Text :=
  if names.isEmpty then []
  else [] :: "Excluded from ordering:" :: names.map fun name => "  - " ++ name

def lines (names excluded : List Text) : List Text :=
  let order := TestOrder.ordered names excluded
  let count := Text.ofNat order.length
  ("Sequential test order (" ++ count ++ " projects):") ::
    numberedLines count.length 1 none order ++
    skippedLines (skipped names excluded) ++ [[]]

/-- The report on a build with the given project names. -/
def text (names excluded : List Text) : Text :=
  Text.ofLines (lines names excluded)

end BuildChain.Report
