import BuildChain.Script.Line
import BuildChain.TestOrder

/-! # Test order scripts

The script of one project that declares its constraints, for a build whose test order is written
down and not computed.
-/

namespace BuildChain.Script.Order

/-- The block that declares one constraint, with an empty line after it. The script stands in the
project of the task, so the task goes by the last part of its path. -/
def constraintLines (constraint : Constraint) : List Text :=
  block (call "tasks.named" (Text.afterLast ':' constraint.task))
    (constraint.runsAfter.map (call "mustRunAfter")) ++ [[]]

def lines (name : Text) (constraints : List Constraint) : List Text :=
  ("// Sequential test order for project '" ++ name ++ "'") ::
    if constraints.isEmpty then
      ["// No predecessor: tests of this project are not constrained", []]
    else
      [] :: constraints.flatMap constraintLines

/-- The script of the project called `name`. -/
def text (name : Text) (constraints : List Constraint) : Text :=
  Text.ofLines (lines name constraints)

end BuildChain.Script.Order
