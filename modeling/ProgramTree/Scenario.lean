/-
Scenarios: programs of a given size that exercise one part of the library and report
what they see.
-/
import ProgramTree.Sample.Names
import ProgramTree.Sample.Outputs

namespace ProgramTree

/-- The scenarios. -/
inductive Scenario
  | literals | types | overloads | operators | flows | definitions | packages | exceptions
  | comprehensions | names | drawings | conversions | pages
deriving DecidableEq, Repr

namespace Scenario

/-- The size of a scenario that is given none. -/
def defaultSize : Scenario → Nat
  | .literals => 400
  | .overloads => 200
  | _ => 60

/-- What a scenario of some size does. -/
def program (size : Nat) : Scenario → Build (List Answer)
  | .literals => Sample.literals size
  | .types => Sample.types size
  | .overloads => Sample.overloads size
  | .operators => Sample.operators size
  | .flows => Sample.flows size
  | .definitions => Sample.definitions size
  | .packages => Sample.packages size
  | .exceptions => Sample.exceptions size
  | .comprehensions => Sample.comprehensions size
  | .names => Sample.names size
  | .drawings => Sample.drawings size
  | .conversions => Sample.conversions size
  | .pages => Sample.pages

/-- Runs a scenario in a new store. -/
def run (s : Scenario) (size : Option Nat) : Except Fault (List Answer) :=
  (s.program (size.getD s.defaultSize) Store.initial).1

end Scenario

end ProgramTree
