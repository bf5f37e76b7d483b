/-
The cells that every store starts with.

Constructors have defaults that are nodes themselves: the place of nodes without
a place, the type of variables without a type, the parameters of functions
without parameters. Each such default is one cell that all nodes built with it
share, and so are the values that forms lend to nodes whose own field was taken
away.
-/
import ProgramTree.Form.Ancestry
import ProgramTree.Store

namespace ProgramTree.Shared

/-! ## Addresses -/

/-- The place of nodes without a place. -/
def noPlace : Address := 0

/-- The plain type of each shared type, in the order of the shared types. -/
def plainType : Fin 5 → Address
  | 0 => 1
  | n => 16 + n

/-- The type that the form of identifiers lends. -/
def identifierType : Address := 2

/-- The type of variables without a type. -/
def variableType : Address := 3

/-- The type that the form of calls lends. -/
def callFormType : Address := 4

/-- The type of calls without a type. -/
def callType : Address := 5

/-- The value of declarations without a value. -/
def noInitialValue : Address := 6

/-- The default of arguments without a default. -/
def noDefault : Address := 7

/-- The parameters that the form of anonymous functions lends. -/
def formParams : Address := 9

/-- The parameters of anonymous functions without parameters. -/
def noParams : Address := 11

/-- The body that stands for the missing body of a class. -/
def classBody : Address := 13

/-- The target of programs without a target. -/
def noTarget : Address := 14

/-- The list that stands for a missing list. -/
def noItems : Address := 15

/-- The type of integers of thirty-two bits. -/
def int32 : Address := 16

/-! ## Cells -/

/-- The fields that every node starts with. -/
def baseFields (loc parent : Value) : List (Field × Value) :=
  [(.kind, .member (.kind .generic)), (.loc, loc), (.ref, .text ""), (.comment, .text ""),
   (.parent, parent)]

/-- A node without a place, a parent or a number. -/
def bare (form : Form) (fields : List (Field × Value)) : Cell :=
  .node ⟨form, 0, baseFields (.ref noPlace) .none ++ fields⟩

/-- The shared data type of a number, under a temporary name. -/
def dataType (n : Fin 5) (form : Form) (name : String) : Cell :=
  bare form [(.name, .text name), (.type, .ref (plainType n))]

/-- A container with its list at an address. -/
def container (form : Form) (name : String) (nodes : Address) : Cell :=
  bare form [(.name, .text name), (.nodes, .ref nodes), (.position, .int 0)]

/-- The shared cells, each at its address. -/
def cells : Array Cell :=
  #[.node ⟨.place, 0, [(.line, .int (-1)), (.col, .int (-1))]⟩,
    bare .exprType [],
    dataType 0 .anyType "temp_0",
    dataType 1 .anyType "temp_1",
    dataType 2 .anyType "temp_2",
    dataType 3 .anyType "temp_3",
    bare .undefined [],
    bare .undefined [],
    .list [],
    container .arguments "entry" 8,
    .list [],
    container .arguments "entry" 10,
    .list [],
    container .block "class_body" 12,
    bare .target [(.datalayout, .text ""), (.triple, .text "")],
    .list [],
    dataType 4 .int32 "temp_12",
    bare .exprType [],
    bare .exprType [],
    bare .exprType [],
    bare .exprType []]

end ProgramTree.Shared

namespace ProgramTree.Store

/-- The store before anything is built: the shared cells, and all counters at
zero. -/
def initial : Store :=
  { cells := Shared.cells, tempNames := 0, refs := 0, numbers := 0, labels := [] }

end ProgramTree.Store

namespace ProgramTree.Form

/-- The value of a field that a form itself lends to its nodes. -/
def ownLent? : Form → Field → Option Value
  | .node, .parent => some .none
  | .nodeList, .position => some (.int 0)
  | .identifier, .type => some (.ref Shared.identifierType)
  | .functionCall, .type => some (.ref Shared.callFormType)
  | .lambdaExpr, .params => some (.ref Shared.formParams)
  | .caseStmt, .condition => some .none
  | .caseStmt, .defaultValue => some (.bool false)
  | .literalNone, .value => some .none
  | .andOp, .kind => some (.member (.kind .andOp))
  | .andOp, .opCode => some (.text "and")
  | .orOp, .kind => some (.member (.kind .orOp))
  | .orOp, .opCode => some (.text "or")
  | .xorOp, .kind => some (.member (.kind .xorOp))
  | .xorOp, .opCode => some (.text "xor")
  | .nandOp, .kind => some (.member (.kind .nandOp))
  | .nandOp, .opCode => some (.text "nand")
  | .norOp, .kind => some (.member (.kind .norOp))
  | .norOp, .opCode => some (.text "nor")
  | .xnorOp, .kind => some (.member (.kind .xnorOp))
  | .xnorOp, .opCode => some (.text "xnor")
  | .notOp, .kind => some (.member (.kind .notOp))
  | .notOp, .opCode => some (.text "not")
  | f, .byteSize => f.ownByteSize?.map .int
  | _, _ => none

/-- The value of a field that a form lends, its own or an inherited one. -/
def lent? (f : Form) (field : Field) : Option Value :=
  f.ancestors.findSome? fun g => g.ownLent? field

/-- What forms lend is one of three nodes, or no node. -/
theorem lent?_ref {g : Form} {f : Field} {a : Address} (h : g.lent? f = some (.ref a)) :
    a ∈ [Shared.identifierType, Shared.callFormType, Shared.formParams] := by
  obtain ⟨k, -, hk⟩ := List.exists_of_findSome?_eq_some h
  unfold ownLent? at hk
  split at hk
  all_goals simp_all

end ProgramTree.Form
