/-
Recipes: how to build values.

A recipe says what to build without saying where: plain values, collections, nodes
with their arguments and children, operators between values, and names for what
was built before. Building a recipe goes from left to right and from the inside
out.
-/
import ProgramTree.Build.Collections

namespace ProgramTree

/-- How to build a value. -/
inductive Recipe
  | none
  | bool (b : Bool)
  | int (n : Int)
  | float (x : Double)
  | text (s : String)
  | list (items : List Recipe)
  | tuple (items : List Recipe)
  | set (items : List Recipe)
  | dict (entries : List (Recipe × Recipe))
  /-- A place in a source text. -/
  | place (line col : Recipe)
  /-- A member of an enumeration. -/
  | member (enumeration : Enumeration) (name : String)
  /-- The value that was given a name before. -/
  | labelled (label : String)
  /-- A field of a value. -/
  | field (value : Recipe) (key : String)
  | binary (op : Overload) (left right : Recipe)
  | unary (op : UnaryOverload) (operand : Recipe)
  /-- A call of a function definition. -/
  | call (fn : Recipe) (args : List Recipe)
  /-- A node of a form: arguments without a name, arguments by name, children to add,
  fields to change, fields to take away, and a name for the node. -/
  | node (form : String) (rest : List Recipe) (given : List (String × Recipe))
      (children : List Recipe) (changes : List (String × Recipe)) (removals : List String)
      (label : Option String)
deriving Inhabited

namespace Recipe

open Build in
mutual

/-- Builds a value. -/
def build : Recipe → Build Value
  | .none => return .none
  | .bool b => return .bool b
  | .int n => return .int n
  | .float x => return .float x
  | .text s => return .text s
  | .list items => do newList (← buildAll items)
  | .tuple items => do newTuple (← buildAll items)
  | .set items => do newSet (← buildAll items)
  | .dict entries => do newDictFrom (← buildEntries [] entries)
  | .place line col => do
    let line ← build line
    let col ← build col
    return .ref (← new (.node ⟨.place, 0, [(.line, line), (.col, col)]⟩))
  | .member e name =>
    match e.ofName? name with
    | some m => return .member m
    | Option.none => fail (.unknownMember name)
  | .labelled label => Build.labelled label
  | .field value key => do Look.field (← build value) (Field.ofKey key)
  | .binary op left right => do
    let l ← build left
    let r ← build right
    applyBinary op l r
  | .unary op operand => do applyUnary op (← build operand)
  | .call fn args => do
    let f ← build fn
    Build.call f (← buildAll args)
  | .node name rest given children changes removals label => do
    match Form.ofName? name with
    | Option.none => fail (.unknownForm name)
    | some form =>
      let rest ← buildAll rest
      let given ← buildNamed given
      let a ← construct form rest given
      giveNumber a
      label.forM fun l => bindLabel l (.ref a)
      addAll (.ref a) children
      changeAll (.ref a) changes
      removals.forM fun key => remove (.ref a) (Field.ofKey key)
      return .ref a

/-- Builds values from left to right. -/
def buildAll : List Recipe → Build (List Value)
  | [] => return []
  | r :: rest => do
    let v ← build r
    return v :: (← buildAll rest)

/-- Builds arguments by name. -/
def buildNamed : List (String × Recipe) → Build (List (Field × Value))
  | [] => return []
  | (key, r) :: rest => do
    let v ← build r
    return (Field.ofKey key, v) :: (← buildNamed rest)

/-- Builds the entries of a dictionary, each key before its value, and puts each
entry in before the next one is built. -/
def buildEntries (made : List (Mark × Value × Value)) :
    List (Recipe × Recipe) → Build (List (Mark × Value × Value))
  | [] => return made
  | (key, value) :: rest => do
    let k ← build key
    let v ← build value
    buildEntries (← putEntry made (k, v)) rest

/-- Builds children and adds each to a container. -/
def addAll (container : Value) : List Recipe → Build Unit
  | [] => return ()
  | r :: rest => do
    append container (← build r)
    addAll container rest

/-- Builds new values for fields and changes each field. -/
def changeAll (node : Value) : List (String × Recipe) → Build Unit
  | [] => return ()
  | (key, r) :: rest => do
    assign node (Field.ofKey key) (← build r)
    changeAll node rest

end

end Recipe

end ProgramTree
