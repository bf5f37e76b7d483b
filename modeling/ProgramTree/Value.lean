/-
Values, nodes and cells.

Nodes, lists and the other collections can be reached from several places and
changed in place, so a value that holds one holds its address, and the cell at
that address holds the thing itself. Everything else is a value on its own.
-/
import ProgramTree.Double
import ProgramTree.Field
import ProgramTree.Form
import ProgramTree.Modifier

namespace ProgramTree

/-- Where a cell stands in the store. -/
abbrev Address := Nat

/-- What a field or an item of a collection holds. -/
inductive Value
  | none
  | bool (b : Bool)
  | int (n : Int)
  | float (x : Double)
  | text (s : String)
  | member (m : Member)
  | ref (a : Address)
deriving DecidableEq, Repr, Inhabited

/-- Equality of values that overload nothing: of numbers by value, of nodes and
collections by identity. -/
def Value.plainlyEqual : Value → Value → Bool
  | .int m, .float x | .float x, .int m => x.sameInt m
  | .bool b, .float x | .float x, .bool b => x.sameInt (if b then 1 else 0)
  | .bool b, .int m | .int m, .bool b => m == if b then 1 else 0
  | .float x, .float y => x.same y
  | l, r => l = r

/-- A node: its form, its number in labels, and its fields. -/
structure Node where
  form : Form
  number : Nat
  fields : List (Field × Value)
deriving Repr

/-- What stands at an address. -/
inductive Cell
  | node (n : Node)
  | list (items : List Value)
  | tuple (items : List Value)
  | set (items : List Value)
  | dict (entries : List (Value × Value))
deriving Repr

namespace Node

/-- The node's own value of a field. -/
def get? (n : Node) (f : Field) : Option Value :=
  n.fields.lookup f

/-- Gives a field a value; a field that the node has keeps its place. -/
def set (n : Node) (f : Field) (v : Value) : Node :=
  { n with fields := put n.fields }
where
  /-- Replaces the first entry of the field, or adds one at the end. -/
  put : List (Field × Value) → List (Field × Value)
    | [] => [(f, v)]
    | (g, w) :: rest => if g = f then (f, v) :: rest else (g, w) :: put rest

/-- Takes a field away. -/
def erase (n : Node) (f : Field) : Node :=
  { n with fields := n.fields.filter fun e => e.1 != f }

/-- Whether a container was made for one sort of nodes. -/
def isSorted (n : Node) : Bool :=
  (n.get? .itemSort).isSome

@[simp] theorem form_set (n : Node) (f : Field) (v : Value) : (n.set f v).form = n.form := rfl

@[simp] theorem number_set (n : Node) (f : Field) (v : Value) :
    (n.set f v).number = n.number := rfl

private theorem lookup_entry (f : Field) (v : Value) (g : Field) (rest : List (Field × Value)) :
    ((f, v) :: rest).lookup g = if g = f then some v else rest.lookup g := by
  by_cases h : g = f
  · simp [h]
  · simp [List.lookup_cons, h, beq_false_of_ne h]

private theorem lookup_put (f : Field) (v : Value) (g : Field) (fields : List (Field × Value)) :
    (set.put f v fields).lookup g = if g = f then some v else fields.lookup g := by
  induction fields with
  | nil => simp [set.put, lookup_entry]
  | cons e rest ih =>
    obtain ⟨k, w⟩ := e
    unfold set.put
    split
    · next hk => subst hk; by_cases h : g = k <;> simp [lookup_entry, h]
    · next hk =>
      rw [lookup_entry, ih, lookup_entry]
      by_cases h : g = f
      · subst h; simp [Ne.symm hk]
      · simp [h]

/-- Setting a field changes what that field reads as, and no other. -/
theorem get?_set (n : Node) (f : Field) (v : Value) (g : Field) :
    (n.set f v).get? g = if g = f then some v else n.get? g :=
  lookup_put f v g n.fields

private theorem lookup_filter (f g : Field) (fields : List (Field × Value)) :
    (fields.filter fun e => e.1 != f).lookup g = if g = f then .none else fields.lookup g := by
  induction fields with
  | nil => simp
  | cons e rest ih =>
    obtain ⟨k, w⟩ := e
    by_cases hk : k = f
    · subst hk
      simp only [List.filter_cons, bne_self_eq_false, Bool.false_eq_true, if_false, ih,
        lookup_entry]
      by_cases h : g = k <;> simp [h]
    · have hne : (k != f) = true := by simpa using hk
      simp only [List.filter_cons, hne, if_true, lookup_entry, ih]
      by_cases h : g = f
      · subst h; simp [Ne.symm hk]
      · simp [h]

/-- A field that was taken away is not there, and the others are. -/
theorem get?_erase (n : Node) (f g : Field) :
    (n.erase f).get? g = if g = f then .none else n.get? g :=
  lookup_filter f g n.fields

end Node

namespace Cell

/-- The name of the type of a cell. -/
def typeName : Cell → String
  | .node n => n.form.name
  | .list _ => "list"
  | .tuple _ => "tuple"
  | .set _ => "set"
  | .dict _ => "dict"

/-- The addresses that a cell holds. -/
def targets : Cell → List Address
  | .node n => n.fields.filterMap fun e => address? e.2
  | .list xs | .tuple xs | .set xs => xs.filterMap address?
  | .dict es => es.flatMap fun e => [e.1, e.2].filterMap address?
where
  /-- The address in a value. -/
  address? : Value → Option Address
    | .ref a => some a
    | _ => .none

end Cell

end ProgramTree
