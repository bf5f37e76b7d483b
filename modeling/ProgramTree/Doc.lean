/-
Documents: the plain data that describes a node.

A document is what an outline is made of: texts, numbers, lists, and dictionaries
that keep the order of their entries. A collection that comes from a store keeps
its address, by which it is known again when the document holds it twice. A value
that is no plain data stands in a document as a foreign thing, known by its type
and by how it is written.
-/
import ProgramTree.Fault
import ProgramTree.Value

namespace ProgramTree

/-- A value that is no plain data. -/
structure Foreign where
  value : Value
  /-- The name of its type. -/
  type : String
  /-- Whether it counts as true. -/
  truthy : Bool
  /-- Its text. -/
  text : Except Fault String
  /-- Its text inside a collection. -/
  written : Except Fault String

/-- Plain data. -/
inductive Doc
  | null
  | bool (b : Bool)
  | int (n : Int)
  | float (x : Double)
  | text (s : String)
  | list (items : List Doc)
  | tuple (items : List Doc)
  | set (items : List Doc)
  | dict (entries : List (Doc × Doc))
  /-- A collection that stands at an address. -/
  | held (a : Address) (d : Doc)
  /-- A collection that is met again inside itself. -/
  | loop (a : Address) (type : String)
  | foreign (thing : Foreign)

namespace Doc

/-- The name of the type of a document. -/
def typeName : Doc → String
  | .null => "NoneType"
  | .bool _ => "bool"
  | .int _ => "int"
  | .float _ => "float"
  | .text _ => "str"
  | .list _ => "list"
  | .tuple _ => "tuple"
  | .set _ => "set"
  | .dict _ => "dict"
  | .held _ d => d.typeName
  | .loop _ type => type
  | .foreign thing => thing.type

/-- A document without the address at which it stands. -/
def bare : Doc → Doc
  | .held _ d => d.bare
  | d => d

/-- A dictionary whose keys are texts. -/
def record (entries : List (String × Doc)) : Doc :=
  .dict (entries.map fun e => (.text e.1, e.2))

/-- Puts an entry into a dictionary: a key that is there keeps its place and
takes the new value. -/
def put (key : String) (value : Doc) : List (String × Doc) → List (String × Doc)
  | [] => [(key, value)]
  | (k, v) :: rest => if k = key then (key, value) :: rest else (k, v) :: put key value rest

/-- Puts the entries of a dictionary into another, one after the other. -/
def merge (entries more : List (String × Doc)) : List (String × Doc) :=
  more.foldl (fun es e => put e.1 e.2 es) entries

/-- The entries of a dictionary whose keys are texts. -/
def textEntries : List (Doc × Doc) → List (String × Doc)
  | [] => []
  | (.text k, v) :: rest => (k, v) :: textEntries rest
  | _ :: rest => textEntries rest

/-- The entries of a document under texts. -/
def entries (d : Doc) : Except Fault (List (String × Doc)) :=
  match d.bare with
  | .dict es => .ok (textEntries es)
  | other => .error (.notMapping other.typeName)

/-- The value under a text among the entries of a dictionary. -/
def lookup (key : String) (es : List (Doc × Doc)) : Option Doc :=
  (textEntries es).lookup key

/-- A dictionary with one entry. -/
def single (key : String) (value : Doc) : Doc :=
  .record [(key, value)]

/-- The entries of a record are those that it was made of. -/
@[simp] theorem entries_record (es : List (String × Doc)) : (record es).entries = .ok es := by
  simp only [entries, bare, record]
  induction es with
  | nil => rfl
  | cons e rest ih =>
    simp only [List.map_cons, textEntries, Except.ok.injEq] at ih ⊢
    rw [ih]

/-- The keys after putting an entry: the old ones, and the new one at the end
unless it was there. -/
theorem map_fst_put (key : String) (value : Doc) (es : List (String × Doc)) :
    (put key value es).map Prod.fst =
      if key ∈ es.map Prod.fst then es.map Prod.fst else es.map Prod.fst ++ [key] := by
  induction es with
  | nil => simp [put]
  | cons e rest ih =>
    obtain ⟨k, v⟩ := e
    by_cases h : k = key
    · simp [put, h]
    · simp only [put, h, if_false, List.map_cons, ih, List.mem_cons]
      by_cases hm : key ∈ rest.map Prod.fst
      · simp [hm]
      · simp [hm, Ne.symm h]

end Doc

end ProgramTree
