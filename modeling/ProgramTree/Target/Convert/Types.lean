/-
Rules for types, names and literals.
-/
import ProgramTree.Target.Convert

namespace ProgramTree.Target.Convert

open Look

/-! ## Types and names -/

/-- A fixed name. -/
def nameOf (id : String) : Rule := fun _ _ =>
  return Term.load id

/-- A data type without a name of its own in the target. -/
def dataType : Rule := fun _ v => do
  match ← truthyField? v .id with
  | some id => return .name (← Look.doc id) .load
  | none => return Term.load "object"

/-- The text that names an identifier. -/
def identifierText (v : Value) : List Field → Look String
  | [] => return "unknown_identifier"
  | f :: rest => do
    match ← field? v f with
    | some w => text w
    | none => identifierText v rest

/-- An identifier. -/
def identifier : Rule := fun _ v => do
  return Term.load (← identifierText v [.name, .id, .value, .innerName, .identifier, .token])

/-- A variable. -/
def variableUse : Rule := fun _ v => do
  match ← field? v .name with
  | some w => return .name (← Look.doc w) .load
  | none => return Term.load "undefined"

/-! ## Literals -/

/-- A literal by its value. -/
def valueOr (missing : Doc) : Rule := fun _ v => do
  match ← field? v .value with
  | some w => return .constant (← Look.doc w)
  | none => return .constant missing

/-- A literal by the text of its value. -/
def textOr (missing : String) : Rule := fun _ v => do
  match ← field? v .value with
  | some w => return Term.textConstant (← text w)
  | none => return Term.textConstant missing

/-- A literal that is always the same. -/
def constant (value : Doc) : Rule := fun _ _ =>
  return .constant value

/-- A complex number: a call with its two parts. -/
def complex : Rule := requiring [.value] fun _ v => do
  let value ← field v .value
  let real ← Look.doc (← item value 0)
  let imag ← Look.doc (← item value 1)
  return Term.callOf "complex" [.constant real, .constant imag]

/-- A date: read from its text by a pattern. -/
def date : Rule := requiring [.value] fun _ v => do
  let value ← fieldDoc v .value
  let parsed := Term.call (.attribute (Term.load "datetime") "strptime")
    [.constant value, Term.textConstant "%Y-%m-%d"] []
  return .call (.attribute parsed "date") [] []

/-- The elements of a collection in a term. -/
def collection (make : List Term → Term) : Rule := fun visit v => do
  match ← field? v .elements with
  | some es => return make (← visitEach visit es)
  | none => return make []

/-- The entries of a dictionary. -/
def entries (v : Value) : Look (List (Value × Value)) := do
  match v with
  | .ref a =>
    match ← cell a with
    | .dict es => return es
    | _ => lacks v "keys"
  | _ => lacks v "keys"

/-- A dictionary: all keys are converted before the values. -/
def dictionary : Rule := fun visit v => do
  match ← field? v .elements with
  | some w =>
    let es ← entries w
    let keys ← es.mapM fun e => visit e.1
    let values ← es.mapM fun e => visit e.2
    return .dict (keys.zip values)
  | none => return .dict []

end ProgramTree.Target.Convert
