/-
Views of a node: the reports that can be asked for.
-/
import ProgramTree.Answer
import ProgramTree.Doc.Json
import ProgramTree.Doc.Yaml
import ProgramTree.Drawing
import ProgramTree.Target.Dump
import ProgramTree.Target.Emit

namespace ProgramTree

/-- What can be asked of a node. -/
inductive View
  | text | quoted | formName | kind | place | metadata | type | length | items
  /-- An outline in a format, in full or simplified. -/
  | json (simplified : Bool)
  | yaml (simplified : Bool)
  | outline (simplified : Bool)
  | digest
  /-- A drawing in a dialect and a direction. -/
  | drawing (dialect : Drawing.Dialect) (direction : Direction)
  /-- What is shown in a notebook. -/
  | image
  /-- The source text in the target language. -/
  | source
  /-- The dump of the term in the target language. -/
  | term
deriving DecidableEq, Repr

namespace View

/-- The view of a name. -/
def ofName? : String → Option View
  | "str" => some .text
  | "repr" => some .quoted
  | "class" => some .formName
  | "kind" => some .kind
  | "loc" => some .place
  | "meta" => some .metadata
  | "type" => some .type
  | "len" => some .length
  | "items" => some .items
  | "json" => some (.json false)
  | "json_s" => some (.json true)
  | "yaml" => some (.yaml false)
  | "yaml_s" => some (.yaml true)
  | "struct" => some (.outline false)
  | "struct_s" => some (.outline true)
  | "hash" => some .digest
  | "mermaid" => some (.drawing .declared .down)
  | "mermaid_lr" => some (.drawing .declared .right)
  | "mermaid_a" => some (.drawing .bare .down)
  | "png" => some .image
  | "py" => some .source
  | "ast" => some .term
  | _ => none

open Look

/-- A field as an answer. -/
def fieldAnswer (v : Value) (f : Field) : Look Answer := do
  answer (← field v f)

/-- The kind of a node: its name and its code. -/
def kindOf (v : Value) : Look Answer := do
  let kind ← field v .kind
  return .list [← fieldAnswer kind .name, ← fieldAnswer kind .value]

/-- The place of a node: its text twice, its line and its column. -/
def placeOf (v : Value) : Look Answer := do
  let loc ← field v .loc
  let text ← Look.text loc
  let quoted ← Look.quoted loc
  return .list [.text text, .text quoted, ← fieldAnswer loc .line, ← fieldAnswer loc .col]

/-- The metadata of a node. -/
def metadataOf (v : Value) : Look Answer := do
  if !(← isA v .node) then lacks v "_get_metadata"
  let loc ← field v .loc
  let line ← fieldAnswer loc .line
  let col ← fieldAnswer (← field v .loc) .col
  let comment ← fieldAnswer v .comment
  let ref ← fieldAnswer v .ref
  let code ← fieldAnswer (← field v .kind) .value
  return .dict [(.text "loc", .dict [(.text "line", line), (.text "col", col)]),
    (.text "comment", comment), (.text "ref", ref), (.text "kind", code)]

/-- The names of the types of some values. -/
def typeNames (v : Value) : Look (List String) := do
  forEach v typeName

/-- The types inside a collection type. -/
def innerTypes? (type : Value) : Look (Option (List String)) := do
  match ← node? type with
  | some n =>
    match n.form with
    | .listType => return some ((← typeNames (← field type .elementTypes)).mergeSort)
    | .tupleType => return some (← typeNames (← field type .elementTypes))
    | .setType => return some [← typeName (← field type .elementType)]
    | .dictType =>
      return some [← typeName (← field type .keyType), ← typeName (← field type .valueType)]
    | _ => return none
  | none => return none

/-- A field as an answer, null if it is missing. -/
def optionalField (v : Value) (f : Field) : Look Answer := do
  match ← field? v f with
  | some w => answer w
  | none => return .null

/-- The type of a node: its form, its size and its name. -/
def typeOf (v : Value) : Look Answer := do
  let type ← field v .type
  let name ← typeName type
  let size ← optionalField type .byteSize
  let own ← optionalField type .name
  let inner ← innerTypes? type
  return .record ([("class", .text name), ("nbytes", size), ("name", own)]
    ++ (inner.map fun names => ("elements", Answer.texts names)).toList)

/-- An outline in some text format. -/
def outlineIn (format : Doc → Except Fault String) (simplified : Bool) (v : Value) :
    Look Answer := do
  return .text (← Look.ofOutcome (format (← Look.outline simplified v)))

/-- What is shown in a notebook: a drawing under the name of its format. -/
def shown (drawing : String) : Answer :=
  .record [("data", .record [("text/vnd.mermaid", .text drawing)]), ("raw", .bool true)]

mutual

/-- The dump of a term, or of each of several terms. -/
def dumps : Target.Term → Except Fault Answer
  | .items ts => do return .list (← dumpsEach ts)
  | t => do return .text (← t.dump)

/-- The dumps of several terms. -/
def dumpsEach : List Target.Term → Except Fault (List Answer)
  | [] => .ok []
  | t :: rest => do
    let d ← dumps t
    return d :: (← dumpsEach rest)

end

/-- The report for a view, or the fault that prevents it. -/
def report (view : View) (v : Value) : Look Answer := do
  match view with
  | .text => return .text (← Look.text v)
  | .quoted => return .text (← Look.quoted v)
  | .formName => return .text (← typeName v)
  | .kind => kindOf v
  | .place => placeOf v
  | .metadata => metadataOf v
  | .type => typeOf v
  | .length => return .int (← Look.length v)
  | .items => return .list (← forEach v answer)
  | .json simplified => outlineIn Doc.json simplified v
  | .yaml simplified => outlineIn (Doc.yaml (← store)) simplified v
  | .outline simplified => outlineIn Doc.written simplified v
  | .digest => return .text (← Look.digest v)
  | .drawing dialect direction => outlineIn (Drawing.draw dialect direction.word) false v
  | .image =>
    let outline ← Look.outline false v
    return shown (← Look.ofOutcome (Drawing.draw .declared "TD" outline))
  | .source => return .text (← Look.source Target.Margin.start v)
  | .term => do Look.ofOutcome (dumps (← Look.term v))

/-- The report for a view; a fault is part of the report. -/
def ask (view : View) (v : Value) : Look Answer := do
  return Answer.ofOutcome (← attempt (view.report v))

end View

end ProgramTree
