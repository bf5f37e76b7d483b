/-
Dumps of terms: the class of each term and its parts by name, on one line.

A part that is not there is left out, unless the class always has it.
-/
import ProgramTree.Doc.Text
import ProgramTree.Target.Term

namespace ProgramTree.Target

namespace Context

/-- The name of a context in a dump. -/
def dumpName : Context → String
  | .load => "Load()"
  | .store => "Store()"

end Context

namespace Term

/-- A term with its parts. -/
def dumped (name : String) (parts : List (Option (String × String))) : String :=
  let texts := parts.filterMap fun p => p.map fun (key, text) => key ++ "=" ++ text
  name ++ "(" ++ String.intercalate ", " texts ++ ")"

/-- A list of dumps. -/
def dumpedList (items : List String) : String :=
  "[" ++ String.intercalate ", " items ++ "]"

/-- A part that is always there. -/
def part (key text : String) : Option (String × String) :=
  some (key, text)

/-- A part that is left out if its term is absent; `text` is the dump of the term. -/
def presentPart (key : String) (t : Term) (text : String) : Option (String × String) :=
  match t with
  | .absent => none
  | _ => part key text

/-- A document that may be missing. -/
def docPart (key : String) : Doc → Except Fault (Option (String × String))
  | .null => .ok none
  | d => do return part key (← d.written)

/-- A sign in a dump. -/
def signPart (key name : String) : Option (String × String) :=
  part key (name ++ "()")

mutual

/-- The dump of a term. -/
def dump : Term → Except Fault String
  | .absent => .ok "None"
  | .items ts => do return dumpedList (← dumpAll ts)
  | .name id context => do
    return dumped "Name" [part "id" (← id.written), part "ctx" context.dumpName]
  | .constant value => do return dumped "Constant" [part "value" (← value.written)]
  | .ellipsis => .ok (dumped "Constant" [part "value" "Ellipsis"])
  | .tuple es context => do
    return dumped "Tuple" [part "elts" (dumpedList (← dumpAll es)), part "ctx" context.dumpName]
  | .list es => do
    return dumped "List"
      [part "elts" (dumpedList (← dumpAll es)), part "ctx" Context.load.dumpName]
  | .set es => do return dumped "Set" [part "elts" (dumpedList (← dumpAll es))]
  | .dict entries => do
    let ks ← dumpKeys entries
    let vs ← dumpValues entries
    return dumped "Dict" [part "keys" (dumpedList ks), part "values" (dumpedList vs)]
  | .attribute value attr => do
    return dumped "Attribute" [part "value" (← dump value), part "attr" (Text.quoted attr),
      part "ctx" Context.load.dumpName]
  | .subscript value index => do
    let v ← dump value
    let i ← dump index
    return dumped "Subscript"
      [part "value" v, part "slice" i, part "ctx" Context.load.dumpName]
  | .slice lower upper step => do
    let l ← dump lower
    let u ← dump upper
    let s ← dump step
    return dumped "Slice"
      [presentPart "lower" lower l, presentPart "upper" upper u, presentPart "step" step s]
  | .starred value => do
    return dumped "Starred" [part "value" (← dump value), part "ctx" Context.load.dumpName]
  | .call func args keywords => do
    let f ← dump func
    let xs ← dumpAll args
    let ks ← dumpAll keywords
    return dumped "Call"
      [part "func" f, part "args" (dumpedList xs), part "keywords" (dumpedList ks)]
  | .unary sign operand => do
    return dumped "UnaryOp" [signPart "op" sign.dumpName, part "operand" (← dump operand)]
  | .binary left sign right => do
    let l ← dump left
    let r ← dump right
    return dumped "BinOp" [part "left" l, signPart "op" sign.dumpName, part "right" r]
  | .logical sign values => do
    return dumped "BoolOp"
      [signPart "op" sign.dumpName, part "values" (dumpedList (← dumpAll values))]
  | .compare left signs comparators => do
    let l ← dump left
    let cs ← dumpAll comparators
    let ops := dumpedList (signs.map fun s => s.dumpName ++ "()")
    return dumped "Compare"
      [part "left" l, part "ops" ops, part "comparators" (dumpedList cs)]
  | .named target value => do
    let t ← dump target
    let v ← dump value
    return dumped "NamedExpr" [part "target" t, part "value" v]
  | .conditional test body orElse => do
    let t ← dump test
    let b ← dump body
    let o ← dump orElse
    return dumped "IfExp" [part "test" t, part "body" b, part "orelse" o]
  | .lambda args body => do
    let a ← dump args
    let b ← dump body
    return dumped "Lambda" [part "args" a, part "body" b]
  | .await value => do return dumped "Await" [part "value" (← dump value)]
  | .yield value => do return dumped "Yield" [presentPart "value" value (← dump value)]
  | .yieldFrom value => do return dumped "YieldFrom" [part "value" (← dump value)]
  | .listComp element generators => do
    let e ← dump element
    let gs ← dumpAll generators
    return dumped "ListComp" [part "elt" e, part "generators" (dumpedList gs)]
  | .setComp element generators => do
    let e ← dump element
    let gs ← dumpAll generators
    return dumped "SetComp" [part "elt" e, part "generators" (dumpedList gs)]
  | .generator element generators => do
    let e ← dump element
    let gs ← dumpAll generators
    return dumped "GeneratorExp" [part "elt" e, part "generators" (dumpedList gs)]
  | .expr value => do return dumped "Expr" [part "value" (← dump value)]
  | .assign targets value _ => do
    let ts ← dumpAll targets
    let v ← dump value
    return dumped "Assign" [part "targets" (dumpedList ts), part "value" v]
  | .augAssign target sign value => do
    let t ← dump target
    let v ← dump value
    return dumped "AugAssign" [part "target" t, signPart "op" sign.dumpName, part "value" v]
  | .annAssign target hint value => do
    let t ← dump target
    let a ← dump hint
    let v ← dump value
    return dumped "AnnAssign" [part "target" t, part "annotation" a,
      presentPart "value" value v, part "simple" "1"]
  | .pass => .ok (dumped "Pass" [])
  | .breakLoop => .ok (dumped "Break" [])
  | .continueLoop => .ok (dumped "Continue" [])
  | .giveBack value => do return dumped "Return" [presentPart "value" value (← dump value)]
  | .raise exception => do return dumped "Raise" [presentPart "exc" exception (← dump exception)]
  | .delete targets => do
    return dumped "Delete" [part "targets" (dumpedList (← dumpAll targets))]
  | .importing names => do return dumped "Import" [part "names" (dumpedList (← dumpAll names))]
  | .importFrom source names level => do
    let s ← docPart "module" source
    let ns ← dumpAll names
    let l ← docPart "level" level
    return dumped "ImportFrom" [s, part "names" (dumpedList ns), l]
  | .ifStmt test body orElse => do
    let t ← dump test
    let b ← dumpAll body
    let o ← dumpAll orElse
    return dumped "If"
      [part "test" t, part "body" (dumpedList b), part "orelse" (dumpedList o)]
  | .whileLoop test body => do
    let t ← dump test
    let b ← dumpAll body
    return dumped "While" [part "test" t, part "body" (dumpedList b), part "orelse" "[]"]
  | .forLoop target iterable body _ => do
    let t ← dump target
    let i ← dump iterable
    let b ← dumpAll body
    return dumped "For"
      [part "target" t, part "iter" i, part "body" (dumpedList b), part "orelse" "[]"]
  | .tryStmt body handlers finalBody => do
    let b ← dumpAll body
    let hs ← dumpAll handlers
    let f ← dumpAll finalBody
    return dumped "Try" [part "body" (dumpedList b), part "handlers" (dumpedList hs),
      part "orelse" "[]", part "finalbody" (dumpedList f)]
  | .matchStmt subject cases => do
    let s ← dump subject
    let cs ← dumpAll cases
    return dumped "Match" [part "subject" s, part "cases" (dumpedList cs)]
  | .functionDef title args body returns _ => do
    let a ← dump args
    let b ← dumpAll body
    let r ← dump returns
    return dumped "FunctionDef" [part "name" (← title.written), part "args" a,
      part "body" (dumpedList b), part "decorator_list" "[]", presentPart "returns" returns r]
  | .asyncFunctionDef title args body returns _ => do
    let a ← dump args
    let b ← dumpAll body
    let r ← dump returns
    return dumped "AsyncFunctionDef" [part "name" (← title.written), part "args" a,
      part "body" (dumpedList b), part "decorator_list" "[]", presentPart "returns" returns r]
  | .classDef title bases body decorators => do
    let bs ← dumpAll bases
    let b ← dumpAll body
    let ds ← dumpAll decorators
    return dumped "ClassDef" [part "name" (← title.written), part "bases" (dumpedList bs),
      part "keywords" "[]", part "body" (dumpedList b), part "decorator_list" (dumpedList ds)]
  | .moduleRoot body => do
    return dumped "Module" [part "body" (dumpedList (← dumpAll body)), part "type_ignores" "[]"]
  | .imported title asname => do
    return dumped "alias" [part "name" (← title.written), ← docPart "asname" asname]
  | .arg title hint => do
    return dumped "arg"
      [part "arg" (← title.written), presentPart "annotation" hint (← dump hint)]
  | .arguments args => do
    return dumped "arguments" [part "posonlyargs" "[]", part "args" (dumpedList (← dumpAll args)),
      part "kwonlyargs" "[]", part "kw_defaults" "[]", part "defaults" "[]"]
  | .comprehension target iterable conditions isAsync => do
    let t ← dump target
    let i ← dump iterable
    let cs ← dumpAll conditions
    return dumped "comprehension" [part "target" t, part "iter" i, part "ifs" (dumpedList cs),
      part "is_async" (if isAsync then "1" else "0")]
  | .handler type title body => do
    let t ← dump type
    let n ← docPart "name" title
    let b ← dumpAll body
    return dumped "ExceptHandler" [presentPart "type" type t, n, part "body" (dumpedList b)]
  | .matchCase pattern body => do
    let p ← dump pattern
    let b ← dumpAll body
    return dumped "match_case" [part "pattern" p, part "body" (dumpedList b)]
  | .wildcard => .ok (dumped "MatchAs" [])
  | .keyword title value => do
    return dumped "keyword" [part "arg" (Text.quoted title), part "value" (← dump value)]

/-- The dumps of several terms. -/
def dumpAll : List Term → Except Fault (List String)
  | [] => .ok []
  | t :: rest => do
    let d ← dump t
    return d :: (← dumpAll rest)

/-- The dumps of the keys of some entries. -/
def dumpKeys : List (Term × Term) → Except Fault (List String)
  | [] => .ok []
  | (k, _) :: rest => do
    let d ← dump k
    return d :: (← dumpKeys rest)

/-- The dumps of the values of some entries. -/
def dumpValues : List (Term × Term) → Except Fault (List String)
  | [] => .ok []
  | (_, v) :: rest => do
    let d ← dump v
    return d :: (← dumpValues rest)

end

end Term

end ProgramTree.Target
