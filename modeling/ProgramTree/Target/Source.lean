/-
The source text of terms.

A term is written at a level: the tightness that its surroundings ask for. A term
that binds less tightly than that is put between parentheses. Levels are given to
single terms only, so several terms where a level is asked for are a fault.
-/
import ProgramTree.Target.Literal
import ProgramTree.Target.Pen
import ProgramTree.Target.Term

namespace ProgramTree.Target.Term

open Writing

/-- Levels can be given to these terms. -/
def ranked (terms : List Term) : Except Fault Unit :=
  if terms.any fun t => t.sort = .several then .error (.unhashable "list") else .ok ()

/-- A term with a type comment needs a place. -/
def needsPlace (className : String) (isPlaced : Bool) : Except Fault Unit :=
  if isPlaced then .ok () else .error (.noField className "lineno")

/-- A constant. -/
def writeConstant (value : Doc) (p : Pen) : Except Fault Pen :=
  match value.bare with
  | .tuple [d] => do return ((p.write "(").write (← Literal.plain d)).write "," |>.write ")"
  | .tuple ds => do
    let texts ← ds.mapM Literal.plain
    let pieces := (texts.map fun s => Doc.text s).intersperse (.text ", ")
    return ((p.write "(").putAll pieces.toArray).write ")"
  | d => do return p.write (← Literal.plain d)

mutual

/-- Writes a term at a level. -/
def write : Term → Level → Pen → Except Fault Pen
  | .absent, _, _ => .error (.noField "NoneType" "_fields")
  | .items ts, _, p => writeAll ts p
  | .name id _, _, p => .ok (p.put id)
  | .constant value, _, p => writeConstant value p
  | .ellipsis, _, p => .ok (p.write "...")
  | .tuple es _, level, p =>
    delimitIf (es.isEmpty || Level.tuple < level) "(" ")" (writeElements es) p
  | .list es, _, p => delimit "[" "]" (writeSeparated es) p
  | .set es, _, p =>
    if es.isEmpty then .ok (p.write "\x7b*()\x7d")
    else delimit "\x7b" "\x7d" (writeSeparated es) p
  | .dict entries, _, p => delimit "\x7b" "\x7d" (writeEntries entries) p
  | .attribute value attr, _, p => do
    ranked [value]
    let p ← write value Level.atom p
    let isNumber := match value with
      | .constant (.int _) | .constant (.bool _) => true
      | _ => false
    let p := if isNumber then p.write " " else p
    return (p.write ".").write attr
  | .subscript value (.tuple (e :: es) _), _, p => do
    ranked [value]
    let p ← write value Level.atom p
    delimit "[" "]" (writeElements (e :: es)) p
  | .subscript value index, _, p => do
    ranked [value]
    let p ← write value Level.atom p
    delimit "[" "]" (write index Level.test) p
  | .slice lower upper step, _, p => do
    let p ← if lower.isTrue then write lower Level.test p else .ok p
    let p := p.write ":"
    let p ← if upper.isTrue then write upper Level.test p else .ok p
    if step.isTrue then write step Level.test (p.write ":") else return p
  | .starred value, _, p => do
    ranked [value]
    write value Level.bitOr (p.write "*")
  | .call func args keywords, _, p => do
    ranked [func]
    let p ← write func Level.atom p
    let p ← writeSeparated args (p.write "(")
    let p ← writeFollowing (!args.isEmpty) keywords p
    return p.write ")"
  | .unary sign operand, level, p =>
    delimitIf (sign.level < level) "(" ")" (fun p => do
      let p := p.write sign.text
      let p := if sign = .not then p.write " " else p
      ranked [operand]
      write operand sign.level p) p
  | .binary left sign right, level, p =>
    delimitIf (sign.level < level) "(" ")" (fun p => do
      ranked [left]
      let p ← write left sign.leftLevel p
      let p := p.write (" " ++ sign.text ++ " ")
      ranked [right]
      write right sign.rightLevel p) p
  | .logical sign values, level, p =>
    delimitIf (sign.level < level) "(" ")" (writeRising sign sign.level values) p
  | .compare left signs comparators, level, p =>
    delimitIf (Level.comparison < level) "(" ")" (fun p => do
      ranked (left :: comparators)
      let p ← write left Level.comparison.next p
      writeCompared signs comparators p) p
  | .named target value, level, p =>
    delimitIf (Level.named < level) "(" ")" (fun p => do
      ranked [target, value]
      let p ← write target Level.atom p
      write value Level.atom (p.write " := ")) p
  | .conditional test body orElse, level, p =>
    delimitIf (Level.test < level) "(" ")" (fun p => do
      ranked [body, test]
      let p ← write body Level.test.next p
      let p ← write test Level.test.next (p.write " if ")
      let p := p.write " else "
      ranked [orElse]
      write orElse Level.test p) p
  | .lambda args body, level, p =>
    delimitIf (Level.test < level) "(" ")" (fun p => do
      let p := p.write "lambda"
      let apart ← write args Level.test { p with pieces := #[] }
      let p := if apart.pieces.isEmpty then p else (p.write " ").putAll apart.pieces
      let p := p.write ": "
      ranked [body]
      write body Level.test p) p
  | .await value, level, p =>
    delimitIf (Level.awaiting < level) "(" ")" (fun p => do
      let p := p.write "await"
      if value.isTrue then
        ranked [value]
        write value Level.atom (p.write " ")
      else return p) p
  | .yield value, level, p =>
    delimitIf (Level.yielding < level) "(" ")" (fun p => do
      let p := p.write "yield"
      if value.isTrue then
        ranked [value]
        write value Level.atom (p.write " ")
      else return p) p
  | .yieldFrom value, level, p =>
    delimitIf (Level.yielding < level) "(" ")" (fun p => do
      let p := p.write "yield from "
      if value.isTrue then
        ranked [value]
        write value Level.atom p
      else .error .termWithoutValue) p
  | .listComp element generators, _, p =>
    delimit "[" "]" (fun p => do writeAll generators (← write element Level.test p)) p
  | .setComp element generators, _, p =>
    delimit "\x7b" "\x7d" (fun p => do writeAll generators (← write element Level.test p)) p
  | .generator element generators, _, p =>
    delimit "(" ")" (fun p => do writeAll generators (← write element Level.test p)) p
  | .expr value, _, p => do
    let p := p.fill ""
    ranked [value]
    write value Level.yielding p
  | .assign targets value isPlaced, _, p => do
    let p ← writeTargets targets (p.fill "")
    let p ← write value Level.test p
    needsPlace "Assign" isPlaced
    return p
  | .augAssign target sign value, _, p => do
    let p ← write target Level.test (p.fill "")
    write value Level.test (p.write (" " ++ sign.text ++ "= "))
  | .annAssign target hint value, _, p => do
    let p ← write target Level.test (p.fill "")
    let p ← write hint Level.test (p.write ": ")
    if value.isTrue then write value Level.test (p.write " = ") else return p
  | .pass, _, p => .ok (p.fill "pass")
  | .breakLoop, _, p => .ok (p.fill "break")
  | .continueLoop, _, p => .ok (p.fill "continue")
  | .giveBack value, _, p => do
    let p := p.fill "return"
    if value.isTrue then write value Level.test (p.write " ") else return p
  | .raise exception, _, p => do
    let p := p.fill "raise"
    if exception.isTrue then write exception Level.test (p.write " ") else return p
  | .delete targets, _, p => writeSeparated targets (p.fill "del ")
  | .importing names, _, p => writeSeparated names (p.fill "import ")
  | .importFrom source names level, _, p => do
    let p := (p.fill "from ").write (← points level)
    let p := if source.truthy then p.put source else p
    writeSeparated names (p.write " import ")
  | .ifStmt test body orElse, _, p => do
    let p ← write test Level.test (p.fill "if ")
    let p ← block (writeAll body) p
    writeOrElse orElse p
  | .whileLoop test body, _, p => do
    let p ← write test Level.test (p.fill "while ")
    block (writeAll body) p
  | .forLoop target iterable body isPlaced, _, p => do
    let p := p.fill "for "
    ranked [target]
    let p ← write target Level.tuple p
    let p ← write iterable Level.test (p.write " in ")
    needsPlace "For" isPlaced
    block (writeAll body) p
  | .tryStmt body handlers finalBody, _, p => do
    let p ← block (writeAll body) (p.fill "try")
    let p ← writeAll handlers p
    if finalBody.isEmpty then return p else block (writeAll finalBody) (p.fill "finally")
  | .matchStmt subject cases, _, p => do
    let p ← write subject Level.test (p.fill "match ")
    block (writeAll cases) p
  | .functionDef title args body returns isPlaced, _, p => do
    let p ← fillNamed "def " title p.newline
    let p ← delimit "(" ")" (write args Level.test) p
    let p ← if returns.isTrue then write returns Level.test (p.write " -> ") else .ok p
    needsPlace "FunctionDef" isPlaced
    block (writeBody body) p
  | .asyncFunctionDef title args body returns isPlaced, _, p => do
    let p ← fillNamed "async def " title p.newline
    let p ← delimit "(" ")" (write args Level.test) p
    let p ← if returns.isTrue then write returns Level.test (p.write " -> ") else .ok p
    needsPlace "AsyncFunctionDef" isPlaced
    block (writeBody body) p
  | .classDef title bases body decorators, _, p => do
    let p ← writeDecorators decorators p.newline
    let p ← fillNamed "class " title p
    let p ← delimitIf (!bases.isEmpty) "(" ")" (writeSeparated bases) p
    block (writeBody body) p
  | .moduleRoot body, _, p => writeBody body p
  | .imported title asname, _, p => do
    let p := p.put title
    if asname.truthy then
      match asname with
      | .text s => return p.write (" as " ++ s)
      | d => .error (.notJoinable d.typeName)
    else return p
  | .arg title hint, _, p => do
    let p := p.put title
    if hint.isTrue then write hint Level.test (p.write ": ") else return p
  | .arguments args, _, p => writeSeparated args p
  | .comprehension target iterable conditions isAsync, _, p => do
    let p := p.write (if isAsync then " async for " else " for ")
    ranked [target]
    let p ← write target Level.tuple p
    let p := p.write " in "
    ranked (iterable :: conditions)
    let p ← write iterable Level.test.next p
    writeConditions conditions p
  | .handler type title body, _, p => do
    let p := p.fill "except"
    let p ← if type.isTrue then write type Level.test (p.write " ") else .ok p
    let p := if title.truthy then (p.write " as ").put title else p
    block (writeAll body) p
  | .matchCase pattern body, _, p => do
    let p ← write pattern Level.test (p.fill "case ")
    block (writeAll body) p
  | .wildcard, _, p => .ok (p.write "_")
  | .keyword title value, _, p => write value Level.test ((p.write title).write "=")

/-- Writes terms one after the other. -/
def writeAll : List Term → Pen → Except Fault Pen
  | [], p => .ok p
  | t :: rest, p => do writeAll rest (← write t Level.test p)

/-- Writes terms with commas between them. -/
def writeSeparated : List Term → Pen → Except Fault Pen
  | [], p => .ok p
  | t :: rest, p => do writeFollowing true rest (← write t Level.test p)

/-- Writes terms with a comma before each, the first one only if something stands
before it. -/
def writeFollowing (comma : Bool) : List Term → Pen → Except Fault Pen
  | [], p => .ok p
  | t :: rest, p => do
    let p := if comma then p.write ", " else p
    writeFollowing true rest (← write t Level.test p)

/-- Writes the elements of a tuple; a single one has a comma behind it. -/
def writeElements : List Term → Pen → Except Fault Pen
  | [], p => .ok p
  | [t], p => do return (← write t Level.test p).write ","
  | t :: rest, p => do writeFollowing true rest (← write t Level.test p)

/-- Writes the entries of a dictionary. -/
def writeEntries : List (Term × Term) → Pen → Except Fault Pen
  | [], p => .ok p
  | (k, v) :: rest, p => do
    let p ← write k Level.test p
    let p ← write v Level.test (p.write ": ")
    writeMoreEntries rest p

/-- Writes entries with a comma before each. -/
def writeMoreEntries : List (Term × Term) → Pen → Except Fault Pen
  | [], p => .ok p
  | (k, v) :: rest, p => do
    let p ← write k Level.test (p.write ", ")
    let p ← write v Level.test (p.write ": ")
    writeMoreEntries rest p

/-- Writes the operands of a logical sign, each at a tighter level than the one
before. -/
def writeRising (sign : LogicalSign) (level : Level) : List Term → Pen → Except Fault Pen
  | [], p => .ok p
  | t :: rest, p => do
    ranked [t]
    let p ← write t level.next p
    writeMoreRising sign level.next rest p

/-- Writes further operands of a logical sign. -/
def writeMoreRising (sign : LogicalSign) (level : Level) : List Term → Pen → Except Fault Pen
  | [], p => .ok p
  | t :: rest, p => do
    let p := p.write (" " ++ sign.text ++ " ")
    ranked [t]
    let p ← write t level.next p
    writeMoreRising sign level.next rest p

/-- Writes the compared terms, each behind its sign. -/
def writeCompared : List CompareSign → List Term → Pen → Except Fault Pen
  | sign :: signs, t :: rest, p => do
    let p ← write t Level.comparison.next (p.write (" " ++ sign.text ++ " "))
    writeCompared signs rest p
  | _, _, p => .ok p

/-- Writes the targets of an assignment, each with an equals sign. -/
def writeTargets : List Term → Pen → Except Fault Pen
  | [], p => .ok p
  | t :: rest, p => do
    ranked [t]
    let p ← write t Level.tuple p
    writeTargets rest (p.write " = ")

/-- Writes the conditions of a comprehension. -/
def writeConditions : List Term → Pen → Except Fault Pen
  | [], p => .ok p
  | t :: rest, p => do
    let p ← write t Level.test.next (p.write " if ")
    writeConditions rest p

/-- Writes the other branch of a conditional statement; a conditional statement alone
continues the first one. -/
def writeOrElse : List Term → Pen → Except Fault Pen
  | [], p => .ok p
  | [.ifStmt test body orElse], p => do
    let p ← write test Level.test (p.fill "elif ")
    let p ← block (writeAll body) p
    writeOrElse orElse p
  | t :: rest, p => block (fun p => do writeAll rest (← write t Level.test p)) (p.fill "else")

/-- Writes decorators, one a line. -/
def writeDecorators : List Term → Pen → Except Fault Pen
  | [], p => .ok p
  | t :: rest, p => do writeDecorators rest (← write t Level.test (p.fill "@"))

/-- Writes the body of a definition; a text at its start documents it. -/
def writeBody : List Term → Pen → Except Fault Pen
  | [], p => .ok p
  | .expr (.constant (.text s)) :: rest, p =>
    writeAll rest ((p.fill "").write (Literal.documentation s))
  | t :: rest, p => do writeAll rest (← write t Level.test p)

end

/-- The source text of a term. -/
def source (t : Term) : Except Fault String := do
  (← t.write Level.test Pen.start).joined

end ProgramTree.Target.Term
