/-
The external drawing tool.

The tool is looked for under two names, is given a drawing in the bare dialect and
prints it with characters. What the tool does is known only when it has run, so it
is a parameter here: the names under which it is found, and how a run ends.
-/
import ProgramTree.Drawing

namespace ProgramTree.Drawing

/-- What is known of the tool: the names under which it is found, and how it ends. -/
structure Tool where
  names : List String
  code : Int
  output : String
  complaints : String

/-- How the tool is to draw; a missing number leaves the choice to the tool. -/
structure Options where
  timeout : Doc := .int 10
  direction : String := "TD"
  width : Doc := .null
  borderPadding : Doc := .int 0
  paddingX : Doc := .int 3
  paddingY : Doc := .int 3
  asciiOnly : Doc := .bool false

/-- A call of the tool. -/
structure Call where
  command : List String
  input : String
  timeout : Doc

namespace Options

/-- Sets an option by its name. -/
def set (o : Options) (name : String) (value : Doc) : Except Fault Options :=
  match name, value with
  | "timeout", v => .ok { o with timeout := v }
  | "direction", .text s => .ok { o with direction := s }
  | "direction", _ => .ok { o with direction := "" }
  | "width", v => .ok { o with width := v }
  | "border_padding", v => .ok { o with borderPadding := v }
  | "padding_x", v => .ok { o with paddingX := v }
  | "padding_y", v => .ok { o with paddingY := v }
  | "ascii_only", v => .ok { o with asciiOnly := v }
  | name, _ => .error (.unexpectedOption name)

/-- Sets several options. -/
def setAll (o : Options) : List (String × Doc) → Except Fault Options
  | [] => .ok o
  | (name, value) :: rest => do (← o.set name value).setAll rest

/-- A number on the command line, unless it is missing. -/
def argument (flag : String) : Doc → Except Fault (List String)
  | .null => .ok []
  | d => do return [flag, ← d.plain]

/-- The arguments on the command line. -/
def arguments (o : Options) : Except Fault (List String) := do
  let width ← argument "-x" o.width
  let border ← argument "--borderPadding" o.borderPadding
  let x ← argument "--paddingX" o.paddingX
  let y ← argument "--paddingY" o.paddingY
  return width ++ border ++ x ++ y ++ (if o.asciiOnly.truthy then ["--ascii"] else [])

end Options

namespace Tool

/-- The first of the tool's two names under which it is found. -/
def find (tool : Tool) : Except Fault String :=
  match ["mermaid-ascii", "mermaid-ascii.exe"].find? tool.names.contains with
  | some name => .ok name
  | none => .error .toolMissing

/-- What a failed run says, with a hint if the tool did not know the first line. -/
def failure (tool : Tool) (source : String) : String :=
  let said := if tool.complaints.isEmpty then "mermaid-ascii failed." else tool.complaints
  let first := Text.strip ((Text.lines source).headD "")
  if Text.contains tool.complaints "first line should define the graph" then
    said ++ " (first line is " ++ Text.quoted first ++ "; try 'graph TD' or 'graph LR')"
  else said

/-- The answer of a finished run. A tool that complains has failed, whatever its
code. -/
def answer (tool : Tool) (source : String) : Except Fault String :=
  if tool.code ≠ 0 then .error (.toolFailed (tool.failure source))
  else if !tool.complaints.isEmpty then .error (.toolFailed (Text.strip tool.complaints))
  else .ok tool.output

/-- The call for an outline. -/
def prepare (tool : Tool) (o : Options) (outline : Doc) : Except Fault Call := do
  let name ← tool.find
  let source ← draw .bare o.direction outline
  return ⟨name :: (← o.arguments), source, o.timeout⟩

/-- Draws an outline with the tool: the answer, and the calls that were made. -/
def run (tool : Tool) (o : Options) (outline : Doc) : Except Fault String × List Call :=
  match tool.prepare o outline with
  | .ok call => (tool.answer call.input, [call])
  | .error e => (.error e, [])

end Tool

end ProgramTree.Drawing
