/-
The fields of nodes.

A node is a form and some fields with values; which fields it has can change
while it lives. The names are the ones that constructors, messages and readers
use. A name outside the list is a custom field: it can be set and read like any
other.
-/

namespace ProgramTree

/-- The fields of nodes. -/
inductive Field
  | kind | loc | ref | comment | parent
  | line | col
  | nodes | position
  | name | type | value | byteSize | defaultValue
  | mutability | visibility | scope
  | opCode | operand | lhs | rhs | left | ops | comparators | target | targets
  | fn | args | params | returnType | prototype | body
  | bases | decorators | isAbstract | metaclass | attributes | methods
  | condition | thenBranch | elseBranch | loopVariable | start | finish | step | initializer
  | update | cases | label
  | exception | types | handlers | finallyHandler | items | contextExpr | instanceName
  | element | generators | iterable | conditions | isAsync
  | datalayout | triple | modules | packages | block | asname | names | moduleName | level
  | index | lower | upper
  | expr | targetType | elements | elementTypes | elementType | keyType | valueType | real | imag
  | id | innerName | identifier | token | plainType | itemSort
  | tempCount
  | custom (name : String)
deriving DecidableEq, Repr

namespace Field

/-- The name of a field. -/
def key : Field → String
  | .kind => "kind"
  | .loc => "loc"
  | .ref => "ref"
  | .comment => "comment"
  | .parent => "parent"
  | .line => "line"
  | .col => "col"
  | .nodes => "nodes"
  | .position => "position"
  | .name => "name"
  | .type => "type_"
  | .value => "value"
  | .byteSize => "nbytes"
  | .defaultValue => "default"
  | .mutability => "mutability"
  | .visibility => "visibility"
  | .scope => "scope"
  | .opCode => "op_code"
  | .operand => "operand"
  | .lhs => "lhs"
  | .rhs => "rhs"
  | .left => "left"
  | .ops => "ops"
  | .comparators => "comparators"
  | .target => "target"
  | .targets => "targets"
  | .fn => "fn"
  | .args => "args"
  | .params => "params"
  | .returnType => "return_type"
  | .prototype => "prototype"
  | .body => "body"
  | .bases => "bases"
  | .decorators => "decorators"
  | .isAbstract => "is_abstract"
  | .metaclass => "metaclass"
  | .attributes => "attributes"
  | .methods => "methods"
  | .condition => "condition"
  | .thenBranch => "then"
  | .elseBranch => "else_"
  | .loopVariable => "variable"
  | .start => "start"
  | .finish => "end"
  | .step => "step"
  | .initializer => "initializer"
  | .update => "update"
  | .cases => "cases"
  | .label => "label"
  | .exception => "exception"
  | .types => "types"
  | .handlers => "handlers"
  | .finallyHandler => "finally_handler"
  | .items => "items"
  | .contextExpr => "context_expr"
  | .instanceName => "instance_name"
  | .element => "element"
  | .generators => "generators"
  | .iterable => "iterable"
  | .conditions => "conditions"
  | .isAsync => "is_async"
  | .datalayout => "datalayout"
  | .triple => "triple"
  | .modules => "modules"
  | .packages => "packages"
  | .block => "block"
  | .asname => "asname"
  | .names => "names"
  | .moduleName => "module"
  | .level => "level"
  | .index => "index"
  | .lower => "lower"
  | .upper => "upper"
  | .expr => "expr"
  | .targetType => "target_type"
  | .elements => "elements"
  | .elementTypes => "element_types"
  | .elementType => "element_type"
  | .keyType => "key_type"
  | .valueType => "value_type"
  | .real => "real"
  | .imag => "imag"
  | .id => "id"
  | .innerName => "_name"
  | .identifier => "identifier"
  | .token => "token"
  | .plainType => "type"
  | .itemSort => "__orig_class__"
  | .tempCount => "_tmp_id"
  | .custom s => s

/-- The fields with a name of their own. -/
def all : List Field :=
  [.kind, .loc, .ref, .comment, .parent, .line, .col, .nodes, .position, .name, .type, .value,
   .byteSize, .defaultValue, .mutability, .visibility, .scope, .opCode, .operand, .lhs, .rhs,
   .left, .ops, .comparators, .target, .targets, .fn, .args, .params, .returnType, .prototype,
   .body, .bases, .decorators, .isAbstract, .metaclass, .attributes, .methods, .condition,
   .thenBranch, .elseBranch, .loopVariable, .start, .finish, .step, .initializer, .update, .cases,
   .label, .exception, .types, .handlers, .finallyHandler, .items, .contextExpr, .instanceName,
   .element, .generators, .iterable, .conditions, .isAsync, .datalayout, .triple, .modules,
   .packages, .block, .asname, .names, .moduleName, .level, .index, .lower, .upper, .expr,
   .targetType, .elements, .elementTypes, .elementType, .keyType, .valueType, .real, .imag, .id,
   .innerName, .identifier, .token, .plainType, .itemSort,
   .tempCount]

/-- The field with this name. -/
def ofKey (s : String) : Field :=
  (all.find? fun f => f.key == s).getD (.custom s)

/-- The field found under a name has that name. -/
theorem key_ofKey (s : String) : (ofKey s).key = s := by
  unfold ofKey
  cases h : all.find? (fun f => f.key == s) with
  | none => rfl
  | some f => simpa using List.find?_some h

end Field

end ProgramTree
