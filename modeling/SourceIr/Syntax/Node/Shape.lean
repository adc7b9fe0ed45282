import SourceIr.Syntax.Node

/-!
# The fields of the constructs

A construct is read field by field.  `Kind.shapes?` lists the fields of each construct in their
declared order with the shape of their values, `Fields` holds the values that were read, and
`Kind.ofFields?` puts the construct together: there the presence rules are checked.

* a required field must be given and not be `null`;
* an optional field may be `null`, and an object may leave it out;
* a field with a default may be left out and may not be `null`.
-/

namespace SourceIr

/-- What the value of a field looks like. -/
inductive Shape where
  | text | flag | int | float
  | node | nodes | init | inits
  | binaryOperator | unaryOperator | callModifier | containerKind | deferKind
  deriving DecidableEq, Repr

/-- The value of a field. -/
inductive FieldValue where
  | null
  | text (value : String)
  | flag (value : Bool)
  | int (value : Int)
  | float (value : Float)
  | node (value : Node)
  | nodes (values : List Node)
  | init (value : FieldInit)
  | inits (values : List FieldInit)
  | binaryOperator (value : BinaryOperator)
  | unaryOperator (value : UnaryOperator)
  | callModifier (value : CallModifier)
  | containerKind (value : ContainerKind)
  | deferKind (value : DeferKind)

/-- A value without nodes inside. -/
def Shape.scalar? (shape : Shape) (value : Json) : Option FieldValue :=
  match shape with
  | .text => (decode? value).map .text
  | .flag => (decode? value).map .flag
  | .int => (decode? value).map .int
  | .float => (decode? value).map .float
  | .binaryOperator => (decode? value).map .binaryOperator
  | .unaryOperator => (decode? value).map .unaryOperator
  | .callModifier => (decode? value).map .callModifier
  | .containerKind => (decode? value).map .containerKind
  | .deferKind => (decode? value).map .deferKind
  | .node | .nodes | .init | .inits => none

namespace Kind

/-- The constructs without fields. -/
def ofName? : String → Option Kind
  | "Unreachable" => some .unreachable
  | "NullLiteral" => some .nullLiteral
  | "UndefinedLiteral" => some .undefinedLiteral
  | _ => none

/-- The fields of a construct that has any. -/
def shapes? : String → Option (List (String × Shape))
  | "Root" => some [("name", .text), ("decls", .nodes)]
  | "FnDecl" => some [("name", .text), ("params", .nodes), ("return_type", .node),
      ("body", .node), ("is_inline", .flag), ("is_export", .flag)]
  | "Param" => some [("name", .text), ("type_expr", .node), ("is_comptime", .flag)]
  | "VarDecl" => some [("name", .text), ("is_const", .flag), ("is_comptime", .flag),
      ("type_expr", .node), ("init", .node)]
  | "TestDecl" => some [("name", .text), ("body", .node)]
  | "ContainerDecl" => some [("kind", .containerKind), ("fields", .nodes), ("decls", .nodes)]
  | "ContainerField" => some [("name", .text), ("type_expr", .node), ("default_value", .node)]
  | "ErrorSetDecl" => some [("members", .nodes)]
  | "Block" => some [("label", .text), ("statements", .nodes)]
  | "Comptime" => some [("expr", .node)]
  | "Defer" => some [("kind", .deferKind), ("expr", .node)]
  | "If" => some [("condition", .node), ("payload", .text), ("then_branch", .node),
      ("else_branch", .node)]
  | "While" => some [("label", .text), ("condition", .node), ("payload", .text),
      ("continue_expr", .node), ("body", .node), ("else_branch", .node), ("is_inline", .flag)]
  | "For" => some [("label", .text), ("iterable", .node), ("item", .text), ("index", .text),
      ("body", .node), ("else_branch", .node), ("is_inline", .flag)]
  | "Break" => some [("label", .text), ("value", .node)]
  | "Continue" => some [("label", .text)]
  | "Return" => some [("value", .node)]
  | "Suspend" => some [("body", .node)]
  | "Asm" => some [("template", .text), ("is_volatile", .flag)]
  | "Assign" => some [("target", .node), ("value", .node)]
  | "AssignOp" => some [("op", .binaryOperator), ("target", .node), ("value", .node)]
  | "BinaryOp" => some [("op", .binaryOperator), ("lhs", .node), ("rhs", .node)]
  | "UnaryOp" => some [("op", .unaryOperator), ("operand", .node)]
  | "Call" => some [("callee", .node), ("args", .nodes), ("modifier", .callModifier)]
  | "BuiltinCall" => some [("name", .text), ("args", .nodes)]
  | "FieldAccess" => some [("container", .node), ("field", .text)]
  | "ArrayAccess" => some [("array", .node), ("index", .node)]
  | "Try" => some [("expr", .node)]
  | "Catch" => some [("lhs", .node), ("payload", .text), ("rhs", .node)]
  | "StructInit" => some [("type_expr", .node), ("fields", .inits)]
  | "ArrayInit" => some [("type_expr", .node), ("elements", .nodes)]
  | "Symbol" => some [("name", .text)]
  | "IntLiteral" => some [("value", .int)]
  | "FloatLiteral" => some [("value", .float)]
  | "StringLiteral" => some [("value", .text)]
  | "BoolLiteral" => some [("value", .flag)]
  | "ErrorValue" => some [("name", .text)]
  | _ => none

end Kind

/-- The values that were read for the fields of a construct.  `isArray` says that they were
given by position, so that no optional field may be left out. -/
structure Fields where
  values : List (String × FieldValue)
  isArray : Bool

namespace Fields

variable (fields : Fields) (name : String)

/-- The value of a field, `null` for an optional field that an object leaves out. -/
def value? : Option FieldValue :=
  match fields.values.lookup name with
  | some value => some value
  | none => if fields.isArray then none else some .null

/-- A required text. -/
def text : Option String :=
  match fields.values.lookup name with
  | some (.text s) => some s
  | _ => none

/-- An optional text. -/
def text? : Option (Option String) :=
  match fields.value? name with
  | some (.text s) => some (some s)
  | some .null => some none
  | _ => none

/-- A required flag. -/
def flag : Option Bool :=
  match fields.values.lookup name with
  | some (.flag b) => some b
  | _ => none

/-- A flag that is false by default. -/
def flagOrFalse : Option Bool :=
  match fields.values.lookup name with
  | some (.flag b) => some b
  | none => some false
  | _ => none

/-- A required node. -/
def node : Option Node :=
  match fields.values.lookup name with
  | some (.node n) => some n
  | _ => none

/-- An optional node. -/
def node? : Option (Option Node) :=
  match fields.value? name with
  | some (.node n) => some (some n)
  | some .null => some none
  | _ => none

/-- A required list of nodes. -/
def nodes : Option (List Node) :=
  match fields.values.lookup name with
  | some (.nodes ns) => some ns
  | _ => none

/-- A list of nodes that is empty by default. -/
def nodesOrNil : Option (List Node) :=
  match fields.values.lookup name with
  | some (.nodes ns) => some ns
  | none => some []
  | _ => none

/-- A list of field initializers that is empty by default. -/
def initsOrNil : Option (List FieldInit) :=
  match fields.values.lookup name with
  | some (.inits is) => some is
  | none => some []
  | _ => none

/-- A required integer. -/
def int : Option Int :=
  match fields.values.lookup name with
  | some (.int n) => some n
  | _ => none

/-- A required double. -/
def float : Option Float :=
  match fields.values.lookup name with
  | some (.float x) => some x
  | _ => none

/-- A required operator with two operands. -/
def binaryOperator : Option BinaryOperator :=
  match fields.values.lookup name with
  | some (.binaryOperator op) => some op
  | _ => none

/-- A required operator with one operand. -/
def unaryOperator : Option UnaryOperator :=
  match fields.values.lookup name with
  | some (.unaryOperator op) => some op
  | _ => none

/-- A call modifier that is `auto` by default. -/
def callModifierOrAuto : Option CallModifier :=
  match fields.values.lookup name with
  | some (.callModifier m) => some m
  | none => some .auto
  | _ => none

/-- A required container kind. -/
def containerKind : Option ContainerKind :=
  match fields.values.lookup name with
  | some (.containerKind k) => some k
  | _ => none

/-- A required kind of defer. -/
def deferKind : Option DeferKind :=
  match fields.values.lookup name with
  | some (.deferKind k) => some k
  | _ => none

end Fields

/-- The construct with this name and these fields. -/
def Kind.ofFields? (name : String) (fs : Fields) : Option Kind :=
  match name with
  | "Root" => do return .root (← fs.text "name") (← fs.nodes "decls")
  | "FnDecl" => do
    return .fnDecl (← fs.text "name") (← fs.nodesOrNil "params")
      (← fs.node? "return_type") (← fs.node? "body") (← fs.flagOrFalse "is_inline")
      (← fs.flagOrFalse "is_export")
  | "Param" => do
    return .param (← fs.text? "name") (← fs.node? "type_expr")
      (← fs.flagOrFalse "is_comptime")
  | "VarDecl" => do
    return .varDecl (← fs.text "name") (← fs.flag "is_const")
      (← fs.flagOrFalse "is_comptime") (← fs.node? "type_expr") (← fs.node? "init")
  | "TestDecl" => do return .testDecl (← fs.text? "name") (← fs.node "body")
  | "ContainerDecl" => do
    return .containerDecl (← fs.containerKind "kind")
      (← fs.nodesOrNil "fields") (← fs.nodesOrNil "decls")
  | "ContainerField" => do
    return .containerField (← fs.text "name") (← fs.node? "type_expr")
      (← fs.node? "default_value")
  | "ErrorSetDecl" => do return .errorSetDecl (← fs.nodes "members")
  | "Block" => do return .block (← fs.text? "label") (← fs.nodesOrNil "statements")
  | "Comptime" => do return .comptime (← fs.node "expr")
  | "Defer" => do return .deferred (← fs.deferKind "kind") (← fs.node "expr")
  | "If" => do
    return .ifThen (← fs.node "condition") (← fs.text? "payload")
      (← fs.node "then_branch") (← fs.node? "else_branch")
  | "While" => do
    return .whileLoop (← fs.text? "label") (← fs.node "condition")
      (← fs.text? "payload") (← fs.node? "continue_expr") (← fs.node "body")
      (← fs.node? "else_branch") (← fs.flagOrFalse "is_inline")
  | "For" => do
    return .forLoop (← fs.text? "label") (← fs.node "iterable") (← fs.text "item")
      (← fs.text? "index") (← fs.node "body") (← fs.node? "else_branch")
      (← fs.flagOrFalse "is_inline")
  | "Break" => do return .breakTo (← fs.text? "label") (← fs.node? "value")
  | "Continue" => do return .continueTo (← fs.text? "label")
  | "Return" => do return .returnFrom (← fs.node? "value")
  | "Suspend" => do return .suspend (← fs.node? "body")
  | "Asm" => do return .asm (← fs.text "template") (← fs.flagOrFalse "is_volatile")
  | "Assign" => do return .assign (← fs.node "target") (← fs.node "value")
  | "AssignOp" => do
    return .assignOp (← fs.binaryOperator "op") (← fs.node "target")
      (← fs.node "value")
  | "BinaryOp" => do return .binaryOp (← fs.binaryOperator "op") (← fs.node "lhs") (← fs.node "rhs")
  | "UnaryOp" => do return .unaryOp (← fs.unaryOperator "op") (← fs.node "operand")
  | "Call" => do
    return .call (← fs.node "callee") (← fs.nodesOrNil "args")
      (← fs.callModifierOrAuto "modifier")
  | "BuiltinCall" => do return .builtinCall (← fs.text "name") (← fs.nodesOrNil "args")
  | "FieldAccess" => do return .fieldAccess (← fs.node "container") (← fs.text "field")
  | "ArrayAccess" => do return .arrayAccess (← fs.node "array") (← fs.node "index")
  | "Try" => do return .tryExpr (← fs.node "expr")
  | "Catch" => do return .catchExpr (← fs.node "lhs") (← fs.text? "payload") (← fs.node "rhs")
  | "StructInit" => do return .structInit (← fs.node? "type_expr") (← fs.initsOrNil "fields")
  | "ArrayInit" => do return .arrayInit (← fs.node? "type_expr") (← fs.nodesOrNil "elements")
  | "Symbol" => do return .symbol (← fs.text "name")
  | "IntLiteral" => do return .intLiteral (← fs.int "value")
  | "FloatLiteral" => do return .floatLiteral (← fs.float "value")
  | "StringLiteral" => do return .stringLiteral (← fs.text "value")
  | "BoolLiteral" => do return .boolLiteral (← fs.flag "value")
  | "ErrorValue" => do return .errorValue (← fs.text "name")
  | _ => none

end SourceIr
