import SourceIr.Location
import SourceIr.Syntax.Operator

/-!
# The syntax tree

A node is a construct with its place in the file and a number of its own.  Numbers are given out
in the order in which nodes are made; they name nodes that have no location.

* `Node`, `Kind` and `FieldInit`, the tree;
* `Kind.name`, `Node.text`, how a node is shown;
* `Kind.isExpressionStatement` and `Kind.isPlace`, the two classes of constructs that the
  lowering of statements and of assignments asks for;
* `Node.memberName?` and `Node.memberSymbol?`, the members of an error set.
-/

namespace SourceIr

mutual

/-- A construct at a place. -/
structure Node where
  /-- The number of the node. -/
  id : Nat
  kind : Kind
  location : Option Location
  span : Option Span

/-- The constructs. -/
inductive Kind where
  | root (name : String) (decls : List Node)
  | fnDecl (name : String) (params : List Node) (returnType body : Option Node)
      (isInline isExport : Bool)
  | param (name : Option String) (typeExpr : Option Node) (isComptime : Bool)
  | varDecl (name : String) (isConst isComptime : Bool) (typeExpr init : Option Node)
  | testDecl (name : Option String) (body : Node)
  | containerDecl (kind : ContainerKind) (fields decls : List Node)
  | containerField (name : String) (typeExpr defaultValue : Option Node)
  | errorSetDecl (members : List Node)
  | block (label : Option String) (statements : List Node)
  | comptime (expr : Node)
  | deferred (kind : DeferKind) (expr : Node)
  | ifThen (condition : Node) (payload : Option String) (thenBranch : Node)
      (elseBranch : Option Node)
  | whileLoop (label : Option String) (condition : Node) (payload : Option String)
      (continueExpr : Option Node) (body : Node) (elseBranch : Option Node) (isInline : Bool)
  | forLoop (label : Option String) (iterable : Node) (item : String) (index : Option String)
      (body : Node) (elseBranch : Option Node) (isInline : Bool)
  | breakTo (label : Option String) (value : Option Node)
  | continueTo (label : Option String)
  | returnFrom (value : Option Node)
  | unreachable
  | suspend (body : Option Node)
  | asm (template : String) (isVolatile : Bool)
  | assign (target value : Node)
  | assignOp (op : BinaryOperator) (target value : Node)
  | binaryOp (op : BinaryOperator) (lhs rhs : Node)
  | unaryOp (op : UnaryOperator) (operand : Node)
  | call (callee : Node) (args : List Node) (modifier : CallModifier)
  | builtinCall (name : String) (args : List Node)
  | fieldAccess (container : Node) (field : String)
  | arrayAccess (array index : Node)
  | tryExpr (expr : Node)
  | catchExpr (lhs : Node) (payload : Option String) (rhs : Node)
  | structInit (typeExpr : Option Node) (fields : List FieldInit)
  | arrayInit (typeExpr : Option Node) (elements : List Node)
  | symbol (name : String)
  | intLiteral (value : Int)
  | floatLiteral (value : Float)
  | stringLiteral (value : String)
  | boolLiteral (value : Bool)
  | nullLiteral
  | undefinedLiteral
  | errorValue (name : String)

/-- The value given to one field by an initializer. -/
structure FieldInit where
  name : String
  value : Node

end

instance : Inhabited Node := ⟨⟨0, .nullLiteral, none, none⟩⟩
instance : Inhabited Kind := ⟨.nullLiteral⟩

namespace Kind

/-- The name of the construct. -/
def name : Kind → String
  | .root .. => "Root"
  | .fnDecl .. => "FnDecl"
  | .param .. => "Param"
  | .varDecl .. => "VarDecl"
  | .testDecl .. => "TestDecl"
  | .containerDecl .. => "ContainerDecl"
  | .containerField .. => "ContainerField"
  | .errorSetDecl .. => "ErrorSetDecl"
  | .block .. => "Block"
  | .comptime .. => "Comptime"
  | .deferred .. => "Defer"
  | .ifThen .. => "If"
  | .whileLoop .. => "While"
  | .forLoop .. => "For"
  | .breakTo .. => "Break"
  | .continueTo .. => "Continue"
  | .returnFrom .. => "Return"
  | .unreachable => "Unreachable"
  | .suspend .. => "Suspend"
  | .asm .. => "Asm"
  | .assign .. => "Assign"
  | .assignOp .. => "AssignOp"
  | .binaryOp .. => "BinaryOp"
  | .unaryOp .. => "UnaryOp"
  | .call .. => "Call"
  | .builtinCall .. => "BuiltinCall"
  | .fieldAccess .. => "FieldAccess"
  | .arrayAccess .. => "ArrayAccess"
  | .tryExpr .. => "Try"
  | .catchExpr .. => "Catch"
  | .structInit .. => "StructInit"
  | .arrayInit .. => "ArrayInit"
  | .symbol .. => "Symbol"
  | .intLiteral .. => "IntLiteral"
  | .floatLiteral .. => "FloatLiteral"
  | .stringLiteral .. => "StringLiteral"
  | .boolLiteral .. => "BoolLiteral"
  | .nullLiteral => "NullLiteral"
  | .undefinedLiteral => "UndefinedLiteral"
  | .errorValue .. => "ErrorValue"

/-- The expressions that, as statements, are expected to have an effect.  Declarations,
assignments and control flow are statements by nature and do not count. -/
def isExpressionStatement : Kind → Bool
  | .binaryOp .. | .unaryOp .. | .call .. | .builtinCall .. | .fieldAccess .. | .arrayAccess ..
  | .tryExpr .. | .catchExpr .. | .structInit .. | .arrayInit .. | .symbol .. | .intLiteral ..
  | .floatLiteral .. | .stringLiteral .. | .boolLiteral .. | .nullLiteral | .undefinedLiteral
  | .errorValue .. => true
  | _ => false

/-- The expressions that designate storage and may be assigned to. -/
def isPlace : Kind → Bool
  | .symbol .. | .fieldAccess .. | .arrayAccess .. => true
  | .unaryOp op _ => op = .deref
  | _ => false

/-- The constructs that may stand at the top level of a file. -/
def isDeclaration : Kind → Bool
  | .fnDecl .. | .varDecl .. | .testDecl .. | .comptime .. => true
  | _ => false

end Kind

namespace Node

/-- The name that a declaration or a file gives itself. -/
def declName? (node : Node) : Option String :=
  match node.kind with
  | .fnDecl name .. | .varDecl name .. | .root name .. => some name
  | .testDecl name .. => name
  | _ => none

/-- The node as it is shown: its construct, its number and its place. -/
def text (node : Node) : String :=
  let place := (node.location.map fun l => " @ " ++ l.text).getD ""
  s!"{node.kind.name}#{node.id}{place}"

/-- The declarations of a file; any other node stands for itself. -/
def topLevel (node : Node) : List Node :=
  match node.kind with
  | .root _ decls => decls
  | _ => [node]

/-- The name of a member of an error set, which is written as a symbol or as a field. -/
def memberName? (node : Node) : Option String :=
  match node.kind with
  | .symbol name | .containerField name .. => some name
  | _ => none

/-- A member of an error set as a symbol. -/
inductive MemberSymbol where
  /-- The member is written as a symbol. -/
  | written
  /-- The member is written as a field, and a symbol is made at its place. -/
  | made (symbol : Node)

/-- A member of an error set as a symbol; `fresh` is the number for a node that has to be
made. -/
def memberSymbol? (node : Node) (fresh : Nat) : Option MemberSymbol :=
  match node.kind with
  | .symbol _ => some .written
  | .containerField name .. => some (.made ⟨fresh, .symbol name, node.location, node.span⟩)
  | _ => none

end Node

end SourceIr
