import SourceIr.Syntax.Node

/-!
# Writing a syntax tree

A node is an object with its construct and its place; the number of the node is left out.  A
construct without fields is its name, any other an object with the name and all fields in their
declared order, where a part that is absent is `null`.
-/

namespace SourceIr

mutual

/-- A node with its place. -/
def Node.toJson : Node → Json
  | ⟨_, kind, location, span⟩ =>
    .obj [("kind", kind.toJson), ("location", encode location), ("span", encode span)]

/-- A construct with its fields. -/
def Kind.toJson : Kind → Json
  | .root name decls => .variant "Root" [("name", encode name), ("decls", .arr (nodesToJson decls))]
  | .fnDecl name params returnType body isInline isExport => .variant "FnDecl"
      [("name", encode name), ("params", .arr (nodesToJson params)),
       ("return_type", optionToJson returnType), ("body", optionToJson body),
       ("is_inline", encode isInline), ("is_export", encode isExport)]
  | .param name typeExpr isComptime => .variant "Param"
      [("name", encode name), ("type_expr", optionToJson typeExpr),
       ("is_comptime", encode isComptime)]
  | .varDecl name isConst isComptime typeExpr init => .variant "VarDecl"
      [("name", encode name), ("is_const", encode isConst), ("is_comptime", encode isComptime),
       ("type_expr", optionToJson typeExpr), ("init", optionToJson init)]
  | .testDecl name body => .variant "TestDecl" [("name", encode name), ("body", body.toJson)]
  | .containerDecl kind fields decls => .variant "ContainerDecl"
      [("kind", encode kind), ("fields", .arr (nodesToJson fields)),
       ("decls", .arr (nodesToJson decls))]
  | .containerField name typeExpr defaultValue => .variant "ContainerField"
      [("name", encode name), ("type_expr", optionToJson typeExpr),
       ("default_value", optionToJson defaultValue)]
  | .errorSetDecl members => .variant "ErrorSetDecl" [("members", .arr (nodesToJson members))]
  | .block label statements => .variant "Block"
      [("label", encode label), ("statements", .arr (nodesToJson statements))]
  | .comptime expr => .variant "Comptime" [("expr", expr.toJson)]
  | .deferred kind expr => .variant "Defer" [("kind", encode kind), ("expr", expr.toJson)]
  | .ifThen condition payload thenBranch elseBranch => .variant "If"
      [("condition", condition.toJson), ("payload", encode payload),
       ("then_branch", thenBranch.toJson), ("else_branch", optionToJson elseBranch)]
  | .whileLoop label condition payload continueExpr body elseBranch isInline => .variant "While"
      [("label", encode label), ("condition", condition.toJson), ("payload", encode payload),
       ("continue_expr", optionToJson continueExpr), ("body", body.toJson),
       ("else_branch", optionToJson elseBranch), ("is_inline", encode isInline)]
  | .forLoop label iterable item index body elseBranch isInline => .variant "For"
      [("label", encode label), ("iterable", iterable.toJson), ("item", encode item),
       ("index", encode index), ("body", body.toJson), ("else_branch", optionToJson elseBranch),
       ("is_inline", encode isInline)]
  | .breakTo label value => .variant "Break"
      [("label", encode label), ("value", optionToJson value)]
  | .continueTo label => .variant "Continue" [("label", encode label)]
  | .returnFrom value => .variant "Return" [("value", optionToJson value)]
  | .unreachable => .str "Unreachable"
  | .suspend body => .variant "Suspend" [("body", optionToJson body)]
  | .asm template isVolatile => .variant "Asm"
      [("template", encode template), ("is_volatile", encode isVolatile)]
  | .assign target value => .variant "Assign"
      [("target", target.toJson), ("value", value.toJson)]
  | .assignOp op target value => .variant "AssignOp"
      [("op", encode op), ("target", target.toJson), ("value", value.toJson)]
  | .binaryOp op lhs rhs => .variant "BinaryOp"
      [("op", encode op), ("lhs", lhs.toJson), ("rhs", rhs.toJson)]
  | .unaryOp op operand => .variant "UnaryOp" [("op", encode op), ("operand", operand.toJson)]
  | .call callee args modifier => .variant "Call"
      [("callee", callee.toJson), ("args", .arr (nodesToJson args)),
       ("modifier", encode modifier)]
  | .builtinCall name args => .variant "BuiltinCall"
      [("name", encode name), ("args", .arr (nodesToJson args))]
  | .fieldAccess container field => .variant "FieldAccess"
      [("container", container.toJson), ("field", encode field)]
  | .arrayAccess array index => .variant "ArrayAccess"
      [("array", array.toJson), ("index", index.toJson)]
  | .tryExpr expr => .variant "Try" [("expr", expr.toJson)]
  | .catchExpr lhs payload rhs => .variant "Catch"
      [("lhs", lhs.toJson), ("payload", encode payload), ("rhs", rhs.toJson)]
  | .structInit typeExpr fields => .variant "StructInit"
      [("type_expr", optionToJson typeExpr), ("fields", .arr (initsToJson fields))]
  | .arrayInit typeExpr elements => .variant "ArrayInit"
      [("type_expr", optionToJson typeExpr), ("elements", .arr (nodesToJson elements))]
  | .symbol name => .variant "Symbol" [("name", encode name)]
  | .intLiteral value => .variant "IntLiteral" [("value", encode value)]
  | .floatLiteral value => .variant "FloatLiteral" [("value", encode value)]
  | .stringLiteral value => .variant "StringLiteral" [("value", encode value)]
  | .boolLiteral value => .variant "BoolLiteral" [("value", encode value)]
  | .nullLiteral => .str "NullLiteral"
  | .undefinedLiteral => .str "UndefinedLiteral"
  | .errorValue name => .variant "ErrorValue" [("name", encode name)]

/-- The value given to a field. -/
def FieldInit.toJson : FieldInit → Json
  | ⟨name, value⟩ => .obj [("name", encode name), ("value", value.toJson)]

/-- A node that may be absent. -/
def optionToJson : Option Node → Json
  | none => .null
  | some node => node.toJson

/-- The nodes of a list. -/
def nodesToJson : List Node → List Json
  | [] => []
  | node :: rest => node.toJson :: nodesToJson rest

/-- The field initializers of a list. -/
def initsToJson : List FieldInit → List Json
  | [] => []
  | init :: rest => init.toJson :: initsToJson rest

end

instance : Encode Node := ⟨Node.toJson⟩

end SourceIr
