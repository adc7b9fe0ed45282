import SourceIr.Lower.Aggregate
import SourceIr.Lower.Call
import SourceIr.Lower.Comptime
import SourceIr.Lower.Jump
import SourceIr.Lower.Loop

/-!
# Expressions

Every construct is lowered in the scope it is evaluated in and for the result location that its
user has chosen.  `lowerExpr` picks the routine for a construct and gives it the routines for
its parts; `nested` ties the knot, one level of nesting at a time, and refuses what is nested more
deeply than the options allow.
-/

namespace SourceIr.Lower

/-- Lowers an operator with one operand. -/
def lowerUnary (parts : Parts) (node : Node) (op : UnaryOperator) (operand : Node)
    (scope : ScopeId) (loc : ResultLoc) : LowerM InstId := do
  match op with
  | .addressOf =>
    if operand.kind.isPlace then
      deliver (← lowerPlace parts scope operand) loc scope node.location
    else
      let value ← parts.value operand scope
      emitTo (.ref value) scope node.location loc
  | .deref =>
    let ptr ← parts.value operand scope
    emitTo (.loadPtr ptr) scope node.location loc
  | .optionalUnwrap =>
    let value ← parts.value operand scope
    emitTo (.optionalUnwrap value true) scope node.location loc
  | .negate | .boolNot | .bitNot =>
    let value ← parts.value operand scope
    emitTo (.unOp op value) scope node.location loc

/-- Lowers an operator with two operands. -/
def lowerBinary (parts : Parts) (node : Node) (op : BinaryOperator) (lhs rhs : Node)
    (scope : ScopeId) (loc : ResultLoc) : LowerM InstId := do
  match op with
  | .boolAnd | .boolOr => lowerShortCircuit parts node op lhs rhs scope loc
  | .orElse => lowerOrElse parts node lhs rhs scope loc
  | _ =>
    let left ← parts.value lhs scope
    let right ← parts.value rhs scope
    emitTo (.binOp op left right) scope node.location loc

/-- Lowers inline assembly, which cannot be evaluated at compile time. -/
def lowerAsm (node : Node) (template : String) (isVolatile : Bool) (scope : ScopeId)
    (loc : ResultLoc) : LowerM InstId := do
  if (← scopesFrom scope).isForcedComptime scope then
    failAt .forcedComptimeViolation "unable to evaluate inline assembly at compile time"
      "lower_expr" node
  else emitTo (.asm template isVolatile) scope node.location loc

/-- Lowers the value at a place. -/
def lowerLoad (parts : Parts) (node : Node) (scope : ScopeId) (loc : ResultLoc) :
    LowerM InstId := do
  let ptr ← lowerPlace parts scope node
  emitTo (.loadPtr ptr) scope node.location loc

/-- Lowers an expression with the routines for its parts. -/
def lowerExpr (parts : Parts) (node : Node) (scope : ScopeId) (loc : ResultLoc) :
    LowerM InstId := do
  match node.kind with
  | .intLiteral value => emitTo (.const (.int value)) scope node.location loc
  | .floatLiteral value => emitTo (.const (.float value)) scope node.location loc
  | .stringLiteral value => emitTo (.const (.str value)) scope node.location loc
  | .boolLiteral value => emitTo (.const (.bool value)) scope node.location loc
  | .nullLiteral => emitTo (.const .null) scope node.location loc
  | .undefinedLiteral => emitTo (.const .undefined) scope node.location loc
  | .errorValue name => emitTo (.errorValue name) scope node.location loc
  | .symbol name => deliver (← lowerSymbol node name scope false) loc scope node.location
  | .fieldAccess .. | .arrayAccess .. => lowerLoad parts node scope loc
  | .unaryOp op operand => lowerUnary parts node op operand scope loc
  | .binaryOp op lhs rhs => lowerBinary parts node op lhs rhs scope loc
  | .call callee args modifier => lowerCall parts node callee args modifier scope loc
  | .builtinCall name args => lowerBuiltinCall parts node name args scope loc
  | .containerDecl kind fields decls => lowerContainer parts node kind fields decls scope loc
  | .errorSetDecl members => lowerErrorSet node members scope loc
  | .structInit typeExpr fields => lowerStructInit parts node typeExpr fields scope loc
  | .arrayInit typeExpr elements => lowerArrayInit parts node typeExpr elements scope loc
  | .block label statements => lowerBlock parts node label statements scope loc
  | .assign target value =>
    lowerAssign parts target value scope
    emitVoid scope node.location
  | .assignOp op target value =>
    lowerAssignOp parts node op target value scope
    emitVoid scope node.location
  | .ifThen condition payload thenBranch elseBranch =>
    lowerIf parts node condition payload thenBranch elseBranch scope loc
  | .whileLoop label condition payload continueExpr body elseBranch isInline =>
    lowerWhile parts node label condition payload continueExpr body elseBranch isInline scope loc
  | .forLoop label iterable item index body elseBranch isInline =>
    lowerFor parts node label iterable item index body elseBranch isInline scope loc
  | .breakTo label value => lowerBreak parts node label value scope
  | .continueTo label => lowerContinue parts node label scope
  | .returnFrom value => lowerReturn parts node value scope
  | .tryExpr expr => lowerTry parts node expr scope loc
  | .catchExpr lhs payload rhs => lowerCatch parts node lhs payload rhs scope loc
  | .comptime expr => lowerComptime parts node expr scope loc
  | .suspend body => lowerSuspend parts node body scope
  | .unreachable => emit .unreachable scope node.location
  | .asm template isVolatile => lowerAsm node template isVolatile scope loc
  | .varDecl .. | .deferred .. =>
    failAt .invalidConstruct s!"{node.kind.name} is only allowed as a statement" "lower_expr" node
  | .root .. | .fnDecl .. | .param .. | .testDecl .. | .containerField .. =>
    failAt .invalidConstruct s!"unexpected {node.kind.name} in expression" "lower_expr" node

/-- Fails on a node that is nested too deeply. -/
def failDepth {α : Type} (node : Node) : LowerM α := do
  let limit := (← read).options.maxDepth
  failAt .recursionLimitExceeded s!"expression nesting exceeds the limit of {limit}"
    "lower_expr" node

/-- The routines for parts when `levels` more levels of nesting are allowed. -/
def nested : (levels : Nat) → Parts
  | 0 =>
    { expr := fun node _ _ => failDepth node
      statement := fun node _ => failDepth node }
  | levels + 1 =>
    { expr := fun node scope loc => lowerExpr (nested levels) node scope loc
      statement := fun node scope => lowerStatement (nested levels) node scope }

/-- The routines at the start of a unit. -/
def outermost : LowerM Parts := return nested (← read).options.maxDepth

end SourceIr.Lower
