import SourceIr.Lower.Expr

/-!
# Functions and initializers

What a unit consists of: the parameters, the return type and the body of a function, or the
initializer of a declaration at the top level.
-/

namespace SourceIr.Lower

/-- A function or a test, as it is lowered. -/
structure FnParts where
  params : List Node
  returnType : Option Node
  body : Option Node

/-- The parts of a function or a test. -/
def FnParts.ofNode? (node : Node) : Option FnParts :=
  match node.kind with
  | .fnDecl _ params returnType body _ _ => some ⟨params, returnType, body⟩
  | .testDecl _ body => some ⟨[], none, some body⟩
  | _ => none

/-- Lowers the type of a parameter or of the result. -/
def lowerSignatureType (parts : Parts) (type : Option Node) (fnScope : ScopeId) :
    LowerM PUnit := do
  let _ ← parts.comptimeValue? type fnScope

/-- Declares the parameter at a position.  The name `_` declares nothing. -/
def declareParam (node : Node) (name : Option String) (isComptime : Bool) (index : Nat)
    (fnScope : ScopeId) : LowerM PUnit := do
  match name with
  | none | some "_" => return ⟨⟩
  | some name =>
    let ptr ← emitGen (.argPtr index) fnScope node.location
    let var ← declare fnScope
      (((BindingRequest.named name node.location).constness true true).withComptime
        (.known isComptime))
    let _ ← emitGen (.declVar var ptr) fnScope node.location

/-- Lowers the parameters from the one at `index` on. -/
def lowerParams (parts : Parts) (fnScope : ScopeId) (index : Nat) : List Node → LowerM PUnit
  | [] => return ⟨⟩
  | node :: rest => do
    match node.kind with
    | .param name typeExpr isComptime =>
      lowerSignatureType parts typeExpr fnScope
      declareParam node name isComptime index fnScope
      lowerParams parts fnScope (index + 1) rest
    | _ => lowerParams parts fnScope (index + 1) rest

/-- Lowers a function.  Where the end of the body is reached, the function returns without a
value; a function without a body has nothing to return from. -/
def lowerFunction (node : Node) (fn : FnParts) (name : String) (parent : ScopeId) :
    LowerM PUnit := do
  let parts ← outermost
  let fnScope ← openScope parent (.fnDef name)
  lowerParams parts fnScope 0 fn.params
  lowerSignatureType parts fn.returnType fnScope
  match fn.body with
  | none => return ⟨⟩
  | some body =>
    let _ ← parts.expr body fnScope .discard
    if !(← isTerminated) then
      let _ ← emitGen (.ret none) fnScope node.location

/-- Lowers an expression as a unit, which returns its value. -/
def lowerBody (node : Node) (scope : ScopeId) : LowerM PUnit := do
  let parts ← outermost
  let value ← parts.value node scope
  if !(← isTerminated) then
    let _ ← emitGen (.ret (some value)) scope node.location

/-- Lowers the type of a variable at the top level. -/
def lowerGlobalType (type : Option Node) (scope : ScopeId) : LowerM PUnit := do
  match type with
  | none => return ⟨⟩
  | some type =>
    let parts ← outermost
    let _ ← parts.value type scope

/-- Lowers the initializer of a variable at the top level. -/
def lowerGlobal (node : Node) (name : String) (type init : Option Node) (scope : ScopeId) :
    LowerM PUnit := do
  lowerGlobalType type scope
  match init with
  | none =>
    failAt .invalidConstruct s!"variables must be initialized: '{name}'" "generate" node
  | some init =>
    setNameHint init name
    lowerBody init scope

end SourceIr.Lower
