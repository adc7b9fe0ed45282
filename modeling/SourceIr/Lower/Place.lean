import SourceIr.Lower.Monad

/-!
# Names and places

What an identifier stands for, and the address that an assignable expression designates.
-/

namespace SourceIr.Lower

/-- Lowers an identifier to its value, or with `lval` to its address. -/
def lowerSymbol (node : Node) (name : String) (scope : ScopeId) (lval : Bool) :
    LowerM InstId := do
  if name = "_" then
    failAt .invalidConstruct "'_' used as an identifier without '_ = ' assignment"
      "lower_symbol" node
  else if isPrimitiveType name then
    if lval then
      failAt .invalidConstruct s!"cannot assign to primitive type '{name}'" "lower_symbol" node
    else emit (.const (.type name)) scope node.location
  else
    let scopes ← scopesFrom scope
    match scopes.lookup scope name (← read).table with
    | some (.var var) =>
      if (← get).failedVars.contains var then throw .poisoned
      else
        let ptr ← emit (.varPtr var) scope node.location
        if lval then return ptr else emit (.loadPtr ptr) scope node.location
    | some (.decl decl) => emit (.declRef decl name lval) scope node.location
    | none =>
      failAt .unresolvedName s!"use of undeclared identifier '{name}'" "lower_symbol" node

/-- Lowers an assignable expression to the address that it designates.  The base of a field or an
element is its own address when it has one, and its value otherwise. -/
def lowerPlace (parts : Parts) (scope : ScopeId) (node : Node) : LowerM InstId :=
  match node with
  | ⟨id, .symbol name, location, span⟩ =>
    lowerSymbol ⟨id, .symbol name, location, span⟩ name scope true
  | ⟨_, .fieldAccess container field, location, _⟩ => do
    let base ← if container.kind.isPlace then lowerPlace parts scope container
      else parts.value container scope
    emit (.fieldPtr base field) scope location
  | ⟨_, .arrayAccess array index, location, _⟩ => do
    let base ← if array.kind.isPlace then lowerPlace parts scope array
      else parts.value array scope
    let index ← parts.value index scope
    emit (.elemPtr base index) scope location
  | ⟨_, .unaryOp .deref operand, _, _⟩ => parts.value operand scope
  | node => failAt .invalidConstruct "invalid left-hand side to assignment" "lower_lval" node

end SourceIr.Lower
