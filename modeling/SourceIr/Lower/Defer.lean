import SourceIr.Lower.Monad

/-!
# Deferred expressions

A `defer` statement only remembers its expression.  The expression is lowered anew at every exit
from its block, in a scope next to the statement: it sees what the statement saw.
-/

namespace SourceIr.Lower

/-- The ways to leave a scope: on an error, the `errdefer` expressions run too. -/
inductive ExitPath where
  | normal
  | error
  deriving DecidableEq, Repr

/-- Whether a deferred expression of this kind runs on a path. -/
def ExitPath.runs : ExitPath → DeferKind → Bool
  | .normal, .error => false
  | _, _ => true

/-- Remembers the expression of a `defer` statement. -/
def remember (scope : ScopeId) (expr : Node) : LowerM PUnit :=
  modify fun s => { s with deferred := (scope, expr) :: s.deferred }

/-- Lowers the expression of one `defer` statement. -/
def runDefer (parts : Parts) (scope : ScopeId) (expr : Node) : LowerM PUnit := do
  let parent := (← scopeAt scope).parent
  let body ← openScope (parent.getD scope) .deferredBody
  let _ ← parts.expr expr body .discard

/-- Lowers the deferred expressions of these scopes one after the other.  What follows an
expression that does not complete is left out. -/
def runDefersIn (parts : Parts) (path : ExitPath) :
    List (ScopeId × DeferKind) → LowerM PUnit
  | [] => return ⟨⟩
  | (scope, kind) :: rest => do
    let expr? := (← get).deferred.lookup scope
    match if path.runs kind then expr? else none with
    | none => runDefersIn parts path rest
    | some expr =>
      runDefer parts scope expr
      if ← isTerminated then return ⟨⟩ else runDefersIn parts path rest

/-- Lowers the deferred expressions that are passed on the way from a scope to a target, or out of
the function if there is none, innermost first. -/
def runDefers (parts : Parts) (scope : ScopeId) (target : Option ScopeId) (path : ExitPath) :
    LowerM PUnit := do
  runDefersIn parts path ((← scopesFrom scope).defersUntil scope target)

end SourceIr.Lower
