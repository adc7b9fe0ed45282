import SourceIr.Lower.Defer
import SourceIr.Lower.Result

/-!
# Jumps

Leaving a loop, a block or the function.  A jump runs the deferred expressions of the scopes it
leaves, and it may leave neither a deferred expression nor the stream of a compile-time block.
-/

namespace SourceIr.Lower

/-- Fails on a jump that would leave the stream. -/
def failLeaving {α : Type} (node : Node) : LowerM α :=
  failAt .invalidConstruct "control flow cannot leave a comptime block" "lower_control" node

/-- Whether the way from a scope to a target, or out of the function, leaves the current
stream. -/
def leavesStream (scope : ScopeId) (target : Option ScopeId) : LowerM Bool := do
  let scopes ← scopesFrom scope
  return scopes.leaves (← get).streamRoot scope target

/-- The last instruction, or the first one of an empty stream. -/
def lastInst : LowerM InstId := return ((← get).stream.last?).getD ⟨0⟩

/-- The scope that a `break` goes to; fails where it cannot go. -/
def breakScope (node : Node) (label : Option String) (scope : ScopeId) : LowerM ScopeId := do
  match (← scopesFrom scope).breakTarget scope label with
  | .found target => return target
  | .notInLoop => failAt .invalidConstruct "break expression outside loop" "lower_break" node
  | .unknownLabel l | .labelNotLoop l =>
    failAt .unresolvedName s!"label not found: '{l}'" "lower_break" node
  | .crossesDefer =>
    failAt .invalidConstruct "cannot break out of defer expression" "lower_break" node

/-- The scope that a `continue` goes to; fails where it cannot go. -/
def continueScope (node : Node) (label : Option String) (scope : ScopeId) : LowerM ScopeId := do
  match (← scopesFrom scope).continueTarget scope label with
  | .found target => return target
  | .notInLoop =>
    failAt .invalidConstruct "continue expression outside loop" "lower_continue" node
  | .labelNotLoop l =>
    failAt .invalidConstruct s!"continue target '{l}' is not a loop" "lower_continue" node
  | .unknownLabel l =>
    failAt .unresolvedName s!"label not found: '{l}'" "lower_continue" node
  | .crossesDefer =>
    failAt .invalidConstruct "cannot continue out of defer expression" "lower_continue" node

/-- Fails because a jump found something else than it expected. -/
def failMismatch {α : Type} (node : Node) (expected : String) : LowerM α :=
  failAt .invalidConstruct s!"expected {expected}, found {node.kind.name}" "lower_control" node

/-- The block in which a `break` to a scope ends. -/
def breakBlock? : ScopeKind → Option BlockId
  | .loop _ stop _ => some stop
  | .block _ stop => stop
  | _ => none

/-- The block in which a `continue` to a scope ends. -/
def continueBlock? : ScopeKind → Option BlockId
  | .loop _ _ step => some step
  | _ => none

/-- Lowers `break :label value`. -/
def lowerBreak (parts : Parts) (node : Node) (label : Option String) (value : Option Node)
    (scope : ScopeId) : LowerM InstId := do
  let target ← breakScope node label scope
  if ← leavesStream scope (some target) then failLeaving node
  else
    match breakBlock? (← scopeAt target).kind with
    | none => failMismatch node "loop or labeled block"
    | some stop =>
      let loc := ((← sink? target).map (·.resultLoc)).getD .none
      let v ←
        match value with
        | some value => parts.expr value scope loc
        | none => emitVoid scope node.location
      runDefers parts scope (some target) .normal
      if ← isTerminated then lastInst
      else
        flowInto target v
        emit (.br stop) scope node.location

/-- Lowers `continue :label`. -/
def lowerContinue (parts : Parts) (node : Node) (label : Option String) (scope : ScopeId) :
    LowerM InstId := do
  let target ← continueScope node label scope
  if ← leavesStream scope (some target) then failLeaving node
  else
    match continueBlock? (← scopeAt target).kind with
    | none => failMismatch node "loop"
    | some step =>
      runDefers parts scope (some target) .normal
      if ← isTerminated then lastInst else emit (.br step) scope node.location

/-- The ways to leave a function. -/
inductive FnExit where
  | byReturn
  | byTry
  deriving DecidableEq, Repr

namespace FnExit

/-- The keyword of the construct. -/
def keyword : FnExit → String
  | byReturn => "return"
  | byTry => "try"

/-- The message for the construct inside a deferred expression. -/
def insideDefer : FnExit → String
  | byReturn => "cannot return from defer expression"
  | byTry => "'try' not allowed inside defer expression"

end FnExit

/-- Fails where the function cannot be left: outside of any, inside a deferred expression, and
inside the stream of a compile-time block. -/
def checkFnExit (node : Node) (scope : ScopeId) (exit : FnExit) : LowerM PUnit := do
  let scopes ← scopesFrom scope
  if (scopes.enclosingFn scope).isNone then
    failAt .invalidConstruct s!"'{exit.keyword}' outside function scope" "lower_control" node
  else if scopes.inDeferredBody scope then
    failAt .invalidConstruct exit.insideDefer "lower_control" node
  else if ← leavesStream scope none then failLeaving node
  else return ⟨⟩

/-- Whether leaving the function from a scope passes an `errdefer`. -/
def passesErrDefer (scopes : ScopeTree) (scope : ScopeId) : Bool :=
  (scopes.defersUntil scope none).any (·.2 == .error)

/-- Emits the way out of the function for a value that turns out to be an error, and goes on with
the one for a value that does not. -/
def emitErrReturn (parts : Parts) (node : Node) (value : InstId) (scope : ScopeId) :
    LowerM PUnit := do
  let isErr ← emitGen (.isErr value) scope node.location
  let errBlock ← newBlock "ret.err"
  let okBlock ← newBlock "ret.ok"
  let _ ← emitGen (.condBr isErr errBlock okBlock) scope node.location
  goto errBlock
  runDefers parts scope none .error
  if !(← isTerminated) then
    let _ ← emit (.ret (some value)) scope node.location
  goto okBlock

/-- Lowers `return value`.  When an `errdefer` is passed, whether the value is an error decides
which deferred expressions run. -/
def lowerReturn (parts : Parts) (node : Node) (value : Option Node) (scope : ScopeId) :
    LowerM InstId := do
  checkFnExit node scope .byReturn
  let operand ←
    match value with
    | some value => some <$> parts.expr value scope .ret
    | none => pure none
  match if passesErrDefer (← scopesFrom scope) scope then operand else none with
  | some value => emitErrReturn parts node value scope
  | none => pure ⟨⟩
  runDefers parts scope none .normal
  if ← isTerminated then lastInst else emit (.ret operand) scope node.location

/-- Lowers `try expr`: the function returns the error, or the value goes on. -/
def lowerTry (parts : Parts) (node expr : Node) (scope : ScopeId) (loc : ResultLoc) :
    LowerM InstId := do
  checkFnExit node scope .byTry
  let value ← parts.value expr scope
  let isErr ← emit (.isErr value) scope node.location
  let errBlock ← newBlock "try.err"
  let okBlock ← newBlock "try.ok"
  let _ ← emitGen (.condBr isErr errBlock okBlock) scope node.location
  goto errBlock
  let code ← emitGen (.unwrapErrCode value) scope node.location
  runDefers parts scope none .error
  if !(← isTerminated) then
    let _ ← emitGen (.ret (some code)) scope node.location
  goto okBlock
  emitTo (.unwrapErrPayload value false) scope node.location loc

end SourceIr.Lower
