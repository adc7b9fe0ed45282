import SourceIr.Lower.Result

/-!
# Compile-time blocks and suspension

A compile-time block inside run-time code is a stream of its own, which the surrounding stream
holds as a child.  Where everything is evaluated at compile time already, the block is lowered in
place.  A `suspend` has no meaning at compile time.
-/

namespace SourceIr.Lower

/-- What tells the stream of a compile-time block apart: its position, or the number of its
node. -/
def comptimeSuffix (node : Node) : String :=
  match node.location with
  | some l => l.position
  | none => s!"#{node.id}"

/-- Runs a routine over a fresh stream, which becomes a child of the current one afterwards, and
returns its index with the outcome.  Jumps may not leave the scope it starts in. -/
def inChildStream {α : Type} (name : String) (root : ScopeId) (x : LowerM α) :
    LowerM (Nat × Option α) := do
  let outer ← get
  set { outer with stream := Stream.new name true, streamRoot := root, sinks := [] }
  let result ← attempt x
  let inner ← get
  let (index, stream) := outer.stream.addChild inner.stream
  let log :=
    match inner.stream.terminalDiagnostic? with
    | some m =>
      if inner.stream.isPoisoned && !outer.stream.isPoisoned then
        inner.log.push (.poisoned outer.stream.name m)
      else inner.log
    | none => inner.log
  set { inner with stream, streamRoot := outer.streamRoot, sinks := outer.sinks, log }
  return (index, result)

/-- Lowers the expression of a compile-time block as the body of its stream. -/
def lowerComptimeBody (parts : Parts) (node expr : Node) (scope : ScopeId) : LowerM PUnit := do
  let value ← parts.value expr scope
  if !(← isTerminated) then
    let _ ← emitGen (.ret (some value)) scope node.location

/-- Lowers `comptime expr`. -/
def lowerComptime (parts : Parts) (node expr : Node) (scope : ScopeId) (loc : ResultLoc) :
    LowerM InstId := do
  let inner ← openScope scope .comptime
  if ← isComptimeAt scope then parts.expr expr inner loc
  else
    let name := s!"{(← get).stream.name}.comptime:{comptimeSuffix node}"
    let (unit, result) ← inChildStream name inner
      (withFrame node.location "comptime block" (lowerComptimeBody parts node expr inner))
    match result with
    | none => throw .poisoned
    | some _ => emitTo (.comptimeBlock unit) scope node.location loc

/-- Fails where a `suspend` may not stand. -/
def checkSuspend (node : Node) (scope : ScopeId) : LowerM PUnit := do
  let scopes ← scopesFrom scope
  if (scopes.enclosingFn scope).isNone then
    failAt .invalidConstruct "suspend outside function definition" "lower_suspend" node
  else if scopes.inSuspend scope then
    failAt .invalidConstruct "cannot suspend inside suspend block" "lower_suspend" node
  else if ← isComptimeAt scope then
    failAt .forcedComptimeViolation "unable to evaluate suspend at compile time" "lower_suspend"
      node
  else return ⟨⟩

/-- Lowers `suspend body`. -/
def lowerSuspend (parts : Parts) (node : Node) (body : Option Node) (scope : ScopeId) :
    LowerM InstId := do
  checkSuspend node scope
  let start ← emit .suspendBegin scope node.location
  match body with
  | some body =>
    let inner ← openScope scope .suspend
    let _ ← parts.expr body inner .discard
  | none => pure ⟨⟩
  emit (.suspendFinish start) scope node.location

end SourceIr.Lower
