import SourceIr.Inst.Effect
import SourceIr.Lower.Defer
import SourceIr.Lower.Place
import SourceIr.Lower.Result

/-!
# Statements

Blocks and what may stand in them: local variables, assignments, `defer`, and expressions whose
value is not used.  A statement returns the scope of the statements after it, which is a new one
after a `defer`.
-/

namespace SourceIr.Lower

/-- Lowers the statements of a block from the scope `current` on, and returns the scope after the
last one.  `failed` says that a statement before them has failed; then the block fails in the
end, after the diagnostics of the other statements have been collected. -/
def lowerStatements (parts : Parts) (current : ScopeId) (failed : Bool) :
    List Node → LowerM ScopeId
  | [] => if failed then throw .poisoned else return current
  | statement :: rest => do
    if ← isTerminated then
      warnAt .unreachableCode "unreachable code" statement
      if failed then throw .poisoned else return current
    else
      match ← attempt (parts.statement statement current) with
      | some next => lowerStatements parts next failed rest
      | none =>
        match (← read).options.errorPolicy with
        | .abort => throw .poisoned
        | .proceed => lowerStatements parts current true rest

/-- Lowers a block without a label.  Its value is that of the instruction that ends it, or
void. -/
def lowerPlainBlock (parts : Parts) (node : Node) (statements : List Node) (scope : ScopeId)
    (loc : ResultLoc) : LowerM InstId := do
  let block ← openScope scope (.block none none)
  let last ← lowerStatements parts block false statements
  if !(← isTerminated) then runDefers parts last (some block) .normal
  let terminated ← isTerminated
  let stream := (← get).stream
  match if terminated then stream.last? else none with
  | some stop => return stop
  | none =>
    let void ← emitVoid scope node.location
    deliver void loc scope node.location

/-- The end of a block or loop that values flow into: the value that arrives, or none if control
never does. -/
def joinAt (stop : BlockId) (incoming : List (BlockId × InstId)) (scope : ScopeId)
    (node : Node) : LowerM InstId := do
  goto stop
  if incoming.isEmpty then emitGen .unreachable scope node.location
  else emitGen (.phi incoming) scope node.location

/-- Lowers a block with a label.  Its value is what the `break` that leaves it carries, or void at
its end. -/
def lowerLabelledBlock (parts : Parts) (node : Node) (label : String) (statements : List Node)
    (scope : ScopeId) (loc : ResultLoc) : LowerM InstId := do
  let loc ← settle loc scope node.location
  let stop ← newBlock s!"{label}.end"
  let block ← openScope scope (.block (some label) (some stop))
  openSink block loc
  let last ← lowerStatements parts block false statements
  if !(← isTerminated) then
    runDefers parts last (some block) .normal
    if !(← isTerminated) then
      let void ← emitVoid scope node.location
      flowInto block void
      let _ ← emitGen (.br stop) scope node.location
  joinAt stop (← closeSink block) scope node

/-- Lowers a block. -/
def lowerBlock (parts : Parts) (node : Node) (label : Option String) (statements : List Node)
    (scope : ScopeId) (loc : ResultLoc) : LowerM InstId :=
  match label with
  | none => lowerPlainBlock parts node statements scope loc
  | some label => lowerLabelledBlock parts node label statements scope loc

/-- Declares a variable whose type or initializer has failed, so that its uses fail without a
diagnostic of their own, and fails.  A name that is taken is left to what takes it. -/
def declareFailed {α : Type} (node : Node) (name : String) (scope : ScopeId) : LowerM α := do
  match ← declare? scope (.named name node.location) with
  | .ok var => modify fun s => { s with failedVars := var :: s.failedVars }
  | .error _ => pure ⟨⟩
  throw .poisoned

/-- Runs a routine for a part of a variable's declaration; if it fails, so does the
declaration. -/
def orDeclareFailed {α : Type} (x : LowerM α) (node : Node) (name : String) (scope : ScopeId) :
    LowerM α := do
  match ← attempt x with
  | some a => return a
  | none => declareFailed node name scope

/-- Lowers a local variable: storage, the initializer written into it, and the declaration. -/
def lowerLocalVar (parts : Parts) (node : Node) (name : String) (isConst isComptime : Bool)
    (typeExpr init : Option Node) (scope : ScopeId) : LowerM PUnit := do
  let forced := (← scopesFrom scope).isForcedComptime scope
  let isComptimeVar := isComptime || forced
  let typeInst ← orDeclareFailed (parts.comptimeValue? typeExpr scope) node name scope
  match init with
  | none =>
    orDeclareFailed
      (failAt .invalidConstruct s!"variables must be initialized: '{name}'" "lower_local_var" node)
      node name scope
  | some init =>
    let ptr ← emit (.alloca (some name) typeInst isComptimeVar) scope node.location
    setNameHint init name
    let initScope ← if isComptime && !forced then openScope scope .comptime else pure scope
    let value ← orDeclareFailed (parts.expr init initScope (.existing ptr)) node name scope
    let status : ComptimeStatus := if isComptimeVar then .known true else .pending value
    let var ← declare scope
      (((BindingRequest.named name node.location).constness isConst
        (isConst || isComptimeVar)).withComptime status)
    let _ ← emit (.declVar var ptr) scope node.location

/-- Fails because what stands left of an assignment cannot be assigned to. -/
def failTarget {α : Type} (target : Node) : LowerM α :=
  failAt .invalidConstruct "invalid left-hand side to assignment" "lower_assign" target

/-- Lowers `target = value`.  Assigning to `_` drops the value. -/
def lowerAssign (parts : Parts) (target value : Node) (scope : ScopeId) : LowerM PUnit := do
  if target.kind matches .symbol "_" then
    let _ ← parts.expr value scope .discard
  else if !target.kind.isPlace then failTarget target
  else
    let ptr ← lowerPlace parts scope target
    let _ ← parts.expr value scope (.existing ptr)

/-- Lowers `target op= value`. -/
def lowerAssignOp (parts : Parts) (node : Node) (op : BinaryOperator) (target value : Node)
    (scope : ScopeId) : LowerM PUnit := do
  if !target.kind.isPlace || op.isLogical then failTarget target
  else
    let ptr ← lowerPlace parts scope target
    let current ← emit (.loadPtr ptr) scope node.location
    let operand ← parts.value value scope
    let combined ← emit (.binOp op current operand) scope node.location
    let _ ← emit (.storePtr ptr combined) scope node.location

/-- Whether an instruction from the position `start` on has an effect. -/
def hasEffectSince (start : Nat) : LowerM Bool := do
  let insts := (← get).stream.insts
  stopAt (if start ≤ insts.size then none else some (.startOutOfRange insts.size start))
  return (insts.toList.drop start).any (·.kind.hasSideEffects)

/-- Lowers an expression as a statement.  It must have no value, and it is expected to have an
effect. -/
def lowerExprStatement (parts : Parts) (node : Node) (scope : ScopeId) : LowerM PUnit := do
  let start := (← get).stream.insts.size
  let value ← parts.expr node scope .discard
  if !(← isTerminated) then
    let effectful ← hasEffectSince start
    if (← read).options.warnNoEffect && !effectful then
      warnAt .noEffect "statement has no effect" node
    let _ ← emitGen (.checkStatementIsVoid value) scope node.location

/-- Lowers a statement, and returns the scope of the statements after it. -/
def lowerStatement (parts : Parts) (node : Node) (scope : ScopeId) : LowerM ScopeId := do
  match node.kind with
  | .varDecl name isConst isComptime typeExpr init =>
    lowerLocalVar parts node name isConst isComptime typeExpr init scope
    return scope
  | .deferred kind expr =>
    let after ← openScope scope (.deferred kind)
    remember after expr
    return after
  | .assign target value =>
    lowerAssign parts target value scope
    return scope
  | .assignOp op target value =>
    lowerAssignOp parts node op target value scope
    return scope
  | kind =>
    if kind.isExpressionStatement then lowerExprStatement parts node scope
    else
      let _ ← parts.expr node scope .discard
    return scope

end SourceIr.Lower
