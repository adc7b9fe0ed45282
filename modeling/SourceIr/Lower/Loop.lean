import SourceIr.Lower.Branch

/-!
# Loops

A loop has five blocks: its test, its body, what runs after the body and on `continue`, the
branch for when the test fails, and the end, where the values of `break` arrive.  An inline loop
is unrolled at compile time, so all its branches are evaluated then.
-/

namespace SourceIr.Lower

/-- The blocks of a loop. -/
structure LoopBlocks where
  test : BlockId
  body : BlockId
  step : BlockId
  orElse : BlockId
  stop : BlockId

/-- Adds the blocks of a loop to the current stream. -/
def newLoop (word : String) : LowerM LoopBlocks := do
  let test ← newBlock s!"{word}.cond"
  let body ← newBlock s!"{word}.body"
  let step ← newBlock s!"{word}.continue"
  let orElse ← newBlock s!"{word}.else"
  let stop ← newBlock s!"{word}.end"
  return { test, body, step, orElse, stop }

/-- Opens the scope of a loop with its break sink. -/
def enterLoop (scope : ScopeId) (label : Option String) (blocks : LoopBlocks) (loc : ResultLoc) :
    LowerM ScopeId := do
  let loopScope ← openScope scope (.loop label blocks.stop blocks.step)
  openSink loopScope loc
  return loopScope

/-- Jumps to a block of a loop, unless control does not get that far. -/
def jumpUnlessTerminated (target : BlockId) (node : Node) (scope : ScopeId) (force : Bool) :
    LowerM PUnit := do
  if !(← isTerminated) then
    let _ ← emitWith (.br target) scope node.location force true

/-- Lowers the branch for when the test fails, and joins its value with those of `break`. -/
def finishLoop (parts : Parts) (node : Node) (loopScope : ScopeId) (elseBranch : Option Node)
    (blocks : LoopBlocks) (scope : ScopeId) (loc : ResultLoc) (force : Bool) : LowerM InstId := do
  goto blocks.orElse
  let value ← lowerElse parts node elseBranch scope loc
  let incoming ← closeSink loopScope
  let incoming ← branchInto blocks.stop incoming value scope force
  joinAt blocks.stop incoming scope node

/-- Lowers `while (condition) |payload| : (continueExpr) body else elseBranch`. -/
def lowerWhile (parts : Parts) (node : Node) (label : Option String) (condition : Node)
    (payload : Option String) (continueExpr : Option Node) (body : Node)
    (elseBranch : Option Node) (isInline : Bool) (scope : ScopeId) (loc : ResultLoc) :
    LowerM InstId := do
  let loc ← settle loc scope node.location
  let blocks ← newLoop "while"
  let _ ← emitWith (.br blocks.test) scope node.location isInline true
  goto blocks.test
  let cond ← parts.value condition scope
  let test ← emitTest node payload cond scope
  let _ ← emitWith (.condBr test blocks.body blocks.orElse) scope node.location isInline false
  goto blocks.body
  let loopScope ← enterLoop scope label blocks loc
  let bodyScope ← enterBranch node payload cond loopScope
  let _ ← parts.expr body bodyScope .discard
  jumpUnlessTerminated blocks.step node scope isInline
  goto blocks.step
  match continueExpr with
  | some expr => let _ ← parts.expr expr bodyScope .discard
  | none => pure ⟨⟩
  jumpUnlessTerminated blocks.test node scope isInline
  finishLoop parts node loopScope elseBranch blocks scope loc isInline

/-- The request for the index of a loop, which may be left without a name. -/
def indexRequest (index : Option String) (location : Option Location) (value : InstId) :
    BindingRequest :=
  (match index with
    | some name => BindingRequest.named name location
    | none => BindingRequest.synthesized none location).withComptime (.pending value)

/-- Lowers the step of a `for` loop: its index grows by one. -/
def stepIndex (ptr : InstId) (node : Node) (scope : ScopeId) : LowerM PUnit := do
  let current ← emitGen (.loadPtr ptr) scope node.location
  let one ← emitGen (.const (.int 1)) scope node.location
  let next ← emitGen (.binOp .add current one) scope node.location
  let _ ← emitGen (.storePtr ptr next) scope node.location

/-- Lowers `for (iterable) |item, index| body else elseBranch`. -/
def lowerFor (parts : Parts) (node : Node) (label : Option String) (iterable : Node)
    (item : String) (index : Option String) (body : Node) (elseBranch : Option Node)
    (isInline : Bool) (scope : ScopeId) (loc : ResultLoc) : LowerM InstId := do
  let loc ← settle loc scope node.location
  let array ← parts.value iterable scope
  let lengthPtr ← emitGen (.fieldPtr array "len") scope node.location
  let length ← emitGen (.loadPtr lengthPtr) scope node.location
  let indexPtr ← emitWith (.alloca index none isInline) scope node.location isInline true
  let zero ← emitGen (.const (.int 0)) scope node.location
  let _ ← emitGen (.storePtr indexPtr zero) scope node.location
  let blocks ← newLoop "for"
  let _ ← emitWith (.br blocks.test) scope node.location isInline true
  goto blocks.test
  let position ← emitGen (.loadPtr indexPtr) scope node.location
  let inBounds ← emitGen (.binOp .lt position length) scope node.location
  let _ ← emitWith (.condBr inBounds blocks.body blocks.orElse) scope node.location isInline true
  goto blocks.body
  let loopScope ← enterLoop scope label blocks loc
  let elementPtr ← emitGen (.elemPtr array position) loopScope node.location
  let element ← emitGen (.loadPtr elementPtr) loopScope node.location
  let bodyScope ← bindPayload loopScope item element node
  let indexVar ← declare bodyScope (indexRequest index node.location position)
  let _ ← emitGen (.declVar indexVar indexPtr) bodyScope node.location
  let _ ← parts.expr body bodyScope .discard
  jumpUnlessTerminated blocks.step node scope isInline
  goto blocks.step
  stepIndex indexPtr node scope
  let _ ← emitWith (.br blocks.test) scope node.location isInline true
  finishLoop parts node loopScope elseBranch blocks scope loc isInline

end SourceIr.Lower
