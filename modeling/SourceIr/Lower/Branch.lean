import SourceIr.Lower.Statement

/-!
# Branching expressions

Expressions that test a value and go on in one of two blocks.  They settle their result location
once, hand it to both branches, and join the values of the branches that reach the end.
-/

namespace SourceIr.Lower

/-- Binds the value that a branch captures, in a scope of its own.  The name `_` captures
nothing. -/
def bindPayload (parent : ScopeId) (name : String) (value : InstId) (node : Node) :
    LowerM ScopeId := do
  let scope ← openScope parent (.block none none)
  if name = "_" then return scope
  else
    let ptr ← emitGen (.alloca (some name) none false) scope node.location
    let _ ← emitGen (.storePtr ptr value) scope node.location
    let var ← declare scope ((BindingRequest.named name node.location).withComptime (.pending value))
    let _ ← emitGen (.declVar var ptr) scope node.location
    return scope

/-- Lets a value flow from the current block into the end of the construct, unless control does
not get that far, and adds it to the values that arrive there. -/
def branchInto (stop : BlockId) (incoming : List (BlockId × InstId)) (value : InstId)
    (scope : ScopeId) (force : Bool) : LowerM (List (BlockId × InstId)) := do
  if ← isTerminated then return incoming
  else
    let source ← currentBlock
    let _ ← emitWith (.br stop) scope none force true
    return incoming ++ [(source, value)]

/-- Lowers the branch that may be absent; its value is then void. -/
def lowerElse (parts : Parts) (node : Node) (branch : Option Node) (scope : ScopeId)
    (loc : ResultLoc) : LowerM InstId :=
  match branch with
  | some branch => parts.expr branch scope loc
  | none => emitVoid scope node.location

/-- The test that a condition stands for: with a capture, whether its value is there. -/
def emitTest (node : Node) (payload : Option String) (cond : InstId) (scope : ScopeId) :
    LowerM InstId :=
  match payload with
  | some _ => emitGen (.testNonNull cond) scope node.location
  | none => return cond

/-- The scope of the branch that is taken when a condition holds, with its capture if there is
one. -/
def enterBranch (node : Node) (payload : Option String) (cond : InstId) (scope : ScopeId) :
    LowerM ScopeId := do
  match payload with
  | some name =>
    let value ← emitGen (.optionalUnwrap cond false) scope node.location
    bindPayload scope name value node
  | none => return scope

/-- Lowers `if (condition) |payload| thenBranch else elseBranch`. -/
def lowerIf (parts : Parts) (node condition : Node) (payload : Option String) (thenBranch : Node)
    (elseBranch : Option Node) (scope : ScopeId) (loc : ResultLoc) : LowerM InstId := do
  let loc ← settle loc scope node.location
  let cond ← parts.value condition scope
  let thenBlock ← newBlock "if.then"
  let elseBlock ← newBlock "if.else"
  let stop ← newBlock "if.end"
  let test ← emitTest node payload cond scope
  let _ ← emit (.condBr test thenBlock elseBlock) scope node.location
  goto thenBlock
  let thenScope ← enterBranch node payload cond scope
  let value ← parts.expr thenBranch thenScope loc
  let incoming ← branchInto stop [] value scope false
  goto elseBlock
  let value ← lowerElse parts node elseBranch scope loc
  let incoming ← branchInto stop incoming value scope false
  joinAt stop incoming scope node

/-- Lowers `lhs catch |payload| rhs`. -/
def lowerCatch (parts : Parts) (node lhs : Node) (payload : Option String) (rhs : Node)
    (scope : ScopeId) (loc : ResultLoc) : LowerM InstId := do
  let loc ← settle loc scope node.location
  let value ← parts.value lhs scope
  let isErr ← emit (.isErr value) scope node.location
  let errBlock ← newBlock "catch.err"
  let okBlock ← newBlock "catch.ok"
  let stop ← newBlock "catch.end"
  let _ ← emitGen (.condBr isErr errBlock okBlock) scope node.location
  goto errBlock
  let handler ← openScope scope .errorHandling
  let handler ←
    match payload with
    | some name => do
      let code ← emitGen (.unwrapErrCode value) handler node.location
      bindPayload handler name code node
    | none => pure handler
  let handled ← parts.expr rhs handler loc
  let incoming ← branchInto stop [] handled scope false
  goto okBlock
  let payload ← emitGen (.unwrapErrPayload value false) scope node.location
  let payload ← deliver payload loc scope node.location
  let incoming ← branchInto stop incoming payload scope false
  joinAt stop incoming scope node

/-- Lowers `lhs orelse rhs`. -/
def lowerOrElse (parts : Parts) (node lhs rhs : Node) (scope : ScopeId) (loc : ResultLoc) :
    LowerM InstId := do
  let loc ← settle loc scope node.location
  let value ← parts.value lhs scope
  let nonNull ← emit (.testNonNull value) scope node.location
  let okBlock ← newBlock "orelse.ok"
  let nullBlock ← newBlock "orelse.null"
  let stop ← newBlock "orelse.end"
  let _ ← emitGen (.condBr nonNull okBlock nullBlock) scope node.location
  goto nullBlock
  let fallback ← parts.expr rhs scope loc
  let incoming ← branchInto stop [] fallback scope false
  goto okBlock
  let inner ← emitGen (.optionalUnwrap value false) scope node.location
  let inner ← deliver inner loc scope node.location
  let incoming ← branchInto stop incoming inner scope false
  joinAt stop incoming scope node

/-- Lowers `lhs and rhs` or `lhs or rhs`: the right operand is evaluated only if the left one does
not settle the result. -/
def lowerShortCircuit (parts : Parts) (node : Node) (op : BinaryOperator) (lhs rhs : Node)
    (scope : ScopeId) (loc : ResultLoc) : LowerM InstId := do
  let left ← parts.value lhs scope
  let rhsBlock ← newBlock s!"{op.symbol}.rhs"
  let stop ← newBlock s!"{op.symbol}.end"
  let source ← currentBlock
  let _ ←
    match op with
    | .boolOr => emitGen (.condBr left stop rhsBlock) scope node.location
    | _ => emitGen (.condBr left rhsBlock stop) scope node.location
  goto rhsBlock
  let right ← parts.value rhs scope
  let incoming ← branchInto stop [(source, left)] right scope false
  let value ← joinAt stop incoming scope node
  deliver value loc scope node.location

end SourceIr.Lower
