import SourceIr.Proofs.Inspection.Routines

/-!
# Inspecting every construct

Statements, branches, loops, jumps and compile-time blocks lower their parts where the parts may be
lowered, and lead to the blocks that they have made.

* `whileIn`, `forHead` and `forIn`, loops before and after their blocks have been made;
* `passes_runDefers` and those after it, one construct after the other;
* `passes_lowerExpr` and `passes_lowerStatement`, all constructs;
* `passesParts_nested`, and `passesParts_inspected`: what is in order wherever the inspection gets
  to passes.
-/

namespace SourceIr.Lower

/-! ### Loops whose blocks have been made -/

/-- The blocks of a loop as the routines around may lead to them. -/
def LoopBlocks.ways (blocks : LoopBlocks) (inline : Bool) : Ways :=
  [(blocks.stop, inline), (blocks.orElse, inline), (blocks.step, inline), (blocks.body, inline),
    (blocks.test, inline)]

theorem LoopBlocks.mem_ways (blocks : LoopBlocks) {inline : Bool} {ways : Ways} {b : BlockId}
    (h : b ∈ [blocks.stop, blocks.orElse, blocks.step, blocks.body, blocks.test]) :
    (b, inline) ∈ blocks.ways inline ++ ways :=
  List.mem_append_left _ (List.mem_map_of_mem (f := (·, inline)) h)

/-- Lowers a `while` loop whose blocks have been made. -/
def whileIn (parts : Parts) (node : Node) (label : Option String) (condition : Node)
    (payload : Option String) (continueExpr : Option Node) (body : Node)
    (elseBranch : Option Node) (isInline : Bool) (scope : ScopeId) (loc : ResultLoc)
    (blocks : LoopBlocks) : LowerM InstId := do
  let _ ← emitWith (.br blocks.test) scope node.location isInline true
  goto blocks.test
  let cond ← parts.value condition scope
  let test ← emitTest node payload cond scope
  let _ ← emitWith (.condBr test blocks.body blocks.orElse) scope node.location isInline false
  goto blocks.body
  let loopScope ← enterLoop scope label blocks loc
  let bodyScope ← enterBranch node payload cond loopScope
  let _ ← parts.expr body bodyScope .discard
  jumpUnlessTerminated blocks.step node scope isInline
  goto blocks.step
  match continueExpr with
  | some expr => let _ ← parts.expr expr bodyScope .discard
  | none => pure ⟨⟩
  jumpUnlessTerminated blocks.test node scope isInline
  finishLoop parts node loopScope elseBranch blocks scope loc isInline

/-- Lowers what comes before the blocks of a `for` loop: what it goes through, its length, and the
index. -/
def forHead (parts : Parts) (node : Node) (iterable : Node) (index : Option String)
    (isInline : Bool) (scope : ScopeId) (loc : ResultLoc) :
    LowerM (ResultLoc × InstId × InstId × InstId) := do
  let loc ← settle loc scope node.location
  let array ← parts.value iterable scope
  let lengthPtr ← emitGen (.fieldPtr array "len") scope node.location
  let length ← emitGen (.loadPtr lengthPtr) scope node.location
  let indexPtr ← emitWith (.alloca index none isInline) scope node.location isInline true
  let zero ← emitGen (.const (.int 0)) scope node.location
  let _ ← emitGen (.storePtr indexPtr zero) scope node.location
  return (loc, array, length, indexPtr)

/-- Lowers a `for` loop whose blocks have been made. -/
def forIn (parts : Parts) (node : Node) (label : Option String) (item : String)
    (index : Option String) (body : Node) (elseBranch : Option Node) (isInline : Bool)
    (scope : ScopeId) (loc : ResultLoc) (array length indexPtr : InstId) (blocks : LoopBlocks) :
    LowerM InstId := do
  let _ ← emitWith (.br blocks.test) scope node.location isInline true
  goto blocks.test
  let position ← emitGen (.loadPtr indexPtr) scope node.location
  let inBounds ← emitGen (.binOp .lt position length) scope node.location
  let _ ← emitWith (.condBr inBounds blocks.body blocks.orElse) scope node.location isInline true
  goto blocks.body
  let loopScope ← enterLoop scope label blocks loc
  let elementPtr ← emitGen (.elemPtr array position) loopScope node.location
  let element ← emitGen (.loadPtr elementPtr) loopScope node.location
  let bodyScope ← bindPayload loopScope item element node
  let indexVar ← declare bodyScope (indexRequest index node.location position)
  let _ ← emitGen (.declVar indexVar indexPtr) bodyScope node.location
  let _ ← parts.expr body bodyScope .discard
  jumpUnlessTerminated blocks.step node scope isInline
  goto blocks.step
  stepIndex indexPtr node scope
  let _ ← emitWith (.br blocks.test) scope node.location isInline true
  finishLoop parts node loopScope elseBranch blocks scope loc isInline

theorem lowerFor_eq (parts : Parts) (node : Node) (label : Option String) (iterable : Node)
    (item : String) (index : Option String) (body : Node) (elseBranch : Option Node)
    (isInline : Bool) (scope : ScopeId) (loc : ResultLoc) :
    lowerFor parts node label iterable item index body elseBranch isInline scope loc = (do
      let (loc, array, length, indexPtr) ← forHead parts node iterable index isInline scope loc
      let blocks ← newLoop "for"
      forIn parts node label item index body elseBranch isInline scope loc array length indexPtr
        blocks) := by
  simp only [forHead, bind_assoc, pure_bind]
  rfl

namespace Inspection

variable {I : Inspection} {env : Env} {d : Nat} {ways : Ways} {s : State} {α β : Type}
  {scope : ScopeId} {location : Option Location} {node : Node} {loc : ResultLoc}
  {parts parts' : Parts}
  (hp : I.PassesParts env parts parts')

/-! ### Deferred expressions -/

include hp in
theorem passes_runDefer {expr : Node} (he : I.Fit expr) :
    I.Passes env d ways s (runDefer parts scope expr) (runDefer parts' scope expr) :=
  passes_bind passes_scopeAt fun _ _ => passes_bind passes_openScope fun _ _ =>
    passes_bind (hp.expr he) fun _ _ => passes_pure

include hp in
theorem passes_runDefersIn {path : ExitPath} {defers : List (ScopeId × DeferKind)} :
    I.Passes env d ways s (runDefersIn parts path defers) (runDefersIn parts' path defers) := by
  induction defers generalizing s with
  | nil => exact passes_pure
  | cons d rest ih =>
    obtain ⟨scope, kind⟩ := d
    refine passes_of_inv fun hi => passes_get_bind ?_
    dsimp only
    split
    · exact ih
    next expr hexpr =>
      -- Nothing but fit expressions has been set aside for an exit.
      have hmem : (scope, expr) ∈ s.deferred := by
        split at hexpr
        · obtain ⟨before, after, hd, -⟩ := List.lookup_eq_some_iff.1 hexpr
          simp [hd]
        · cases hexpr
      refine passes_bind (passes_runDefer hp (I.deferred_fit hi hmem)) fun _ _ => ?_
      exact passes_bind passes_isTerminated fun _ _ => passes_ite passes_pure ih

include hp in
theorem passes_runDefers {target : Option ScopeId} {path : ExitPath} :
    I.Passes env d ways s (runDefers parts scope target path)
      (runDefers parts' scope target path) :=
  passes_bind passes_scopesFrom fun _ _ => passes_runDefersIn hp

/-! ### Statements -/

include hp in
theorem passes_lowerStatements {statements : List Node}
    (hs : ∀ statement ∈ statements, I.Fit statement) :
    I.Passes env d ways s (lowerStatements parts scope false statements)
      (lowerStatements parts' scope false statements) := by
  induction statements generalizing s scope with
  | nil => exact passes_pure
  | cons statement rest ih =>
    obtain ⟨hstatement, hrest⟩ := List.forall_mem_cons.1 hs
    rw [lowerStatements, lowerStatements]
    refine passes_bind passes_isTerminated fun terminated _ => ?_
    refine passes_ite (passes_bind passes_warnAt fun _ _ => passes_pure) ?_
    refine passes_attempt_bind (hp.statement hstatement) (fun next _ => ih hrest) fun t b s' => ?_
    -- A list of statements does not return behind one that has failed.
    refine not_returns_bind fun _ _ => ?_
    split
    · exact not_returns_throw
    · exact not_returns_lowerStatements

include hp in
theorem passes_lowerPlainBlock {statements : List Node}
    (hs : ∀ statement ∈ statements, I.Fit statement) :
    I.Passes env d ways s (lowerPlainBlock parts node statements scope loc)
      (lowerPlainBlock parts' node statements scope loc) := by
  refine passes_bind passes_openScope fun block _ => ?_
  refine passes_bind (passes_lowerStatements hp hs) fun last _ => ?_
  refine passes_bind passes_isTerminated fun terminated _ => ?_
  cases terminated with
  | true => exact passes_blockValue
  | false => exact passes_bind (passes_runDefers hp) fun _ _ => passes_blockValue

include hp in
theorem passes_lowerLabelledBlock {label : String} {statements : List Node}
    (hs : ∀ statement ∈ statements, I.Fit statement) :
    I.Passes env d ways s (lowerLabelledBlock parts node label statements scope loc)
      (lowerLabelledBlock parts' node label statements scope loc) := by
  refine passes_bind passes_settle fun loc _ => passes_newBlock_bind false fun stop _ => ?_
  refine passes_bind passes_openScope fun block _ => passes_bind passes_openSink fun _ _ => ?_
  refine passes_bind (passes_lowerStatements hp hs) fun last _ => ?_
  have join : ∀ t, I.Same env d ((stop, false) :: ways) t (do
      joinAt stop (← closeSink block) scope node) := fun t =>
    passes_bind passes_closeSink fun _ _ => passes_joinAt
  refine passes_bind passes_isTerminated fun terminated t => ?_
  cases terminated with
  | true => exact join t
  | false =>
    refine passes_bind (passes_runDefers hp) fun _ _ => ?_
    refine passes_bind passes_isTerminated fun done t => ?_
    cases done with
    | true => exact join t
    | false =>
      refine passes_bind passes_emitVoid fun _ _ => passes_bind passes_flowInto fun _ _ => ?_
      exact passes_bind (passes_emitBr List.mem_cons_self id) fun _ t => join t

include hp in
theorem passes_lowerBlock {label : Option String} {statements : List Node}
    (hs : ∀ statement ∈ statements, I.Fit statement) :
    I.Passes env d ways s (lowerBlock parts node label statements scope loc)
      (lowerBlock parts' node label statements scope loc) := by
  cases label with
  | none => exact passes_lowerPlainBlock hp hs
  | some label => exact passes_lowerLabelledBlock hp hs

include hp in
/-- The initializer of a variable, whose name is set aside for it. -/
theorem passes_initializer {name : String} {init : Node} {opens : Bool} {ptr : InstId}
    {f f' : InstId → LowerM α} (hi : I.Init name init)
    (hf : ∀ value t, I.Passes env d ways t (f value) (f' value)) :
    I.Passes env d ways s (do
      setNameHint init name
      let initScope ← if opens then openScope scope .comptime else pure scope
      let value ← orDeclareFailed (parts.expr init initScope (.existing ptr)) node name scope
      f value) (do
      setNameHint init name
      let initScope ← if opens then openScope scope .comptime else pure scope
      let value ← orDeclareFailed (parts'.expr init initScope (.existing ptr)) node name scope
      f' value) := by
  -- Opening a scope does not touch the name that is set aside.
  have value : ∀ t initScope, t.nameHint = some (init.id, name) → I.Passes env d ways t (do
      let value ← orDeclareFailed (parts.expr init initScope (.existing ptr)) node name scope
      f value) (do
      let value ← orDeclareFailed (parts'.expr init initScope (.existing ptr)) node name scope
      f' value) := fun t initScope ht =>
    passes_bind (passes_orDeclareFailed (hp.init hi ht)) hf
  refine passes_bind_of (passes_setNameHint hi) fun _ t ht => ?_
  obtain rfl := returns_modify.1 ht
  cases opens with
  | false => exact value _ scope rfl
  | true =>
    refine passes_bind_of passes_openScope fun initScope t hopen => value t initScope ?_
    obtain ⟨x, -, hopen⟩ := returns_scopeAt_bind hopen
    rw [returns_get_bind] at hopen
    obtain ⟨_, u, hset, hopen⟩ := returns_bind.1 hopen
    obtain rfl := returns_set.1 hset
    rw [(returns_pure.1 hopen).2]

include hp in
theorem passes_lowerLocalVar {name : String} {isConst isComptime : Bool}
    {typeExpr init : Option Node} (ht : ∀ type ∈ typeExpr, I.Fit type)
    (hi : ∀ i ∈ init, I.Init name i) :
    I.Passes env d ways s (lowerLocalVar parts node name isConst isComptime typeExpr init scope)
      (lowerLocalVar parts' node name isConst isComptime typeExpr init scope) := by
  refine passes_bind passes_scopesFrom fun scopes _ => ?_
  refine passes_bind (passes_orDeclareFailed (hp.comptimeValue? ht)) fun typeInst _ => ?_
  cases init with
  | none => exact passes_orDeclareFailed passes_fail
  | some init =>
    refine passes_bind (passes_emit rfl) fun ptr _ => ?_
    exact passes_initializer hp (hi init rfl) fun value _ => passes_bind passes_declare fun _ _ =>
      passes_bind (passes_emit rfl) fun _ _ => passes_pure

include hp in
theorem passes_lowerAssign {target value : Node} (ht : I.Fit target) (hv : I.Fit value) :
    I.Passes env d ways s (lowerAssign parts target value scope)
      (lowerAssign parts' target value scope) := by
  rw [lowerAssign, lowerAssign]
  refine passes_ite (passes_bind (hp.expr hv) fun _ _ => passes_pure) ?_
  refine passes_ite passes_fail ?_
  refine passes_bind (passes_lowerPlace hp (I.fit_unnamed ht)) fun _ _ => ?_
  exact passes_bind (hp.expr hv) fun _ _ => passes_pure

include hp in
theorem passes_lowerAssignOp {op : BinaryOperator} {target value : Node} (ht : I.Fit target)
    (hv : I.Fit value) :
    I.Passes env d ways s (lowerAssignOp parts node op target value scope)
      (lowerAssignOp parts' node op target value scope) := by
  refine passes_ite passes_fail ?_
  refine passes_bind (passes_lowerPlace hp (I.fit_unnamed ht)) fun _ _ => ?_
  refine passes_bind (passes_emit rfl) fun _ _ => passes_bind (hp.expr hv) fun _ _ => ?_
  exact passes_bind (passes_emit rfl) fun _ _ => passes_bind (passes_emit rfl) fun _ _ =>
    passes_pure

include hp in
/-- Every statement. -/
theorem passes_lowerStatement (hn : I.Fit node) :
    I.Passes env d ways s (lowerStatement parts node scope) (lowerStatement parts' node scope) := by
  have hparts := I.fit_unnamed hn
  rw [lowerStatement, lowerStatement]
  split
  next name isConst isComptime typeExpr init hk =>
    rw [hk] at hparts
    have htype : ∀ type ∈ typeExpr, I.Fit type := fun type h =>
      hparts type (by simpa [Kind.unnamed])
    have hinit : ∀ i ∈ init, I.Init name i := by
      rintro init rfl
      exact I.init_of_fit hn hk
    exact passes_bind (passes_lowerLocalVar hp htype hinit) fun _ _ => passes_pure
  next kind expr hk =>
    rw [hk] at hparts
    exact passes_bind passes_openScope fun _ _ =>
      passes_bind (passes_remember (hparts expr List.mem_cons_self)) fun _ _ => passes_pure
  next target value hk =>
    rw [hk] at hparts
    exact passes_bind (passes_lowerAssign hp (hparts target List.mem_cons_self)
      (hparts value (List.mem_cons_of_mem _ List.mem_cons_self))) fun _ _ => passes_pure
  next op target value hk =>
    rw [hk] at hparts
    exact passes_bind (passes_lowerAssignOp hp (hparts target List.mem_cons_self)
      (hparts value (List.mem_cons_of_mem _ List.mem_cons_self))) fun _ _ => passes_pure
  next =>
    have statement : I.Passes env d ways s (lowerExprStatement parts node scope)
        (lowerExprStatement parts' node scope) :=
      passes_get_bind <| passes_bind (hp.expr hn) fun _ _ => passes_checkStatement
    split
    · exact passes_bind statement fun _ _ => passes_pure
    · exact passes_bind (hp.expr hn) fun _ _ => passes_pure

/-! ### Branches -/

include hp in
theorem passes_lowerElse {branch : Option Node} (hb : ∀ b ∈ branch, I.Fit b) :
    I.Passes env d ways s (lowerElse parts node branch scope loc)
      (lowerElse parts' node branch scope loc) := by
  cases branch with
  | some branch => exact hp.expr (hb branch rfl)
  | none => exact passes_emitVoid

include hp in
theorem passes_lowerIf {condition thenBranch : Node} {payload : Option String}
    {elseBranch : Option Node} (hc : I.Fit condition) (ht : I.Fit thenBranch)
    (he : ∀ e ∈ elseBranch, I.Fit e) :
    I.Passes env d ways s (lowerIf parts node condition payload thenBranch elseBranch scope loc)
      (lowerIf parts' node condition payload thenBranch elseBranch scope loc) := by
  refine passes_bind passes_settle fun loc _ => passes_bind (hp.expr hc) fun cond _ => ?_
  refine passes_newBlock_bind false fun thenBlock _ => ?_
  refine passes_newBlock_bind false fun elseBlock _ => passes_newBlock_bind false fun stop _ => ?_
  refine passes_bind passes_emitTest fun _ _ => ?_
  refine passes_bind (passes_emitWith (admitted_condBr false (by simp) (by simp) id))
    fun _ _ => passes_bind passes_goto fun _ _ => ?_
  refine passes_bind passes_enterBranch fun _ _ => passes_bind (hp.expr ht) fun _ _ => ?_
  refine passes_bind (passes_branchInto List.mem_cons_self id) fun _ _ => ?_
  refine passes_bind passes_goto fun _ _ => passes_bind (passes_lowerElse hp he) fun _ _ => ?_
  exact passes_bind (passes_branchInto List.mem_cons_self id) fun _ _ => passes_joinAt

include hp in
theorem passes_lowerCatch {lhs rhs : Node} {payload : Option String} (hl : I.Fit lhs)
    (hr : I.Fit rhs) :
    I.Passes env d ways s (lowerCatch parts node lhs payload rhs scope loc)
      (lowerCatch parts' node lhs payload rhs scope loc) := by
  refine passes_bind passes_settle fun loc _ => passes_bind (hp.expr hl) fun value _ => ?_
  refine passes_bind (passes_emit rfl) fun _ _ => passes_newBlock_bind false fun errBlock _ => ?_
  refine passes_newBlock_bind false fun okBlock _ => passes_newBlock_bind false fun stop _ => ?_
  refine passes_bind (passes_emitWith (admitted_condBr false (by simp) (by simp) id))
    fun _ _ => passes_bind passes_goto fun _ _ => ?_
  refine passes_bind passes_openScope fun handler _ => ?_
  cases payload with
  | some name =>
    refine passes_bind (passes_emitGen rfl) fun _ _ => passes_bind passes_bindPayload fun _ _ => ?_
    exact passes_bind (hp.expr hr) fun _ _ => passes_unwrapInto rfl List.mem_cons_self
  | none =>
    refine passes_bind passes_pure fun _ _ => passes_bind (hp.expr hr) fun _ _ => ?_
    exact passes_unwrapInto rfl List.mem_cons_self

include hp in
theorem passes_lowerOrElse {lhs rhs : Node} (hl : I.Fit lhs) (hr : I.Fit rhs) :
    I.Passes env d ways s (lowerOrElse parts node lhs rhs scope loc)
      (lowerOrElse parts' node lhs rhs scope loc) := by
  refine passes_bind passes_settle fun loc _ => passes_bind (hp.expr hl) fun value _ => ?_
  refine passes_bind (passes_emit rfl) fun _ _ => passes_newBlock_bind false fun okBlock _ => ?_
  refine passes_newBlock_bind false fun nullBlock _ => passes_newBlock_bind false fun stop _ => ?_
  refine passes_bind (passes_emitWith (admitted_condBr false (by simp) (by simp) id))
    fun _ _ => passes_bind passes_goto fun _ _ => ?_
  exact passes_bind (hp.expr hr) fun _ _ => passes_unwrapInto rfl List.mem_cons_self

include hp in
theorem passes_lowerShortCircuit {op : BinaryOperator} {lhs rhs : Node} (hl : I.Fit lhs)
    (hr : I.Fit rhs) :
    I.Passes env d ways s (lowerShortCircuit parts node op lhs rhs scope loc)
      (lowerShortCircuit parts' node op lhs rhs scope loc) := by
  refine passes_bind (hp.expr hl) fun left _ => passes_newBlock_bind false fun rhsBlock _ => ?_
  refine passes_newBlock_bind false fun stop _ => passes_bind passes_currentBlock fun source _ => ?_
  dsimp only
  have right : ∀ t, I.Passes env d ((stop, false) :: (rhsBlock, false) :: ways) t (do
      goto rhsBlock
      let right ← parts.value rhs scope
      let incoming ← branchInto stop [(source, left)] right scope false
      let value ← joinAt stop incoming scope node
      deliver value loc scope node.location) (do
      goto rhsBlock
      let right ← parts'.value rhs scope
      let incoming ← branchInto stop [(source, left)] right scope false
      let value ← joinAt stop incoming scope node
      deliver value loc scope node.location) := fun t =>
    passes_bind passes_goto fun _ _ => passes_bind (hp.expr hr) fun _ _ =>
      passes_bind (passes_branchInto List.mem_cons_self id) fun _ _ =>
        passes_bind passes_joinAt fun _ _ => passes_deliver
  split
  all_goals
    exact passes_bind (passes_emitWith (admitted_condBr false (by simp) (by simp) id)) fun _ t =>
      right t

include hp in
theorem passes_lowerBinary {op : BinaryOperator} {lhs rhs : Node} (hl : I.Fit lhs)
    (hr : I.Fit rhs) :
    I.Passes env d ways s (lowerBinary parts node op lhs rhs scope loc)
      (lowerBinary parts' node op lhs rhs scope loc) := by
  cases op
  case boolAnd | boolOr => exact passes_lowerShortCircuit hp hl hr
  case orElse => exact passes_lowerOrElse hp hl hr
  all_goals
    exact passes_bind (hp.expr hl) fun _ _ => passes_bind (hp.expr hr) fun _ _ =>
      passes_emitSimpleTo rfl

/-! ### Loops -/

/-- The blocks of a loop are made, and the routines around may lead to them until they are done. -/
theorem passes_newLoop_bind {word : String} {f f' : LoopBlocks → LowerM β} (inline : Bool)
    (hf : ∀ blocks t, I.Passes env d (blocks.ways inline ++ ways) t (f blocks) (f' blocks)) :
    I.Passes env d ways s (newLoop word >>= f) (newLoop word >>= f') := by
  simp only [newLoop, bind_assoc, pure_bind]
  exact passes_newBlock_bind inline fun _ _ => passes_newBlock_bind inline fun _ _ =>
    passes_newBlock_bind inline fun _ _ => passes_newBlock_bind inline fun _ _ =>
      passes_newBlock_bind inline fun _ t => hf ⟨_, _, _, _, _⟩ t

section Loops

variable {blocks : LoopBlocks} {isInline : Bool} {elseBranch : Option Node} {body : Node}
  {label : Option String} (hb : I.Fit body) (he : ∀ e ∈ elseBranch, I.Fit e)

include hp he in
theorem passes_finishLoop {loopScope : ScopeId} :
    I.Passes env d (blocks.ways isInline ++ ways) s
      (finishLoop parts node loopScope elseBranch blocks scope loc isInline)
      (finishLoop parts' node loopScope elseBranch blocks scope loc isInline) :=
  passes_bind passes_goto fun _ _ => passes_bind (passes_lowerElse hp he) fun _ _ =>
    passes_bind passes_closeSink fun _ _ =>
      passes_bind (passes_branchInto (blocks.mem_ways (by simp)) id) fun _ _ =>
        passes_joinAt

include hp hb he in
theorem passes_whileIn {condition : Node} {payload : Option String} {continueExpr : Option Node}
    (hc : I.Fit condition) (hs : ∀ step ∈ continueExpr, I.Fit step) :
    I.Passes env d (blocks.ways isInline ++ ways) s
      (whileIn parts node label condition payload continueExpr body elseBranch isInline scope loc
        blocks)
      (whileIn parts' node label condition payload continueExpr body elseBranch isInline scope loc
        blocks) := by
  refine passes_bind (passes_emitBr (blocks.mem_ways (by simp)) id) fun _ _ => ?_
  refine passes_bind passes_goto fun _ _ => passes_bind (hp.expr hc) fun _ _ => ?_
  refine passes_bind passes_emitTest fun _ _ => ?_
  refine passes_bind (passes_emitWith (admitted_condBr isInline (blocks.mem_ways (by simp))
    (blocks.mem_ways (by simp)) id)) fun _ _ => ?_
  refine passes_bind passes_goto fun _ _ => passes_bind passes_enterLoop fun loopScope _ => ?_
  refine passes_bind passes_enterBranch fun bodyScope _ => passes_bind (hp.expr hb) fun _ _ => ?_
  refine passes_bind (passes_jumpUnlessTerminated (blocks.mem_ways (by simp)) id) fun _ _ => ?_
  refine passes_bind passes_goto fun _ t => ?_
  have finish : ∀ t, I.Passes env d (blocks.ways isInline ++ ways) t (do
      jumpUnlessTerminated blocks.test node scope isInline
      finishLoop parts node loopScope elseBranch blocks scope loc isInline) (do
      jumpUnlessTerminated blocks.test node scope isInline
      finishLoop parts' node loopScope elseBranch blocks scope loc isInline) := fun t =>
    passes_bind (passes_jumpUnlessTerminated (blocks.mem_ways (by simp)) id) fun _ _ =>
      passes_finishLoop hp he
  cases continueExpr with
  | some expr => exact passes_bind (hp.expr (hs expr rfl)) fun _ t => finish t
  | none => exact finish t

include hp hb he in
theorem passes_forIn {item : String} {index : Option String} {array length indexPtr : InstId} :
    I.Passes env d (blocks.ways isInline ++ ways) s
      (forIn parts node label item index body elseBranch isInline scope loc array length indexPtr
        blocks)
      (forIn parts' node label item index body elseBranch isInline scope loc array length indexPtr
        blocks) := by
  refine passes_bind (passes_emitBr (blocks.mem_ways (by simp)) id) fun _ _ => ?_
  refine passes_bind passes_goto fun _ _ => passes_bind (passes_emitGen rfl) fun _ _ => ?_
  refine passes_bind (passes_emitGen rfl) fun _ _ => ?_
  refine passes_bind (passes_emitWith (admitted_condBr isInline (blocks.mem_ways (by simp))
    (blocks.mem_ways (by simp)) id)) fun _ _ => ?_
  refine passes_bind passes_goto fun _ _ => passes_bind passes_enterLoop fun loopScope _ => ?_
  refine passes_bind (passes_emitGen rfl) fun _ _ => passes_bind (passes_emitGen rfl) fun _ _ => ?_
  refine passes_bind passes_bindPayload fun _ _ => passes_bind passes_declare fun _ _ => ?_
  refine passes_bind (passes_emitGen rfl) fun _ _ => passes_bind (hp.expr hb) fun _ _ => ?_
  refine passes_bind (passes_jumpUnlessTerminated (blocks.mem_ways (by simp)) id)
    fun _ _ => passes_bind passes_goto fun _ _ => passes_bind passes_stepIndex fun _ _ => ?_
  exact passes_bind (passes_emitBr (blocks.mem_ways (by simp)) id) fun _ _ =>
    passes_finishLoop hp he

include hp hb he in
theorem passes_lowerWhile {condition : Node} {payload : Option String} {continueExpr : Option Node}
    (hc : I.Fit condition) (hs : ∀ step ∈ continueExpr, I.Fit step) :
    I.Passes env d ways s
      (lowerWhile parts node label condition payload continueExpr body elseBranch isInline scope
        loc)
      (lowerWhile parts' node label condition payload continueExpr body elseBranch isInline scope
        loc) :=
  passes_bind passes_settle fun _ _ => passes_newLoop_bind isInline fun _ _ =>
    passes_whileIn hp hb he hc hs

include hp in
theorem passes_forHead {iterable : Node} {index : Option String} (hi : I.Fit iterable) :
    I.Passes env d ways s (forHead parts node iterable index isInline scope loc)
      (forHead parts' node iterable index isInline scope loc) := by
  refine passes_bind passes_settle fun loc _ => passes_bind (hp.expr hi) fun array _ => ?_
  refine passes_bind (passes_emitGen rfl) fun _ _ => passes_bind (passes_emitGen rfl) fun _ _ => ?_
  refine passes_bind (passes_emitSimple rfl) fun _ _ => ?_
  refine passes_bind (passes_emitGen rfl) fun _ _ => ?_
  exact passes_bind (passes_emitGen rfl) fun _ _ => passes_pure

include hp hb he in
theorem passes_lowerFor {iterable : Node} {item : String} {index : Option String}
    (hi : I.Fit iterable) :
    I.Passes env d ways s
      (lowerFor parts node label iterable item index body elseBranch isInline scope loc)
      (lowerFor parts' node label iterable item index body elseBranch isInline scope loc) := by
  rw [lowerFor_eq, lowerFor_eq]
  exact passes_bind (passes_forHead hp hi) fun _ _ => passes_newLoop_bind isInline fun _ _ =>
    passes_forIn hp hb he

end Loops

/-! ### Jumps -/

include hp in
theorem passes_lowerBreak {label : Option String} {value : Option Node}
    (hv : ∀ v ∈ value, I.Fit v) :
    I.Passes env d ways s (lowerBreak parts node label value scope)
      (lowerBreak parts' node label value scope) := by
  refine passes_bind passes_breakScope fun target _ => ?_
  refine passes_bind passes_leavesStream fun _ _ => passes_ite passes_fail ?_
  refine passes_bind passes_scopeAt fun x _ => ?_
  split
  · exact passes_fail
  next stop _ =>
    refine passes_bind passes_sink? fun sink _ => ?_
    have jump : ∀ v t, I.Passes env d ways t (do
        runDefers parts scope (some target) .normal
        if ← isTerminated then lastInst
        else
          flowInto target v
          emit (.br stop) scope node.location) (do
        runDefers parts' scope (some target) .normal
        if ← isTerminated then lastInst
        else
          flowInto target v
          emit (.br stop) scope node.location) := fun v t =>
      passes_bind (passes_runDefers hp) fun _ _ => passes_bind passes_isTerminated fun _ _ =>
        passes_ite passes_lastInst <| passes_bind passes_flowInto fun _ _ =>
          passes_emitWith admitted_jump
    cases value with
    | some value => exact passes_bind (hp.expr (hv value rfl)) jump
    | none => exact passes_bind passes_emitVoid jump

include hp in
theorem passes_lowerContinue {label : Option String} :
    I.Passes env d ways s (lowerContinue parts node label scope)
      (lowerContinue parts' node label scope) := by
  refine passes_bind passes_continueScope fun target _ => ?_
  refine passes_bind passes_leavesStream fun _ _ => passes_ite passes_fail ?_
  refine passes_bind passes_scopeAt fun x _ => ?_
  split
  · exact passes_fail
  · exact passes_bind (passes_runDefers hp) fun _ _ => passes_bind passes_isTerminated fun _ _ =>
      passes_ite passes_lastInst (passes_emitWith admitted_jump)

include hp in
theorem passes_emitErrReturn {value : InstId} :
    I.Passes env d ways s (emitErrReturn parts node value scope)
      (emitErrReturn parts' node value scope) := by
  refine passes_bind (passes_emitGen rfl) fun _ _ => passes_newBlock_bind false fun _ _ => ?_
  refine passes_newBlock_bind false fun _ _ => ?_
  refine passes_bind (passes_emitWith (admitted_condBr false (by simp) (by simp) id))
    fun _ _ => passes_bind passes_goto fun _ _ => passes_bind (passes_runDefers hp) fun _ _ => ?_
  exact passes_unlessTerminated (admitted_simple rfl) fun _ => passes_goto

include hp in
theorem passes_returnOperand {operand : Option InstId} : I.Passes env d ways s (do
      match if passesErrDefer (← scopesFrom scope) scope then operand else none with
      | some value => emitErrReturn parts node value scope
      | none => pure ⟨⟩
      runDefers parts scope none .normal
      if ← isTerminated then lastInst else emit (.ret operand) scope node.location) (do
      match if passesErrDefer (← scopesFrom scope) scope then operand else none with
      | some value => emitErrReturn parts' node value scope
      | none => pure ⟨⟩
      runDefers parts' scope none .normal
      if ← isTerminated then lastInst else emit (.ret operand) scope node.location) := by
  have run : ∀ t, I.Passes env d ways t (do
      runDefers parts scope none .normal
      if ← isTerminated then lastInst else emit (.ret operand) scope node.location) (do
      runDefers parts' scope none .normal
      if ← isTerminated then lastInst else emit (.ret operand) scope node.location) := fun t =>
    passes_bind (passes_runDefers hp) fun _ _ => passes_bind passes_isTerminated fun _ _ =>
      passes_ite passes_lastInst (passes_emit rfl)
  refine passes_bind passes_scopesFrom fun scopes t => ?_
  split
  · exact passes_bind (passes_emitErrReturn hp) fun _ t => run t
  · exact run t

include hp in
theorem passes_lowerReturn {value : Option Node} (hv : ∀ v ∈ value, I.Fit v) :
    I.Passes env d ways s (lowerReturn parts node value scope)
      (lowerReturn parts' node value scope) := by
  refine passes_bind passes_checkFnExit fun _ _ => ?_
  cases value with
  | some value =>
    exact passes_bind (passes_map (hp.expr (hv value rfl))) fun _ _ => passes_returnOperand hp
  | none => exact passes_bind passes_pure fun _ _ => passes_returnOperand hp

include hp in
theorem passes_lowerTry {expr : Node} (he : I.Fit expr) :
    I.Passes env d ways s (lowerTry parts node expr scope loc)
      (lowerTry parts' node expr scope loc) := by
  refine passes_bind passes_checkFnExit fun _ _ => passes_bind (hp.expr he) fun value _ => ?_
  refine passes_bind (passes_emit rfl) fun _ _ => passes_newBlock_bind false fun _ _ => ?_
  refine passes_newBlock_bind false fun _ _ => ?_
  refine passes_bind (passes_emitWith (admitted_condBr false (by simp) (by simp) id))
    fun _ _ => passes_bind passes_goto fun _ _ => passes_bind (passes_emitGen rfl) fun code _ => ?_
  refine passes_bind (passes_runDefers hp) fun _ _ => ?_
  exact passes_unlessTerminated (admitted_simple rfl) fun _ =>
    passes_bind passes_goto fun _ _ => passes_emitSimpleTo rfl

/-! ### Compile-time blocks -/

/-- The rest of a body after its value. -/
theorem passes_returnValue {value : InstId} : I.Same env d ways s (do
      if !(← isTerminated) then
        let _ ← emitGen (.ret (some value)) scope node.location) :=
  passes_unlessTerminated (admitted_simple rfl) fun _ => passes_pure

include hp in
theorem passes_lowerComptime {expr : Node} (he : I.Fit expr) :
    I.Passes env d ways s (lowerComptime parts node expr scope loc)
      (lowerComptime parts' node expr scope loc) := by
  refine passes_bind passes_openScope fun inner _ => ?_
  refine passes_bind passes_isComptimeAt fun _ _ => passes_ite (hp.expr he) ?_
  refine passes_get_bind ?_
  refine passes_inChildStream_bind (fun _ => passes_withFrame fun _ => ?_) (fun _ _ _ => ?_)
    fun _ _ _ _ => not_returns_throw
  · exact passes_bind (hp.expr he) fun _ _ => passes_returnValue
  · exact passes_emitSimpleTo rfl

/-! ### Expressions -/

include hp in
/-- Every expression. -/
theorem passes_lowerExpr (hn : I.Known node) :
    I.Passes env d ways s (lowerExpr parts node scope loc) (lowerExpr parts' node scope loc) := by
  have hparts := hn.unnamed
  have hload : I.Passes env d ways s (lowerLoad parts node scope loc)
      (lowerLoad parts' node scope loc) := passes_lowerLoad hp hparts
  rw [lowerExpr, lowerExpr]
  -- The parts of each construct, as its routine takes them.
  cases hk : node.kind <;> rw [hk] at hparts <;>
    simp only [Kind.unnamed, Kind.trees, Kind.values, List.flatMap_cons, List.flatMap_nil,
      FieldValue.trees_ofOption, FieldValue.trees_ofOption_text, List.nil_append,
      List.append_nil] at hparts <;>
    simp only [FieldValue.trees, List.nil_append, List.append_nil, List.mem_append, or_imp,
      forall_and, forall_eq, Option.mem_toList, List.mem_map,
      forall_exists_index, and_imp, forall_apply_eq_imp_iff₂, List.mem_cons, List.not_mem_nil,
      false_imp_iff, implies_true, and_true] at hparts
  case varDecl | deferred | root | fnDecl | param | testDecl | containerField =>
    exact passes_fail
  case fieldAccess | arrayAccess => exact hload
  case intLiteral | floatLiteral | stringLiteral | boolLiteral | nullLiteral | undefinedLiteral |
      errorValue => exact passes_emitSimpleTo rfl
  case symbol => exact passes_bind passes_lowerSymbol fun _ _ => passes_deliver
  case unaryOp => exact passes_lowerUnary hp hparts
  case binaryOp => exact passes_lowerBinary hp hparts.1 hparts.2
  case call => exact passes_lowerCall hp hparts.1 hparts.2
  case builtinCall => exact passes_lowerBuiltinCall hp hn hk hparts
  case containerDecl => exact passes_lowerContainer hp hn hk hparts.1
  case errorSetDecl => exact passes_lowerErrorSet hn hk
  case structInit => exact passes_lowerStructInit hp hn hk hparts.1 hparts.2
  case arrayInit => exact passes_lowerArrayInit hp hparts.1 hparts.2
  case block => exact passes_lowerBlock hp hparts
  case assign =>
    exact passes_bind (passes_lowerAssign hp hparts.1 hparts.2) fun _ _ => passes_emitVoid
  case assignOp =>
    exact passes_bind (passes_lowerAssignOp hp hparts.1 hparts.2) fun _ _ => passes_emitVoid
  case ifThen => exact passes_lowerIf hp hparts.1 hparts.2.1 hparts.2.2
  case whileLoop =>
    exact passes_lowerWhile hp hparts.2.2.1 hparts.2.2.2 hparts.1 hparts.2.1
  case forLoop => exact passes_lowerFor hp hparts.2.1 hparts.2.2 hparts.1
  case breakTo => exact passes_lowerBreak hp hparts
  case continueTo => exact passes_lowerContinue hp
  case returnFrom => exact passes_lowerReturn hp hparts
  case tryExpr => exact passes_lowerTry hp hparts
  case catchExpr => exact passes_lowerCatch hp hparts.1 hparts.2
  case comptime => exact passes_lowerComptime hp hparts
  case suspend => exact passes_lowerSuspend hp hparts
  case unreachable => exact passes_emit rfl
  case asm => exact passes_lowerAsm

/-! ### All levels -/

theorem passes_failDepth {x' : LowerM α} : I.Passes env d ways s (failDepth node) x' :=
  passes_of_not_returns fun _ _ => not_returns_bind fun _ _ => not_returns_fail

/-- Routines for parts that lower expressions and statements with routines that pass. -/
theorem passesParts_nested (levels : Nat) : I.PassesParts env (nested levels) (nested levels) := by
  induction levels with
  | zero =>
    exact ⟨fun _ => passes_failDepth, fun _ _ => passes_failDepth, fun _ => passes_failDepth⟩
  | succ levels ih =>
    exact ⟨fun hn => passes_lowerExpr ih (.inl hn), fun hn _ => passes_lowerExpr ih (.inr ⟨_, hn⟩),
      passes_lowerStatement ih⟩

/-- How a node gets to be lowered: no declaration names it, or the name of its declaration is set
aside for it. -/
def Reached (I : Inspection) (s : State) (node : Node) : Prop :=
  I.Fit node ∨ ∃ name, I.Init name node ∧ s.nameHint = some (node.id, name)

theorem Reached.known (h : I.Reached s node) : I.Known node :=
  h.imp_right fun ⟨name, hn, _⟩ => ⟨name, hn⟩

/-- Whatever a node is lowered to where the inspection gets to it is in order. -/
def Approves (I : Inspection) (env : Env) (ok : Check) : Prop :=
  ∀ {levels d ways s s' node scope loc v}, I.Reached s node → I.Inv d ways s → I.Ahead d ways s' →
    Returns (lowerExpr (nested levels) node scope loc) env s v s' → ok node scope s v s'

variable {ok : Check} {alarm : ∀ {α : Type}, LowerM α}

open Classical in
/-- A check that is passed raises no alarm. -/
theorem passes_checked {x x' : LowerM InstId} (h : I.Passes env d ways s x x')
    (hok : ∀ v s', Returns x env s v s' → I.Ahead d ways s' → ok node scope s v s') :
    I.Passes env d ways s x (do
      let before ← get
      let value ← x'
      let after ← get
      if ok node scope before value after then return value else alarm) := by
  intro hi v s' hr
  obtain ⟨hs', hback⟩ := h hi v s' hr
  refine ⟨hs', fun ha => ?_⟩
  obtain ⟨hbefore, hx'⟩ := hback ha
  refine ⟨hbefore, returns_get_bind.2 (returns_bind.2 ⟨v, s', hx', returns_get_bind.2 ?_⟩)⟩
  rw [if_pos (hok v s' hr ha)]
  exact returns_pure.2 ⟨rfl, rfl⟩

/-- The routines for parts pass with any alarm if all is in order. -/
theorem passesParts_inspected (h : I.Approves env ok) (levels : Nat) :
    I.PassesParts env (nested levels) (inspected ok alarm levels) := by
  induction levels with
  | zero =>
    exact ⟨fun _ => passes_failDepth, fun _ _ => passes_failDepth, fun _ => passes_failDepth⟩
  | succ levels ih =>
    -- The levels below pass, so that the expression is the same until its own check comes up.
    have expr : ∀ {d ways s node scope loc}, I.Reached s node →
        I.Passes env d ways s ((nested (levels + 1)).expr node scope loc)
          ((inspected ok alarm (levels + 1)).expr node scope loc) := fun hn =>
      passes_of_inv fun hi => passes_checked (passes_lowerExpr ih hn.known) fun v s' hr ha =>
        h hn hi ha hr
    exact ⟨fun hn => expr (.inl hn), fun hn hhint => expr (.inr ⟨_, hn, hhint⟩),
      passes_lowerStatement ih⟩

end Inspection

end SourceIr.Lower
