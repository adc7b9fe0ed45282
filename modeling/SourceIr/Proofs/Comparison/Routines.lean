import SourceIr.Proofs.Comparison.Outline

/-!
# Every construct compared

Two lowerings whose routines for parts are related lower every construct by related routines.

* results, names, places and deferred expressions;
* statements, branches, loops and jumps;
* aggregates, calls and compile-time blocks;
* `Comparison.rel_lowerExpr_of`, `Comparison.rel_lowerStatement`, all constructs, and
  `NestedComparison.rel_lowerExpr`, compile-time blocks included.
-/

namespace SourceIr.Lower

namespace Comparison

open Outline

variable {C : Comparison} {parts parts' : Parts} {α : Type} (scope : ScopeId) (node : Node)
  (loc : ResultLoc) (location : Option Location)

variable (hp : C.RelParts parts parts')

/-! ### Parts -/

include hp in
theorem RelParts.value : C.Rel (parts.value node scope) (parts'.value node scope) :=
  hp.expr node scope .none

include hp in
theorem RelParts.comptimeValue :
    C.Rel (parts.comptimeValue node scope) (parts'.comptimeValue node scope) :=
  C.rel_bind (same_openScope _ _) fun _ => hp.value _ _

include hp in
theorem RelParts.comptimeValue? (node : Option Node) :
    C.Rel (parts.comptimeValue? node scope) (parts'.comptimeValue? node scope) := by
  cases node with
  | some node => exact rel_map _ (hp.comptimeValue _ _)
  | none => exact C.rel_pure _

/-! ### Names and places -/

include hp in
theorem rel_lowerPlace : C.Rel (lowerPlace parts scope node) (lowerPlace parts' scope node) := by
  induction node using lowerPlace.induct parts scope with
  | case1 id name location span => exact same_lowerSymbol _ _ (C.at_all _) _ _
  | case2 id container field location span h ih =>
    rw [lowerPlace, lowerPlace, if_pos h, if_pos h]
    exact C.rel_bind ih fun _ => same_emit rfl
  | case3 id container field location span h =>
    rw [lowerPlace, lowerPlace, if_neg h, if_neg h]
    exact C.rel_bind (hp.value _ _) fun _ => same_emit rfl
  | case4 id array index location span h ih =>
    rw [lowerPlace, lowerPlace, if_pos h, if_pos h]
    exact C.rel_bind ih fun _ => C.rel_bind (hp.value _ _) fun _ => same_emit rfl
  | case5 id array index location span h =>
    rw [lowerPlace, lowerPlace, if_neg h, if_neg h]
    exact C.rel_bind (hp.value _ _) fun _ => C.rel_bind (hp.value _ _) fun _ => same_emit rfl
  | case6 id operand location span => exact hp.value _ _
  | case7 node h₁ h₂ h₃ h₄ =>
    rw [lowerPlace.eq_5 _ _ _ h₁ h₂ h₃ h₄, lowerPlace.eq_5 _ _ _ h₁ h₂ h₃ h₄]
    exact same_failAt (C.at_all _) rfl

include hp in
theorem rel_lowerLoad : C.Rel (lowerLoad parts node scope loc) (lowerLoad parts' node scope loc) :=
  C.rel_bind (rel_lowerPlace _ _ hp) fun _ => same_emitTo _ _ _ rfl

/-! ### Deferred expressions -/

include hp in
theorem rel_runDefer (expr : Node) :
    C.Rel (runDefer parts scope expr) (runDefer parts' scope expr) :=
  C.rel_bind (same_scopeAt scope) fun _ => C.rel_bind (same_openScope _ _) fun _ =>
    rel_unit_bind (hp.expr _ _ _) (C.rel_pure _)

include hp in
theorem rel_runDefersIn (path : ExitPath) (defers : List (ScopeId × DeferKind)) :
    C.Rel (runDefersIn parts path defers) (runDefersIn parts' path defers) := by
  induction defers with
  | nil => exact C.rel_pure _
  | cons d rest ih =>
    refine C.rel_get (fun _ _ _ => rfl) fun s => ?_
    dsimp only
    split
    · exact ih
    · exact rel_unit_bind (rel_runDefer _ hp _) <| C.rel_bind same_isTerminated fun _ =>
        rel_ite (C.rel_pure _) ih

include hp in
theorem rel_runDefers (target : Option ScopeId) (path : ExitPath) :
    C.Rel (runDefers parts scope target path) (runDefers parts' scope target path) :=
  C.rel_bind (same_scopesFrom scope) fun _ => rel_runDefersIn hp _ _

/-! ### Statements -/

variable (statements : List Node)

include hp in
theorem rel_lowerPlainBlock :
    C.Rel (lowerPlainBlock parts node statements scope loc)
      (lowerPlainBlock parts' node statements scope loc) := by
  refine C.rel_bind (same_openScope _ _) fun block => ?_
  refine C.rel_bind (C.rel_lowerStatements hp.statement _ _) fun last => ?_
  refine C.rel_bind same_isTerminated fun terminated => ?_
  cases terminated with
  | true => exact same_blockValue _ _ _
  | false => exact C.rel_bind (rel_runDefers _ hp _ _) fun _ => same_blockValue _ _ _

include hp in
theorem rel_lowerLabelledBlock (label : String) :
    C.Rel (lowerLabelledBlock parts node label statements scope loc)
      (lowerLabelledBlock parts' node label statements scope loc) := by
  refine C.rel_bind (same_settle _ _ _) fun loc => C.rel_bind (same_newBlock _) fun stop => ?_
  refine C.rel_bind (same_openScope _ _) fun block =>
    rel_unit_bind (C.rel_step (innerStep_openSink _ _)) ?_
  refine C.rel_bind (C.rel_lowerStatements hp.statement _ _) fun last => ?_
  have join : C.Same (do joinAt stop (← closeSink block) scope node) :=
    C.rel_bind (C.rel_step (innerStep_closeSink _)) fun _ => same_joinAt _ _ _ _
  refine C.rel_bind same_isTerminated fun terminated => ?_
  cases terminated with
  | true => exact join
  | false =>
    refine C.rel_bind (rel_runDefers _ hp _ _) fun _ => C.rel_bind same_isTerminated fun done => ?_
    cases done with
    | true => exact join
    | false =>
      exact C.rel_bind same_emitVoid fun _ => rel_unit_bind (C.rel_step (innerStep_flowInto _ _)) <|
        rel_unit_bind (same_emitGen rfl) join

include hp in
theorem rel_lowerBlock (label : Option String) :
    C.Rel (lowerBlock parts node label statements scope loc)
      (lowerBlock parts' node label statements scope loc) := by
  cases label with
  | none => exact rel_lowerPlainBlock _ _ _ hp _
  | some label => exact rel_lowerLabelledBlock _ _ _ hp _ _

include hp in
theorem rel_lowerLocalVar (name : String) (isConst isComptime : Bool)
    (typeExpr init : Option Node) :
    C.Rel (lowerLocalVar parts node name isConst isComptime typeExpr init scope)
      (lowerLocalVar parts' node name isConst isComptime typeExpr init scope) := by
  refine C.rel_bind (same_scopesFrom scope) fun scopes => ?_
  refine C.rel_bind (C.rel_orDeclareFailed _ _ _ (hp.comptimeValue? _ _)) fun typeInst => ?_
  cases init with
  | none => exact C.rel_orDeclareFailed _ _ _ (same_failAt (C.at_all _) rfl)
  | some init =>
    refine C.rel_bind (same_emit rfl) fun ptr =>
      rel_unit_bind (C.rel_step (innerStep_setNameHint _ _)) ?_
    dsimp only
    refine rel_ite_bind (same_openScope _ _) (C.rel_pure _) fun initScope => ?_
    refine C.rel_bind (C.rel_orDeclareFailed _ _ _ (hp.expr _ _ _)) fun value => ?_
    exact C.rel_bind (C.rel_declare _ _ (C.at_all _)) fun _ =>
      rel_unit_bind (same_emit rfl) (C.rel_pure _)

include hp in
theorem rel_lowerAssign (target value : Node) :
    C.Rel (lowerAssign parts target value scope) (lowerAssign parts' target value scope) := by
  rw [lowerAssign, lowerAssign]
  refine rel_ite (rel_unit_bind (hp.expr _ _ _) (C.rel_pure _)) ?_
  refine rel_ite (same_failTarget _ (C.at_all _)) ?_
  exact C.rel_bind (rel_lowerPlace _ _ hp) fun _ => rel_unit_bind (hp.expr _ _ _) (C.rel_pure _)

include hp in
theorem rel_lowerAssignOp (op : BinaryOperator) (target value : Node) :
    C.Rel (lowerAssignOp parts node op target value scope)
      (lowerAssignOp parts' node op target value scope) := by
  refine rel_ite (same_failTarget _ (C.at_all _)) ?_
  exact C.rel_bind (rel_lowerPlace _ _ hp) fun _ => C.rel_bind (same_emit rfl) fun _ =>
    C.rel_bind (hp.value _ _) fun _ => C.rel_bind (same_emit rfl) fun _ =>
      rel_unit_bind (same_emit rfl) (C.rel_pure _)

/-- The checks on an expression that stands as a statement. -/
theorem same_checkStatement (start : Nat) (value : InstId) : C.Same (do
    if !(← isTerminated) then
      let effectful ← hasEffectSince start
      if (← read).options.warnNoEffect && !effectful then
        warnAt .noEffect "statement has no effect" node
      let _ ← emitGen (.checkStatementIsVoid value) scope node.location) := by
  refine C.rel_bind same_isTerminated fun terminated => ?_
  cases terminated with
  | true => exact C.rel_pure _
  | false =>
    refine C.rel_bind (same_hasEffectSince _) fun effectful => ?_
    exact C.rel_warnIdle effectful node (rel_unit_bind (same_emitGen rfl) (C.rel_pure _))

include hp in
theorem rel_lowerExprStatement :
    C.Rel (lowerExprStatement parts node scope) (lowerExprStatement parts' node scope) :=
  C.rel_get (fun _ _ _ => by simp) fun _ =>
    C.rel_bind (hp.expr _ _ _) fun _ => same_checkStatement _ _ _ _

include hp in
/-- Every statement. -/
theorem rel_lowerStatement :
    C.Rel (lowerStatement parts node scope) (lowerStatement parts' node scope) := by
  rw [lowerStatement, lowerStatement]
  split
  · exact rel_unit_bind (rel_lowerLocalVar _ _ hp _ _ _ _ _) (C.rel_pure _)
  · exact C.rel_defer _ _ _
  · exact rel_unit_bind (rel_lowerAssign _ hp _ _) (C.rel_pure _)
  · exact rel_unit_bind (rel_lowerAssignOp _ _ hp _ _ _) (C.rel_pure _)
  · split
    · exact rel_unit_bind (rel_lowerExprStatement _ _ hp) (C.rel_pure _)
    · exact rel_unit_bind (hp.expr _ _ _) (C.rel_pure _)

/-! ### Branches -/

include hp in
theorem rel_lowerElse (branch : Option Node) :
    C.Rel (lowerElse parts node branch scope loc) (lowerElse parts' node branch scope loc) := by
  cases branch with
  | some branch => exact hp.expr _ _ _
  | none => exact same_emitVoid

include hp in
theorem rel_lowerIf (condition : Node) (payload : Option String) (thenBranch : Node)
    (elseBranch : Option Node) :
    C.Rel (lowerIf parts node condition payload thenBranch elseBranch scope loc)
      (lowerIf parts' node condition payload thenBranch elseBranch scope loc) := by
  refine C.rel_bind (same_settle _ _ _) fun loc => C.rel_bind (hp.value _ _) fun cond => ?_
  refine C.rel_bind (same_newBlock _) fun _ => C.rel_bind (same_newBlock _) fun _ => ?_
  refine C.rel_bind (same_newBlock _) fun stop => C.rel_bind (same_emitTest _ _ _ _) fun _ => ?_
  refine rel_unit_bind (same_emit rfl) <| rel_unit_bind (same_goto _) ?_
  refine C.rel_bind (same_enterBranch _ _ (C.at_all _) _ _) fun _ => ?_
  refine C.rel_bind (hp.expr _ _ _) fun _ => C.rel_bind (same_branchInto _ _ _ _ _) fun _ => ?_
  refine rel_unit_bind (same_goto _) ?_
  exact C.rel_bind (rel_lowerElse _ _ _ hp _) fun _ =>
    C.rel_bind (same_branchInto _ _ _ _ _) fun _ => same_joinAt _ _ _ _

include hp in
theorem rel_lowerCatch (lhs : Node) (payload : Option String) (rhs : Node) :
    C.Rel (lowerCatch parts node lhs payload rhs scope loc)
      (lowerCatch parts' node lhs payload rhs scope loc) := by
  refine C.rel_bind (same_settle _ _ _) fun loc => C.rel_bind (hp.value _ _) fun value => ?_
  refine C.rel_bind (same_emit rfl) fun _ => C.rel_bind (same_newBlock _) fun _ => ?_
  refine C.rel_bind (same_newBlock _) fun okBlock => C.rel_bind (same_newBlock _) fun stop => ?_
  refine rel_unit_bind (same_emitGen rfl) <| rel_unit_bind (same_goto _) ?_
  refine C.rel_bind (same_openScope _ _) fun handler => ?_
  have handled := fun handler => C.rel_bind (hp.expr rhs handler loc)
    (same_unwrapInto scope node loc (.unwrapErrPayload value false) rfl okBlock stop)
  cases payload with
  | some name =>
    exact C.rel_bind (same_emitGen rfl) fun _ =>
      C.rel_bind (same_bindPayload _ _ (C.at_all _) _ _) handled
  | none => exact C.rel_bind (C.rel_pure _) handled

include hp in
theorem rel_lowerOrElse (lhs rhs : Node) :
    C.Rel (lowerOrElse parts node lhs rhs scope loc)
      (lowerOrElse parts' node lhs rhs scope loc) := by
  refine C.rel_bind (same_settle _ _ _) fun loc => C.rel_bind (hp.value _ _) fun value => ?_
  refine C.rel_bind (same_emit rfl) fun _ => C.rel_bind (same_newBlock _) fun _ => ?_
  refine C.rel_bind (same_newBlock _) fun _ => C.rel_bind (same_newBlock _) fun stop => ?_
  refine rel_unit_bind (same_emitGen rfl) <| rel_unit_bind (same_goto _) ?_
  exact C.rel_bind (hp.expr _ _ _) (same_unwrapInto _ _ _ _ rfl _ _)

include hp in
theorem rel_lowerShortCircuit (op : BinaryOperator) (lhs rhs : Node) :
    C.Rel (lowerShortCircuit parts node op lhs rhs scope loc)
      (lowerShortCircuit parts' node op lhs rhs scope loc) := by
  refine C.rel_bind (hp.value _ _) fun left => C.rel_bind (same_newBlock _) fun rhsBlock => ?_
  refine C.rel_bind (same_newBlock _) fun stop => C.rel_bind same_currentBlock fun source => ?_
  dsimp only
  have right : C.Rel (do
      goto rhsBlock
      let right ← parts.value rhs scope
      let incoming ← branchInto stop [(source, left)] right scope false
      let value ← joinAt stop incoming scope node
      deliver value loc scope node.location) (do
      goto rhsBlock
      let right ← parts'.value rhs scope
      let incoming ← branchInto stop [(source, left)] right scope false
      let value ← joinAt stop incoming scope node
      deliver value loc scope node.location) :=
    rel_unit_bind (same_goto _) <| C.rel_bind (hp.value _ _) fun _ =>
      C.rel_bind (same_branchInto _ _ _ _ _) fun _ => C.rel_bind (same_joinAt _ _ _ _) fun _ =>
        same_deliver _ _ _ _
  split <;> exact rel_unit_bind (same_emitGen rfl) right

/-! ### Loops -/

include hp in
theorem rel_finishLoop (loopScope : ScopeId) (elseBranch : Option Node) (blocks : LoopBlocks)
    (force : Bool) :
    C.Rel (finishLoop parts node loopScope elseBranch blocks scope loc force)
      (finishLoop parts' node loopScope elseBranch blocks scope loc force) :=
  rel_unit_bind (same_goto _) <| C.rel_bind (rel_lowerElse _ _ _ hp _) fun _ =>
    C.rel_bind (C.rel_step (innerStep_closeSink _)) fun _ =>
      C.rel_bind (same_branchInto _ _ _ _ _) fun _ => same_joinAt _ _ _ _

include hp in
theorem rel_lowerWhile (label : Option String) (condition : Node) (payload : Option String)
    (continueExpr : Option Node) (body : Node) (elseBranch : Option Node) (isInline : Bool) :
    C.Rel (lowerWhile parts node label condition payload continueExpr body elseBranch isInline
        scope loc)
      (lowerWhile parts' node label condition payload continueExpr body elseBranch isInline
        scope loc) := by
  refine C.rel_bind (same_settle _ _ _) fun loc => C.rel_bind (same_newLoop _) fun blocks => ?_
  refine rel_unit_bind (same_emitWith rfl) <| rel_unit_bind (same_goto _) ?_
  refine C.rel_bind (hp.value _ _) fun _ => C.rel_bind (same_emitTest _ _ _ _) fun _ => ?_
  refine rel_unit_bind (same_emitWith rfl) <| rel_unit_bind (same_goto _) ?_
  refine C.rel_bind (same_enterLoop _ _ _ _) fun loopScope => ?_
  refine C.rel_bind (same_enterBranch _ _ (C.at_all _) _ _) fun bodyScope => ?_
  refine rel_unit_bind (hp.expr _ _ _) <| rel_unit_bind (same_jumpUnlessTerminated _ _ _ _) ?_
  refine rel_unit_bind (same_goto _) ?_
  have finish : C.Rel (do
      jumpUnlessTerminated blocks.test node scope isInline
      finishLoop parts node loopScope elseBranch blocks scope loc isInline) (do
      jumpUnlessTerminated blocks.test node scope isInline
      finishLoop parts' node loopScope elseBranch blocks scope loc isInline) :=
    rel_unit_bind (same_jumpUnlessTerminated _ _ _ _) (rel_finishLoop _ _ _ hp _ _ _ _)
  cases continueExpr with
  | some expr => exact rel_unit_bind (hp.expr _ _ _) finish
  | none => exact finish

include hp in
theorem rel_lowerFor (label : Option String) (iterable : Node) (item : String)
    (index : Option String) (body : Node) (elseBranch : Option Node) (isInline : Bool) :
    C.Rel (lowerFor parts node label iterable item index body elseBranch isInline scope loc)
      (lowerFor parts' node label iterable item index body elseBranch isInline scope loc) := by
  refine C.rel_bind (same_settle _ _ _) fun loc => C.rel_bind (hp.value _ _) fun array => ?_
  refine C.rel_bind (same_emitGen rfl) fun _ => C.rel_bind (same_emitGen rfl) fun _ => ?_
  refine C.rel_bind (same_emitWith rfl) fun indexPtr => C.rel_bind (same_emitGen rfl) fun _ => ?_
  refine rel_unit_bind (same_emitGen rfl) <| C.rel_bind (same_newLoop _) fun blocks => ?_
  refine rel_unit_bind (same_emitWith rfl) <| rel_unit_bind (same_goto _) ?_
  refine C.rel_bind (same_emitGen rfl) fun _ => C.rel_bind (same_emitGen rfl) fun _ => ?_
  refine rel_unit_bind (same_emitWith rfl) <| rel_unit_bind (same_goto _) ?_
  refine C.rel_bind (same_enterLoop _ _ _ _) fun loopScope => ?_
  refine C.rel_bind (same_emitGen rfl) fun _ => C.rel_bind (same_emitGen rfl) fun _ => ?_
  refine C.rel_bind (same_bindPayload _ _ (C.at_all _) _ _) fun bodyScope => ?_
  refine C.rel_bind (C.rel_declare _ _ (C.at_all _)) fun _ => rel_unit_bind (same_emitGen rfl) ?_
  refine rel_unit_bind (hp.expr _ _ _) <| rel_unit_bind (same_jumpUnlessTerminated _ _ _ _) ?_
  refine rel_unit_bind (same_goto _) <| rel_unit_bind (same_stepIndex _ _ _) ?_
  exact rel_unit_bind (same_emitWith rfl) (rel_finishLoop _ _ _ hp _ _ _ _)

/-! ### Jumps -/

include hp in
theorem rel_lowerBreak (label : Option String) (value : Option Node) :
    C.Rel (lowerBreak parts node label value scope)
      (lowerBreak parts' node label value scope) := by
  refine C.rel_bind (same_breakScope _ _ (C.at_all _) _) fun target => ?_
  refine C.rel_bind (same_leavesStream _ _) fun _ => rel_ite (same_failLeaving _ (C.at_all _)) ?_
  refine C.rel_bind (same_scopeAt _) fun x => ?_
  split
  · exact same_failMismatch _ (C.at_all _) _
  next stop _ =>
    refine C.rel_bind (same_sink? _) fun sink => ?_
    have jump : ∀ v, C.Rel (do
        runDefers parts scope (some target) .normal
        if ← isTerminated then lastInst
        else
          flowInto target v
          emit (.br stop) scope node.location) (do
        runDefers parts' scope (some target) .normal
        if ← isTerminated then lastInst
        else
          flowInto target v
          emit (.br stop) scope node.location) := fun v =>
      rel_unit_bind (rel_runDefers _ hp _ _) <| C.rel_bind same_isTerminated fun _ =>
        rel_ite same_lastInst (rel_unit_bind (C.rel_step (innerStep_flowInto _ _)) (same_emit rfl))
    cases value with
    | some value => exact C.rel_bind (hp.expr _ _ _) jump
    | none => exact C.rel_bind same_emitVoid jump

include hp in
theorem rel_lowerContinue (label : Option String) :
    C.Rel (lowerContinue parts node label scope) (lowerContinue parts' node label scope) := by
  refine C.rel_bind (same_continueScope _ _ (C.at_all _) _) fun target => ?_
  refine C.rel_bind (same_leavesStream _ _) fun _ => rel_ite (same_failLeaving _ (C.at_all _)) ?_
  refine C.rel_bind (same_scopeAt _) fun x => ?_
  split
  · exact same_failMismatch _ (C.at_all _) _
  · exact rel_unit_bind (rel_runDefers _ hp _ _) <| C.rel_bind same_isTerminated fun _ =>
      rel_ite same_lastInst (same_emit rfl)

include hp in
theorem rel_emitErrReturn (value : InstId) :
    C.Rel (emitErrReturn parts node value scope) (emitErrReturn parts' node value scope) := by
  refine C.rel_bind (same_emitGen rfl) fun _ => C.rel_bind (same_newBlock _) fun _ => ?_
  refine C.rel_bind (same_newBlock _) fun _ => rel_unit_bind (same_emitGen rfl) ?_
  refine rel_unit_bind (same_goto _) <| rel_unit_bind (rel_runDefers _ hp _ _) ?_
  exact same_returnUnlessTerminated _ _ (same_goto _) rfl

include hp in
theorem rel_returnOperand (operand : Option InstId) : C.Rel (do
      match if passesErrDefer (← scopesFrom scope) scope then operand else none with
      | some value => emitErrReturn parts node value scope
      | none => pure ⟨⟩
      runDefers parts scope none .normal
      if ← isTerminated then lastInst else emit (.ret operand) scope node.location) (do
      match if passesErrDefer (← scopesFrom scope) scope then operand else none with
      | some value => emitErrReturn parts' node value scope
      | none => pure ⟨⟩
      runDefers parts' scope none .normal
      if ← isTerminated then lastInst else emit (.ret operand) scope node.location) := by
  refine C.rel_bind (same_scopesFrom _) fun scopes => ?_
  have run : C.Rel (do
      runDefers parts scope none .normal
      if ← isTerminated then lastInst else emit (.ret operand) scope node.location) (do
      runDefers parts' scope none .normal
      if ← isTerminated then lastInst else emit (.ret operand) scope node.location) :=
    rel_unit_bind (rel_runDefers _ hp _ _) <| C.rel_bind same_isTerminated fun _ =>
      rel_ite same_lastInst (same_emit rfl)
  split
  · exact C.rel_bind (rel_emitErrReturn _ _ hp _) fun _ => run
  · exact run

include hp in
theorem rel_lowerReturn (value : Option Node) :
    C.Rel (lowerReturn parts node value scope) (lowerReturn parts' node value scope) := by
  refine C.rel_bind (same_checkFnExit _ _ (C.at_all _) _) fun _ => ?_
  have leave := rel_returnOperand scope node hp
  cases value with
  | some value => exact C.rel_bind (rel_map _ (hp.expr _ _ _)) leave
  | none => exact C.rel_bind (C.rel_pure _) leave

include hp in
theorem rel_lowerTry (expr : Node) :
    C.Rel (lowerTry parts node expr scope loc) (lowerTry parts' node expr scope loc) := by
  refine C.rel_bind (same_checkFnExit _ _ (C.at_all _) _) fun _ => ?_
  refine C.rel_bind (hp.value _ _) fun value => C.rel_bind (same_emit rfl) fun _ => ?_
  refine C.rel_bind (same_newBlock _) fun _ => ?_
  refine C.rel_bind (same_newBlock _) fun _ => rel_unit_bind (same_emitGen rfl) ?_
  refine rel_unit_bind (same_goto _) <| C.rel_bind (same_emitGen rfl) fun code => ?_
  refine rel_unit_bind (rel_runDefers _ hp _ _) ?_
  exact same_returnUnlessTerminated _ _ (rel_unit_bind (same_goto _) (same_emitTo _ _ _ rfl)) rfl

/-! ### Types and aggregates -/

include hp in
theorem rel_lowerFields (kind : ContainerKind) (seen : Seen) (fields : List Node) :
    C.Rel (lowerFields parts kind scope seen fields)
      (lowerFields parts' kind scope seen fields) := by
  induction fields generalizing seen with
  | nil => exact C.rel_pure _
  | cons field rest ih =>
    rw [lowerFields, lowerFields]
    split
    · split
      · exact same_failTaken (C.at_all _)
      · exact C.rel_bind (hp.comptimeValue? _ _) fun _ =>
          C.rel_bind (hp.comptimeValue? _ _) fun _ => C.rel_bind (ih _) fun _ => C.rel_pure _
    · exact same_failAt (C.at_all _) rfl

include hp in
theorem rel_lowerContainer (kind : ContainerKind) (fields decls : List Node) :
    C.Rel (lowerContainer parts node kind fields decls scope loc)
      (lowerContainer parts' node kind fields decls scope loc) :=
  have hat : ∀ (nodes : List Node), ∀ node ∈ nodes, C.At node.location := fun _ _ _ => C.at_all _
  C.rel_bind (same_typeName _ _ _) fun _ => C.rel_bind (same_checkOpaque _ _ (hat _)) fun _ =>
    C.rel_bind (rel_lowerFields _ hp _ _ _) fun _ =>
      C.rel_bind (same_memberNames _ _ (hat _)) fun _ => same_emitTo _ _ _ rfl

include hp in
theorem rel_lowerFieldInits (target : Option InstId) (seen : Seen) (fields : List FieldInit) :
    C.Rel (lowerFieldInits parts target scope seen fields)
      (lowerFieldInits parts' target scope seen fields) := by
  induction fields generalizing seen with
  | nil => exact C.rel_pure _
  | cons field rest ih =>
    rw [lowerFieldInits, lowerFieldInits]
    split
    · exact same_failTaken (C.at_all _)
    · exact C.rel_bind (same_fieldLoc _ _ _) fun _ => C.rel_bind (hp.expr _ _ _) fun _ =>
        C.rel_bind (ih _) fun _ => C.rel_pure _

include hp in
theorem rel_lowerStructInit (typeExpr : Option Node) (fields : List FieldInit) :
    C.Rel (lowerStructInit parts node typeExpr fields scope loc)
      (lowerStructInit parts' node typeExpr fields scope loc) :=
  C.rel_bind (hp.comptimeValue? _ _) fun _ => C.rel_bind (same_resultPtr _ _ _) fun _ =>
    C.rel_bind (rel_lowerFieldInits _ hp _ _ _) fun _ => same_emit rfl

include hp in
theorem rel_lowerElements (target : Option InstId) (index : Nat) (elements : List Node) :
    C.Rel (lowerElements parts target scope index elements)
      (lowerElements parts' target scope index elements) := by
  induction elements generalizing index with
  | nil => exact C.rel_pure _
  | cons element rest ih =>
    exact C.rel_bind (same_elementLoc _ _ _ _) fun _ => C.rel_bind (hp.expr _ _ _) fun _ =>
      C.rel_bind (ih _) fun _ => C.rel_pure _

include hp in
theorem rel_lowerArrayInit (typeExpr : Option Node) (elements : List Node) :
    C.Rel (lowerArrayInit parts node typeExpr elements scope loc)
      (lowerArrayInit parts' node typeExpr elements scope loc) :=
  C.rel_bind (hp.comptimeValue? _ _) fun _ => C.rel_bind (same_resultPtr _ _ _) fun _ =>
    C.rel_bind (rel_lowerElements _ hp _ _ _) fun _ => same_emit rfl

/-! ### Operators and calls -/

include hp in
theorem rel_lowerArgs (args : List Node) :
    C.Rel (lowerArgs parts scope args) (lowerArgs parts' scope args) := by
  induction args with
  | nil => exact C.rel_pure _
  | cons arg rest ih =>
    exact C.rel_bind (hp.value _ _) fun _ => C.rel_bind ih fun _ => C.rel_pure _

include hp in
theorem rel_lowerCall (callee : Node) (args : List Node) (modifier : CallModifier) :
    C.Rel (lowerCall parts node callee args modifier scope loc)
      (lowerCall parts' node callee args modifier scope loc) := by
  refine C.rel_bind (same_scopesFrom _) fun scopes => ?_
  refine C.rel_bind (same_checkModifier _ (C.at_all _) _ _) fun _ => ?_
  refine C.rel_bind (hp.value _ _) fun target => ?_
  have all : C.Rel (do
      let argScope ← if (modifier = .compileTime && !scopes.isForcedComptime scope)
        then openScope scope .comptime else pure scope
      lowerArgs parts argScope args) (do
      let argScope ← if (modifier = .compileTime && !scopes.isForcedComptime scope)
        then openScope scope .comptime else pure scope
      lowerArgs parts' argScope args) :=
    rel_ite_bind (same_openScope _ _) (C.rel_pure _) fun _ => rel_lowerArgs _ hp _
  refine C.rel_bind (same_isComptimeAt _) fun atComptime => ?_
  refine rel_ite_bind (C.rel_withFrame _ _ all) all fun values => ?_
  exact C.rel_bind (same_resultPtr _ _ _) fun _ => same_emitWith rfl

include hp in
theorem rel_lowerAs (args : List Node) :
    C.Rel (lowerAs parts node args scope loc) (lowerAs parts' node args scope loc) :=
  C.rel_bind (same_argAt _ _) fun _ => C.rel_bind (hp.comptimeValue _ _) fun _ =>
    C.rel_bind (same_argAt _ _) fun _ => C.rel_bind (hp.value _ _) fun _ => same_emitTo _ _ _ rfl

include hp in
theorem rel_lowerBuiltinCall (name : String) (args : List Node) :
    C.Rel (lowerBuiltinCall parts node name args scope loc)
      (lowerBuiltinCall parts' node name args scope loc) := by
  unfold lowerBuiltinCall
  dsimp only
  split
  · exact same_failAt (C.at_all _) rfl
  refine rel_ite (same_failAt (C.at_all _) rfl) ?_
  split
  · exact rel_lowerAs _ _ _ hp _
  · exact C.rel_bind (rel_lowerArgs _ hp _) fun _ => same_emitTo _ _ _ rfl

include hp in
theorem rel_lowerUnary (op : UnaryOperator) (operand : Node) :
    C.Rel (lowerUnary parts node op operand scope loc)
      (lowerUnary parts' node op operand scope loc) := by
  have one : ∀ kind : InstId → InstKind, (∀ value, (kind value).isInner = true) → C.Rel (do
      let value ← parts.value operand scope
      emitTo (kind value) scope node.location loc) (do
      let value ← parts'.value operand scope
      emitTo (kind value) scope node.location loc) := fun kind h =>
    C.rel_bind (hp.value _ _) fun value => same_emitTo _ _ _ (h value)
  cases op with
  | addressOf =>
    exact rel_ite (C.rel_bind (rel_lowerPlace _ _ hp) fun _ => same_deliver _ _ _ _)
      (one .ref fun _ => rfl)
  | deref => exact one .loadPtr fun _ => rfl
  | optionalUnwrap => exact one (.optionalUnwrap · true) fun _ => rfl
  | negate => exact one (.unOp .negate) fun _ => rfl
  | boolNot => exact one (.unOp .boolNot) fun _ => rfl
  | bitNot => exact one (.unOp .bitNot) fun _ => rfl

include hp in
theorem rel_lowerBinary (op : BinaryOperator) (lhs rhs : Node) :
    C.Rel (lowerBinary parts node op lhs rhs scope loc)
      (lowerBinary parts' node op lhs rhs scope loc) := by
  cases op
  case boolAnd | boolOr => exact rel_lowerShortCircuit _ _ _ hp _ _ _
  case orElse => exact rel_lowerOrElse _ _ _ hp _ _
  all_goals
    exact C.rel_bind (hp.value _ _) fun _ => C.rel_bind (hp.value _ _) fun _ =>
      same_emitTo _ _ _ rfl

/-! ### Compile-time blocks and suspension -/

include hp in
theorem rel_lowerComptimeBody (expr : Node) :
    C.Rel (lowerComptimeBody parts node expr scope)
      (lowerComptimeBody parts' node expr scope) :=
  C.rel_bind (hp.value _ _) fun _ => same_returnUnlessTerminated _ _ (C.rel_pure _) rfl

include hp in
theorem rel_lowerSuspend (body : Option Node) :
    C.Rel (lowerSuspend parts node body scope) (lowerSuspend parts' node body scope) := by
  refine C.rel_bind (same_checkSuspend _ _ (C.at_all _)) fun _ => ?_
  refine C.rel_bind (same_emit rfl) fun start => ?_
  cases body with
  | some body =>
    exact C.rel_bind (same_openScope _ _) fun _ => rel_unit_bind (hp.expr _ _ _) (same_emit rfl)
  | none => exact same_emit rfl

/-! ### Expressions -/

include hp in
/-- Every expression, if compile-time blocks are related. -/
theorem rel_lowerExpr_of
    (h : ∀ expr, C.Rel (lowerComptime parts node expr scope loc)
      (lowerComptime parts' node expr scope loc)) :
    C.Rel (lowerExpr parts node scope loc) (lowerExpr parts' node scope loc) := by
  have hload := rel_lowerLoad scope node loc hp
  rw [lowerExpr, lowerExpr]
  cases node.kind
  case varDecl | deferred | root | fnDecl | param | testDecl | containerField =>
    exact same_failAt (C.at_all _) rfl
  case fieldAccess | arrayAccess => exact hload
  case intLiteral | floatLiteral | stringLiteral | boolLiteral | nullLiteral | undefinedLiteral |
      errorValue => exact same_emitTo _ _ _ rfl
  case symbol =>
    exact C.rel_bind (same_lowerSymbol _ _ (C.at_all _) _ _) fun _ => same_deliver _ _ _ _
  case unaryOp => exact rel_lowerUnary _ _ _ hp _ _
  case binaryOp => exact rel_lowerBinary _ _ _ hp _ _ _
  case call => exact rel_lowerCall _ _ _ hp _ _ _
  case builtinCall => exact rel_lowerBuiltinCall _ _ _ hp _ _
  case containerDecl => exact rel_lowerContainer _ _ _ hp _ _ _
  case errorSetDecl => exact same_lowerErrorSet _ _ _ _ fun _ _ => C.at_all _
  case structInit => exact rel_lowerStructInit _ _ _ hp _ _
  case arrayInit => exact rel_lowerArrayInit _ _ _ hp _ _
  case block => exact rel_lowerBlock _ _ _ hp _ _
  case assign => exact C.rel_bind (rel_lowerAssign _ hp _ _) fun _ => same_emitVoid
  case assignOp => exact C.rel_bind (rel_lowerAssignOp _ _ hp _ _ _) fun _ => same_emitVoid
  case ifThen => exact rel_lowerIf _ _ _ hp _ _ _ _
  case whileLoop => exact rel_lowerWhile _ _ _ hp _ _ _ _ _ _ _
  case forLoop => exact rel_lowerFor _ _ _ hp _ _ _ _ _ _ _
  case breakTo => exact rel_lowerBreak _ _ hp _ _
  case continueTo => exact rel_lowerContinue _ _ hp _
  case returnFrom => exact rel_lowerReturn _ _ hp _
  case tryExpr => exact rel_lowerTry _ _ _ hp _
  case catchExpr => exact rel_lowerCatch _ _ _ hp _ _ _
  case comptime => exact h _
  case suspend => exact rel_lowerSuspend _ _ hp _
  case unreachable => exact same_emit rfl
  case asm => exact same_lowerAsm _ _ _ (C.at_all _) _ _

end Comparison

/-! ### Streams inside streams -/

namespace NestedComparison

open Outline Comparison

variable {C : NestedComparison} {parts parts' : Parts} (scope : ScopeId) (node : Node)
  (loc : ResultLoc) (hp : C.RelParts parts parts')

/-- The instruction that evaluates a stream. -/
theorem same_evaluate (unit : Nat) :
    C.Same (emitTo (.comptimeBlock unit) scope node.location loc) :=
  C.rel_bind (C.rel_plain (plainStep_emitWith rfl _ _ _ _)) fun _ => same_deliver _ _ _ _

include hp in
theorem rel_lowerComptime (expr : Node) :
    C.Rel (lowerComptime parts node expr scope loc)
      (lowerComptime parts' node expr scope loc) := by
  refine C.rel_bind (same_openScope _ _) fun inner => ?_
  refine C.rel_bind (same_isComptimeAt _) fun _ => rel_ite (hp.expr _ _ _) ?_
  refine C.rel_get (fun _ _ _ => by simp) fun s => ?_
  exact C.rel_inChildStream _ _ (C.rel_withFrame _ _ (rel_lowerComptimeBody _ _ hp _))
    (fun _ => rfl) (fun _ => rfl) fun _ _ => same_evaluate _ _ _ _

include hp in
/-- Every expression. -/
theorem rel_lowerExpr :
    C.Rel (lowerExpr parts node scope loc) (lowerExpr parts' node scope loc) :=
  rel_lowerExpr_of _ _ _ hp fun _ => rel_lowerComptime _ _ _ hp _

end NestedComparison

end SourceIr.Lower
