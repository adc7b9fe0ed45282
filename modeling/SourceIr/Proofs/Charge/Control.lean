import SourceIr.Proofs.Charge.Basic

/-!
# What the constructs are charged with

Every construct lowers each of its parts at most once, so that a part answers for what is put on
record about it.  The exits from a block lower deferred expressions, which are not parts of the
construct that exits.

* `ChargesParts`, what is relied on for the routines for parts;
* `charges_runDefers`, what is lowered anew answers for itself;
* `charges_lowerExpr` and `charges_lowerStatement`, with one lemma for each construct before them;
* `chargesParts_nested`, all levels of nesting.
-/

namespace SourceIr.Lower

open Outline

variable {env : Env} {root : Node} {blamed nodes : List Node} {α β : Type} {x : LowerM α}

/-- A node answers for itself and for those below it. -/
theorem Charges.whole {node : Node} (h : Charges env root [node] node.kind.direct x) :
    Charges env root blamed node.direct x :=
  h.absorb (by rw [node.direct_eq]; exact .refl _)

/-- A failure on the node itself. -/
theorem at_self (env : Env) (root node : Node) : (charging env root [node]).At node.location :=
  ⟨node, List.mem_singleton_self _, rfl⟩

/-- A node that is refused, whatever would have come after it. -/
theorem charges_refused {node : Node} (h : (charging env root [node]).Same x) :
    Charges env root blamed (node.direct ++ nodes) x :=
  (Charges.whole (charges_same h)).mono (List.sublist_append_left _ _)

/-- What is put on record while a part is lowered is charged to its nodes: the part itself answers
for a failure, and as a statement for a warning. -/
structure ChargesParts (env : Env) (root : Node) (parts : Parts) : Prop where
  expr : ∀ node scope loc, Charges env root [node] node.kind.direct (parts.expr node scope loc)
  statement : ∀ node scope, Charges env root [] node.direct (parts.statement node scope)

variable {parts : Parts} (scope : ScopeId) (node : Node) (loc : ResultLoc)
  (hp : ChargesParts env root parts)

/-! ### Parts -/

include hp

theorem ChargesParts.part : Charges env root blamed node.direct (parts.expr node scope loc) :=
  (hp.expr node scope loc).whole

theorem ChargesParts.value : Charges env root blamed node.direct (parts.value node scope) :=
  hp.part _ _ _

theorem ChargesParts.comptimeValue :
    Charges env root blamed node.direct (parts.comptimeValue node scope) :=
  charges_then (same_openScope _ _) fun _ => hp.value _ _

theorem ChargesParts.comptimeValue? (node : Option Node) :
    Charges env root blamed (directOfOption node) (parts.comptimeValue? node scope) := by
  cases node with
  | some node =>
    rw [Parts.comptimeValue?, map_eq_pure_bind]
    exact charges_last (hp.comptimeValue _ _) fun _ => rel_pure _ _
  | none => exact charges_pure _

/-! ### Places -/

theorem charges_lowerPlace :
    Charges env root [node] node.kind.direct (lowerPlace parts scope node) := by
  induction node using lowerPlace.induct parts scope with
  | case1 id name location span => exact charges_same (same_lowerSymbol _ _ (at_self ..) _ _)
  | case2 id container field location span h ih =>
    rw [lowerPlace, if_pos h]
    exact charges_last ih.whole fun _ => same_emit rfl
  | case3 id container field location span h =>
    rw [lowerPlace, if_neg h]
    exact charges_last (hp.value _ _) fun _ => same_emit rfl
  | case4 id array index location span h ih =>
    rw [lowerPlace, if_pos h]
    exact charges_bind ih.whole fun _ => charges_last (hp.value _ _) fun _ => same_emit rfl
  | case5 id array index location span h =>
    rw [lowerPlace, if_neg h]
    exact charges_bind (hp.value _ _) fun _ => charges_last (hp.value _ _) fun _ => same_emit rfl
  | case6 id operand location span => exact hp.value _ _
  | case7 node h₁ h₂ h₃ h₄ =>
    rw [lowerPlace.eq_5 _ _ _ h₁ h₂ h₃ h₄]
    exact charges_same (same_failAt (at_self ..) rfl)

theorem charges_lowerLoad :
    Charges env root [node] node.kind.direct (lowerLoad parts node scope loc) :=
  charges_last (charges_lowerPlace _ _ hp) fun _ => same_emitTo _ _ _ rfl

/-! ### Deferred expressions -/

/-- An expression that is lowered anew, in a scope that is opened for it, answers for itself. -/
theorem charges_runDefer {expr : Node} (he : root.Defers expr) :
    (charging env root blamed).Same (runDefer parts scope expr) := by
  refine Charges.mk fun _ s ht => ?_
  rw [runDefer, outcome_bind]
  cases hx : s.scopes.scope? scope with
  | none =>
    rw [scopeAt, outcome_bind, outcome_get]
    simp only [hx]
    trivial
  | some y =>
    rw [outcome_scopeAt hx]
    dsimp only
    rw [outcome_bind]
    obtain ⟨f, -, ho⟩ | ⟨-, ho⟩ :=
      outcome_openScope_cases (s := s) (y.parent.getD scope) .deferredBody <;> rw [ho]
    · trivial
    · dsimp only
      have hcharges : Charges env root blamed expr.direct
          (parts.expr expr ⟨s.scopes.scopes.size⟩ .discard) := hp.part _ _ _
      have hpart := hcharges.ends (fun node hn _ hexpr => he.inside hn hexpr) { s with
        scopes := (s.scopes.openUnder (y.parent.getD scope) .deferredBody).2 } ht
      rw [outcome_bind]
      generalize outcome (parts.expr expr _ _) env _ = o at hpart
      obtain ⟨(_ | _) | v, t⟩ := o
      · exact (Charged.deferred he hpart).mono fun location => by simp
      · trivial
      · have h : Charged root _ t ([] ++ expr.direct) := hpart
        exact .deferred he h

theorem charges_runDefersIn (path : ExitPath) (defers : List (ScopeId × DeferKind)) :
    (charging env root blamed).Same (runDefersIn parts path defers) := by
  induction defers with
  | nil => exact charges_pure _
  | cons d rest ih =>
    refine Charges.mk fun hd s ht => ?_
    rw [runDefersIn, outcome_bind, outcome_get]
    dsimp only
    split
    · exact Charges.ends ih hd s ht
    next expr he =>
      have hdefers : root.Defers expr := by
        split at he
        · obtain ⟨pre, post, hmem, -⟩ := List.lookup_eq_some_iff.1 he
          exact ht (d.1, expr) (hmem ▸ by simp)
        · cases he
      have h : (charging env root blamed).Same (do
          runDefer parts d.1 expr
          if ← isTerminated then return ⟨⟩ else runDefersIn parts path rest) :=
        rel_bind _ (charges_runDefer _ hp hdefers) fun _ =>
          rel_bind _ same_isTerminated fun _ => rel_ite (charges_pure _) ih
      exact Charges.ends h hd s ht

theorem charges_runDefers (target : Option ScopeId) (path : ExitPath) :
    (charging env root blamed).Same (runDefers parts scope target path) :=
  rel_bind _ (same_scopesFrom _) fun _ => charges_runDefersIn hp _ _

/-! ### Statements -/

theorem charges_lowerStatements (failed : Bool) (statements : List Node) :
    Charges env root blamed (directOfList statements)
      (lowerStatements parts scope failed statements) := by
  induction statements generalizing scope failed with
  | nil =>
    cases failed with
    | true => exact charges_poisoned
    | false => exact charges_pure _
  | cons statement rest ih =>
    refine charges_then same_isTerminated fun terminated => ?_
    cases terminated with
    | true =>
      have hwarn : Charges env root blamed statement.direct
          (warnAt .unreachableCode "unreachable code" statement) :=
        charges_warnAt (by rw [statement.direct_eq]; exact List.mem_cons_self)
      refine charges_bind hwarn fun _ => ?_
      cases failed with
      | true => exact charges_poisoned
      | false => exact charges_pure _
    | false =>
      refine charges_bind (charges_attempt (hp.statement statement scope)) fun next => ?_
      cases next with
      | some next => exact ih next failed
      | none =>
        refine charges_read ?_
        split
        · exact charges_poisoned
        · exact ih scope true

theorem charges_lowerBlock (label : Option String) (statements : List Node) :
    Charges env root blamed (directOfList statements)
      (lowerBlock parts node label statements scope loc) := by
  cases label with
  | none =>
    refine charges_then (same_openScope _ _) fun block => ?_
    refine charges_last (charges_lowerStatements _ hp _ _) fun last => ?_
    refine rel_bind _ same_isTerminated fun terminated => ?_
    cases terminated with
    | true => exact same_blockValue _ _ _
    | false =>
      exact rel_bind _ (charges_runDefers _ hp _ _) fun _ => same_blockValue _ _ _
  | some label =>
    refine charges_then (same_settle _ _ _) fun loc => charges_then (same_newBlock _) fun stop => ?_
    refine charges_then (same_openScope _ _) fun block => ?_
    refine charges_then (rel_step _ (innerStep_openSink _ _)) fun _ => ?_
    refine charges_last (charges_lowerStatements _ hp _ _) fun last => ?_
    have join : (charging env root blamed).Same (do joinAt stop (← closeSink block) scope node) :=
      rel_bind _ (rel_step _ (innerStep_closeSink _)) fun _ => same_joinAt _ _ _ _
    refine rel_bind _ same_isTerminated fun terminated => ?_
    cases terminated with
    | true => exact join
    | false =>
      refine rel_bind _ (charges_runDefers _ hp _ _) fun _ => ?_
      refine rel_bind _ same_isTerminated fun done => ?_
      cases done with
      | true => exact join
      | false =>
        exact rel_bind _ same_emitVoid fun _ =>
          rel_unit_bind (rel_step _ (innerStep_flowInto _ _)) <|
            rel_unit_bind (same_emitGen rfl) join

theorem charges_lowerLocalVar (name : String) (isConst isComptime : Bool)
    (typeExpr init : Option Node) :
    Charges env root [node] (directOfOption typeExpr ++ directOfOption init)
      (lowerLocalVar parts node name isConst isComptime typeExpr init scope) := by
  refine charges_then (same_scopesFrom _) fun scopes => ?_
  refine charges_bind (charges_orDeclareFailed (hp.comptimeValue? _ _)) fun typeInst => ?_
  cases init with
  | none => exact charges_orDeclareFailed (charges_same (same_failAt (at_self ..) rfl))
  | some init =>
    refine charges_then (same_emit rfl) fun ptr => ?_
    refine charges_then (rel_step _ (innerStep_setNameHint _ _)) fun _ => ?_
    have rest : ∀ initScope, Charges env root [node] init.direct (do
        let value ← orDeclareFailed (parts.expr init initScope (.existing ptr)) node name scope
        let status : ComptimeStatus :=
          if isComptime || scopes.isForcedComptime scope then .known true else .pending value
        let var ← declare scope
          (((BindingRequest.named name node.location).constness isConst
            (isConst || (isComptime || scopes.isForcedComptime scope))).withComptime status)
        let _ ← emit (.declVar var ptr) scope node.location) := fun initScope =>
      charges_last (charges_orDeclareFailed (hp.part _ _ _)) fun _ =>
        rel_bind _ (rel_declare _ _ _ (at_self ..)) fun _ =>
          rel_unit_bind (same_emit rfl) (charges_pure _)
    dsimp only
    split
    · exact charges_then (same_openScope _ _) rest
    · exact charges_then (rel_pure _ _) rest

theorem charges_lowerAssign (target value : Node) :
    Charges env root blamed (target.direct ++ value.direct)
      (lowerAssign parts target value scope) := by
  rw [lowerAssign]
  refine charges_ite ?_ (charges_ite ?_ ?_)
  · exact (charges_last (hp.part _ _ _) fun _ => charges_pure _).mono
      (List.sublist_append_right _ _)
  · exact charges_refused (same_failTarget _ (at_self ..))
  · exact charges_bind (charges_lowerPlace _ _ hp).whole fun _ =>
      charges_last (hp.part _ _ _) fun _ => charges_pure _

theorem charges_lowerAssignOp (op : BinaryOperator) (target value : Node) :
    Charges env root blamed (target.direct ++ value.direct)
      (lowerAssignOp parts node op target value scope) := by
  rw [lowerAssignOp]
  refine charges_ite ?_ ?_
  · exact charges_refused (same_failTarget _ (at_self ..))
  · refine charges_bind (charges_lowerPlace _ _ hp).whole fun _ => ?_
    refine charges_then (same_emit rfl) fun _ => charges_last (hp.value _ _) fun _ => ?_
    exact rel_bind _ (same_emit rfl) fun _ => rel_unit_bind (same_emit rfl) (charges_pure _)

/-- A statement without effect: the node itself answers, for it has not failed. -/
theorem charges_lowerExprStatement :
    Charges env root [] node.direct (lowerExprStatement parts node scope) := by
  rw [node.direct_eq]
  refine charges_get fun _ => ?_
  change Charges env root [] ([node] ++ node.kind.direct) _
  refine charges_bind_blamed (hp.expr node scope .discard) fun value => ?_
  refine charges_then same_isTerminated fun terminated => ?_
  cases terminated with
  | true => exact charges_pure _
  | false =>
    refine charges_then (same_hasEffectSince _) fun effectful => charges_read ?_
    have check : (charging env root []).Same (do
        let _ ← emitGen (.checkStatementIsVoid value) scope node.location
        pure ⟨⟩ : LowerM PUnit) := rel_unit_bind (same_emitGen rfl) (charges_pure _)
    split
    · exact charges_last (charges_warnAt (List.mem_singleton_self _)) fun _ => check
    · exact charges_same check

/-- Every statement. -/
theorem charges_lowerStatement :
    Charges env root [] node.direct (lowerStatement parts node scope) := by
  rw [lowerStatement]
  split
  next hk =>
    refine charges_last (Charges.whole ?_) fun _ => charges_pure _
    rw [hk]
    exact charges_lowerLocalVar _ _ hp _ _ _ _ _
  next hk =>
    exact charges_defer (by rw [node.direct_eq]; exact List.mem_cons_self) (by rw [hk]; rfl)
  next hk =>
    refine charges_last (Charges.whole ?_) fun _ => charges_pure _
    rw [hk]
    exact charges_lowerAssign _ hp _ _
  next hk =>
    refine charges_last (Charges.whole ?_) fun _ => charges_pure _
    rw [hk]
    exact charges_lowerAssignOp _ _ hp _ _ _
  · split
    · exact charges_last (charges_lowerExprStatement _ _ hp) fun _ => charges_pure _
    · exact charges_last (hp.part _ _ _) fun _ => charges_pure _

/-! ### Branches -/

theorem charges_lowerElse (branch : Option Node) :
    Charges env root blamed (directOfOption branch)
      (lowerElse parts node branch scope loc) := by
  cases branch with
  | some branch => exact hp.part _ _ _
  | none => exact charges_same same_emitVoid

theorem charges_lowerIf (condition : Node) (payload : Option String) (thenBranch : Node)
    (elseBranch : Option Node) :
    Charges env root [node] (condition.direct ++ (thenBranch.direct ++ directOfOption elseBranch))
      (lowerIf parts node condition payload thenBranch elseBranch scope loc) := by
  refine charges_then (same_settle _ _ _) fun loc => charges_bind (hp.value _ _) fun cond => ?_
  refine charges_then (same_newBlock _) fun _ => charges_then (same_newBlock _) fun _ => ?_
  refine charges_then (same_newBlock _) fun stop => charges_then (same_emitTest _ _ _ _) fun _ => ?_
  refine charges_then (same_emit rfl) fun _ => charges_then (same_goto _) fun _ => ?_
  refine charges_then (same_enterBranch _ _ (at_self ..) _ _) fun _ => ?_
  refine charges_bind (hp.part _ _ _) fun _ => ?_
  refine charges_then (same_branchInto _ _ _ _ _) fun _ => charges_then (same_goto _) fun _ => ?_
  exact charges_last (charges_lowerElse _ _ _ hp _) fun _ =>
    rel_bind _ (same_branchInto _ _ _ _ _) fun _ => same_joinAt _ _ _ _

theorem charges_lowerCatch (lhs : Node) (payload : Option String) (rhs : Node) :
    Charges env root [node] (lhs.direct ++ rhs.direct)
      (lowerCatch parts node lhs payload rhs scope loc) := by
  refine charges_then (same_settle _ _ _) fun loc => charges_bind (hp.value _ _) fun value => ?_
  refine charges_then (same_emit rfl) fun _ => charges_then (same_newBlock _) fun _ => ?_
  refine charges_then (same_newBlock _) fun okBlock => charges_then (same_newBlock _) fun stop => ?_
  refine charges_then (same_emitGen rfl) fun _ => charges_then (same_goto _) fun _ => ?_
  refine charges_then (same_openScope _ _) fun handler => ?_
  have handled : ∀ handler, Charges env root [node] rhs.direct _ := fun handler =>
    charges_last (hp.part handler rhs loc)
      (same_unwrapInto scope node loc (.unwrapErrPayload value false) rfl okBlock stop)
  cases payload with
  | some name =>
    exact charges_then (same_emitGen rfl) fun _ =>
      charges_then (same_bindPayload _ _ (at_self ..) _ _) handled
  | none => exact charges_then (rel_pure _ _) handled

theorem charges_lowerOrElse (lhs rhs : Node) :
    Charges env root [node] (lhs.direct ++ rhs.direct)
      (lowerOrElse parts node lhs rhs scope loc) := by
  refine charges_then (same_settle _ _ _) fun loc => charges_bind (hp.value _ _) fun value => ?_
  refine charges_then (same_emit rfl) fun _ => charges_then (same_newBlock _) fun _ => ?_
  refine charges_then (same_newBlock _) fun _ => charges_then (same_newBlock _) fun stop => ?_
  refine charges_then (same_emitGen rfl) fun _ => charges_then (same_goto _) fun _ => ?_
  exact charges_last (hp.part _ _ _) (same_unwrapInto _ _ _ _ rfl _ _)

theorem charges_lowerShortCircuit (op : BinaryOperator) (lhs rhs : Node) :
    Charges env root [node] (lhs.direct ++ rhs.direct)
      (lowerShortCircuit parts node op lhs rhs scope loc) := by
  refine charges_bind (hp.value _ _) fun left => charges_then (same_newBlock _) fun rhsBlock => ?_
  refine charges_then (same_newBlock _) fun stop => charges_then same_currentBlock fun source => ?_
  have right : Charges env root [node] rhs.direct (do
      goto rhsBlock
      let right ← parts.value rhs scope
      let incoming ← branchInto stop [(source, left)] right scope false
      let value ← joinAt stop incoming scope node
      deliver value loc scope node.location) :=
    charges_then (same_goto _) fun _ => charges_last (hp.value _ _) fun _ =>
      rel_bind _ (same_branchInto _ _ _ _ _) fun _ =>
        rel_bind _ (same_joinAt _ _ _ _) fun _ => same_deliver _ _ _ _
  dsimp only
  split <;> exact charges_then (same_emitGen rfl) fun _ => right

/-! ### Loops -/

theorem charges_finishLoop (loopScope : ScopeId) (elseBranch : Option Node) (blocks : LoopBlocks)
    (force : Bool) :
    Charges env root blamed (directOfOption elseBranch)
      (finishLoop parts node loopScope elseBranch blocks scope loc force) :=
  charges_then (same_goto _) fun _ => charges_last (charges_lowerElse _ _ _ hp _) fun _ =>
    rel_bind _ (rel_step _ (innerStep_closeSink _)) fun _ =>
      rel_bind _ (same_branchInto _ _ _ _ _) fun _ => same_joinAt _ _ _ _

theorem charges_lowerWhile (label : Option String) (condition : Node) (payload : Option String)
    (continueExpr : Option Node) (body : Node) (elseBranch : Option Node) (isInline : Bool) :
    Charges env root [node] (condition.direct ++
        (body.direct ++ (directOfOption continueExpr ++ directOfOption elseBranch)))
      (lowerWhile parts node label condition payload continueExpr body elseBranch isInline
        scope loc) := by
  refine charges_then (same_settle _ _ _) fun loc => charges_then (same_newLoop _) fun blocks => ?_
  refine charges_then (same_emitWith rfl) fun _ => charges_then (same_goto _) fun _ => ?_
  refine charges_bind (hp.value _ _) fun _ => charges_then (same_emitTest _ _ _ _) fun _ => ?_
  refine charges_then (same_emitWith rfl) fun _ => charges_then (same_goto _) fun _ => ?_
  refine charges_then (same_enterLoop _ _ _ _) fun loopScope => ?_
  refine charges_then (same_enterBranch _ _ (at_self ..) _ _) fun bodyScope => ?_
  refine charges_bind (hp.part _ _ _) fun _ => ?_
  refine charges_then (same_jumpUnlessTerminated _ _ _ _) fun _ => ?_
  refine charges_then (same_goto _) fun _ => ?_
  have finish : Charges env root [node] (directOfOption elseBranch) (do
      jumpUnlessTerminated blocks.test node scope isInline
      finishLoop parts node loopScope elseBranch blocks scope loc isInline) :=
    charges_then (same_jumpUnlessTerminated _ _ _ _) fun _ =>
      charges_finishLoop _ _ _ hp _ _ _ _
  cases continueExpr with
  | some expr => exact charges_bind (hp.part _ _ _) fun _ => finish
  | none => exact finish

theorem charges_lowerFor (label : Option String) (iterable : Node) (item : String)
    (index : Option String) (body : Node) (elseBranch : Option Node) (isInline : Bool) :
    Charges env root [node] (iterable.direct ++ (body.direct ++ directOfOption elseBranch))
      (lowerFor parts node label iterable item index body elseBranch isInline scope loc) := by
  refine charges_then (same_settle _ _ _) fun loc => charges_bind (hp.value _ _) fun array => ?_
  refine charges_then (same_emitGen rfl) fun _ => charges_then (same_emitGen rfl) fun _ => ?_
  refine charges_then (same_emitWith rfl) fun indexPtr => ?_
  refine charges_then (same_emitGen rfl) fun _ => charges_then (same_emitGen rfl) fun _ => ?_
  refine charges_then (same_newLoop _) fun blocks => charges_then (same_emitWith rfl) fun _ => ?_
  refine charges_then (same_goto _) fun _ => charges_then (same_emitGen rfl) fun _ => ?_
  refine charges_then (same_emitGen rfl) fun _ => charges_then (same_emitWith rfl) fun _ => ?_
  refine charges_then (same_goto _) fun _ => ?_
  refine charges_then (same_enterLoop _ _ _ _) fun loopScope => ?_
  refine charges_then (same_emitGen rfl) fun _ => charges_then (same_emitGen rfl) fun _ => ?_
  refine charges_then (same_bindPayload _ _ (at_self ..) _ _) fun bodyScope => ?_
  have hindex : ∀ position, (charging env root [node]).At
      (indexRequest index node.location position).location := fun position => by
    cases index <;> exact at_self ..
  refine charges_then (rel_declare _ _ _ (hindex _)) fun _ => ?_
  refine charges_then (same_emitGen rfl) fun _ => charges_bind (hp.part _ _ _) fun _ => ?_
  refine charges_then (same_jumpUnlessTerminated _ _ _ _) fun _ => ?_
  refine charges_then (same_goto _) fun _ => charges_then (same_stepIndex _ _ _) fun _ => ?_
  exact charges_then (same_emitWith rfl) fun _ => charges_finishLoop _ _ _ hp _ _ _ _

/-! ### Jumps -/

/-- A jump is made unless control does not get past the deferred expressions. -/
theorem charges_leave {y : LowerM InstId} (target : Option ScopeId) (path : ExitPath)
    (hy : (charging env root blamed).Same y) : (charging env root blamed).Same (do
      runDefers parts scope target path
      if ← isTerminated then lastInst else y) :=
  rel_bind _ (charges_runDefers _ hp _ _) fun _ =>
    rel_bind _ same_isTerminated fun _ => rel_ite same_lastInst hy

theorem charges_lowerBreak (label : Option String) (value : Option Node) :
    Charges env root [node] (directOfOption value) (lowerBreak parts node label value scope) := by
  refine charges_then (same_breakScope _ _ (at_self ..) _) fun target => ?_
  refine charges_then (same_leavesStream _ _) fun _ => ?_
  refine charges_ite (charges_same (same_failLeaving _ (at_self ..))) ?_
  refine charges_then (same_scopeAt _) fun x => ?_
  split
  · exact charges_same (same_failMismatch _ (at_self ..) _)
  next stop _ =>
    refine charges_then (same_sink? _) fun sink => ?_
    have jump : ∀ v, (charging env root [node]).Same (do
        runDefers parts scope (some target) .normal
        if ← isTerminated then lastInst
        else
          flowInto target v
          emit (.br stop) scope node.location) := fun v =>
      charges_leave _ hp _ _ <|
        rel_unit_bind (rel_step _ (innerStep_flowInto _ _)) (same_emit rfl)
    cases value with
    | some value => exact charges_last (hp.part _ _ _) jump
    | none => exact charges_last (charges_same same_emitVoid) jump

theorem charges_lowerContinue (label : Option String) :
    Charges env root [node] [] (lowerContinue parts node label scope) := by
  refine charges_then (same_continueScope _ _ (at_self ..) _) fun target => ?_
  refine charges_then (same_leavesStream _ _) fun _ => ?_
  refine charges_ite (charges_same (same_failLeaving _ (at_self ..))) ?_
  refine charges_then (same_scopeAt _) fun x => ?_
  split
  · exact charges_same (same_failMismatch _ (at_self ..) _)
  · exact charges_leave _ hp _ _ (same_emit rfl)

theorem charges_emitErrReturn (value : InstId) :
    (charging env root [node]).Same (emitErrReturn parts node value scope) := by
  refine rel_bind _ (same_emitGen rfl) fun _ => ?_
  refine rel_bind _ (same_newBlock _) fun _ => ?_
  refine rel_bind _ (same_newBlock _) fun _ => ?_
  refine rel_unit_bind (same_emitGen rfl) <| rel_unit_bind (same_goto _) ?_
  exact rel_unit_bind (charges_runDefers _ hp _ _)
    (same_returnUnlessTerminated _ _ (same_goto _) rfl)

theorem charges_returnOperand (operand : Option InstId) : (charging env root [node]).Same (do
    match if passesErrDefer (← scopesFrom scope) scope then operand else none with
    | some value => emitErrReturn parts node value scope
    | none => pure ⟨⟩
    runDefers parts scope none .normal
    if ← isTerminated then lastInst else emit (.ret operand) scope node.location) := by
  refine rel_bind _ (same_scopesFrom _) fun scopes => ?_
  split
  · exact rel_bind _ (charges_emitErrReturn _ _ hp _) fun _ =>
      charges_leave _ hp _ _ (same_emit rfl)
  · exact charges_leave _ hp _ _ (same_emit rfl)

theorem charges_lowerReturn (value : Option Node) :
    Charges env root [node] (directOfOption value) (lowerReturn parts node value scope) := by
  refine charges_then (same_checkFnExit _ _ (at_self ..) _) fun _ => ?_
  have leave : ∀ operand, (charging env root [node]).Same _ :=
    charges_returnOperand scope node hp
  cases value with
  | some value =>
    refine charges_last (x := some <$> parts.expr value scope .ret) ?_ leave
    rw [map_eq_pure_bind]
    exact charges_last (hp.part _ _ _) fun _ => charges_pure _
  | none => exact charges_last (charges_pure _) leave

theorem charges_lowerTry (expr : Node) :
    Charges env root [node] expr.direct (lowerTry parts node expr scope loc) := by
  refine charges_then (same_checkFnExit _ _ (at_self ..) _) fun _ => ?_
  refine charges_last (hp.value _ _) fun value => ?_
  refine rel_bind _ (same_emit rfl) fun _ => ?_
  refine rel_bind _ (same_newBlock _) fun _ => ?_
  refine rel_bind _ (same_newBlock _) fun _ => ?_
  refine rel_unit_bind (same_emitGen rfl) <| rel_unit_bind (same_goto _) ?_
  refine rel_bind _ (same_emitGen rfl) fun code => ?_
  refine rel_unit_bind (charges_runDefers _ hp _ _) ?_
  exact same_returnUnlessTerminated _ _ (rel_unit_bind (same_goto _) (same_emitTo _ _ _ rfl)) rfl

/-! ### Types and aggregates -/

omit hp in
/-- Nodes of a list that are only looked at answer for themselves. -/
theorem charges_each {nodes : List Node} (h : (charging env root nodes).Same x) :
    Charges env root blamed (directOfList nodes) x :=
  h.absorb (by rw [List.append_nil]; exact sublist_directOfList nodes)

theorem charges_lowerFields (kind : ContainerKind) (seen : Seen) (fields : List Node) :
    Charges env root blamed (directOfList fields) (lowerFields parts kind scope seen fields) := by
  induction fields generalizing seen with
  | nil => exact charges_pure _
  | cons field rest ih =>
    rw [lowerFields, directOfList]
    split
    next typeExpr defaultValue hk =>
      split
      · exact charges_refused (same_failTaken (at_self ..))
      · have hparts : (directOfOption typeExpr ++ (directOfOption defaultValue ++
            directOfList rest)).Sublist (field.direct ++ directOfList rest) := by
          rw [field.direct_eq, hk, Kind.direct, ← List.append_assoc, List.cons_append]
          exact List.sublist_cons_self _ _
        exact Charges.mono (charges_bind (hp.comptimeValue? _ _) fun _ =>
          charges_bind (hp.comptimeValue? _ _) fun _ =>
            charges_last (ih _) fun _ => charges_pure _) hparts
    · exact charges_refused (same_failAt (at_self ..) rfl)

theorem charges_lowerContainer (kind : ContainerKind) (fields decls : List Node) :
    Charges env root blamed (directOfList fields ++ directOfList decls)
      (lowerContainer parts node kind fields decls scope loc) := by
  have hat : ∀ {nodes : List Node}, ∀ node ∈ nodes,
      (charging env root nodes).At node.location := fun node hn => ⟨node, hn, rfl⟩
  refine charges_then (same_typeName _ _ _) fun _ => ?_
  refine charges_check (same_checkOpaque _ _ hat)
    ((sublist_directOfList fields).trans (List.sublist_append_left _ _)) fun _ => ?_
  exact charges_bind (charges_lowerFields _ hp _ _ _) fun _ =>
    charges_last (charges_each (same_memberNames _ _ hat)) fun _ => same_emitTo _ _ _ rfl

omit hp in
theorem charges_lowerErrorSet (members : List Node) :
    Charges env root blamed (directOfList members) (lowerErrorSet node members scope loc) :=
  charges_each (same_lowerErrorSet _ _ _ _ fun member hm => ⟨member, hm, rfl⟩)

theorem charges_lowerFieldInits (target : Option InstId) (seen : Seen) (fields : List FieldInit) :
    Charges env root blamed (directOfInits fields)
      (lowerFieldInits parts target scope seen fields) := by
  induction fields generalizing seen with
  | nil => exact charges_pure _
  | cons field rest ih =>
    obtain ⟨name, value⟩ := field
    rw [lowerFieldInits, directOfInits]
    split
    · exact charges_refused (same_failTaken (at_self ..))
    · exact charges_then (same_fieldLoc _ _ _) fun _ => charges_bind (hp.part _ _ _) fun _ =>
        charges_last (ih _) fun _ => charges_pure _

theorem charges_lowerStructInit (typeExpr : Option Node) (fields : List FieldInit) :
    Charges env root blamed (directOfOption typeExpr ++ directOfInits fields)
      (lowerStructInit parts node typeExpr fields scope loc) :=
  charges_bind (hp.comptimeValue? _ _) fun _ => charges_then (same_resultPtr _ _ _) fun _ =>
    charges_last (charges_lowerFieldInits _ hp _ _ _) fun _ => same_emit rfl

theorem charges_lowerElements (target : Option InstId) (index : Nat) (elements : List Node) :
    Charges env root blamed (directOfList elements)
      (lowerElements parts target scope index elements) := by
  induction elements generalizing index with
  | nil => exact charges_pure _
  | cons element rest ih =>
    exact charges_then (same_elementLoc _ _ _ _) fun _ => charges_bind (hp.part _ _ _) fun _ =>
      charges_last (ih _) fun _ => charges_pure _

theorem charges_lowerArrayInit (typeExpr : Option Node) (elements : List Node) :
    Charges env root blamed (directOfOption typeExpr ++ directOfList elements)
      (lowerArrayInit parts node typeExpr elements scope loc) :=
  charges_bind (hp.comptimeValue? _ _) fun _ => charges_then (same_resultPtr _ _ _) fun _ =>
    charges_last (charges_lowerElements _ hp _ _ _) fun _ => same_emit rfl

/-! ### Operators and calls -/

theorem charges_lowerArgs (args : List Node) :
    Charges env root blamed (directOfList args) (lowerArgs parts scope args) := by
  induction args with
  | nil => exact charges_pure _
  | cons arg rest ih =>
    exact charges_bind (hp.value _ _) fun _ => charges_last ih fun _ => charges_pure _

theorem charges_lowerCall (callee : Node) (args : List Node) (modifier : CallModifier) :
    Charges env root [node] (callee.direct ++ directOfList args)
      (lowerCall parts node callee args modifier scope loc) := by
  refine charges_then (same_scopesFrom _) fun scopes => ?_
  refine charges_then (same_checkModifier _ (at_self ..) _ _) fun _ => ?_
  refine charges_bind (hp.value _ _) fun target => ?_
  have all : Charges env root [node] (directOfList args) (do
      let argScope ← if (modifier = .compileTime && !scopes.isForcedComptime scope)
        then openScope scope .comptime else pure scope
      lowerArgs parts argScope args) :=
    charges_ite (charges_then (same_openScope _ _) fun _ => charges_lowerArgs _ hp _)
      (charges_then (rel_pure _ _) fun _ => charges_lowerArgs _ hp _)
  refine charges_then (same_isComptimeAt _) fun atComptime => ?_
  have call : ∀ values, (charging env root [node]).Same (do
      let ptr ← resultPtr loc scope node.location
      emitWith (.call target values modifier ptr) scope node.location
        (decide (modifier = .compileTime)) false) := fun values =>
    rel_bind _ (same_resultPtr _ _ _) fun _ => same_emitWith rfl
  exact charges_ite (charges_last (charges_withFrame all) call) (charges_last all call)

omit hp in
theorem charges_argAt {args : List Node} {i : Nat} {g : Node → LowerM α}
    (hg : ∀ arg, args[i]? = some arg → Charges env root blamed nodes (g arg)) :
    Charges env root blamed nodes (argAt args i >>= g) := by
  rw [argAt]
  split
  next arg h => exact hg arg h
  · exact ⟨fun _ _ _ => trivial⟩

theorem charges_lowerAs (args : List Node) :
    Charges env root blamed (directOfList args) (lowerAs parts node args scope loc) := by
  cases args with
  | nil => exact charges_argAt nofun
  | cons type rest =>
    refine charges_argAt fun _ h => ?_
    cases h
    refine charges_bind (hp.comptimeValue _ _) fun _ => charges_argAt fun value h => ?_
    exact (charges_last (hp.value _ _) fun _ => same_emitTo _ _ _ rfl).mono
      (direct_sublist_of_mem (List.mem_of_getElem? h))

theorem charges_lowerBuiltinCall (name : String) (args : List Node) :
    Charges env root [node] (directOfList args)
      (lowerBuiltinCall parts node name args scope loc) := by
  unfold lowerBuiltinCall
  dsimp only
  split
  · exact charges_same (same_failAt (at_self ..) rfl)
  refine charges_ite (charges_same (same_failAt (at_self ..) rfl)) ?_
  split
  · exact charges_lowerAs _ _ _ hp _
  · exact charges_last (charges_lowerArgs _ hp _) fun _ => same_emitTo _ _ _ rfl

theorem charges_lowerUnary (op : UnaryOperator) (operand : Node) :
    Charges env root [node] operand.direct (lowerUnary parts node op operand scope loc) := by
  have one : ∀ kind : InstId → InstKind, (∀ value, (kind value).isInner = true) →
      Charges env root [node] operand.direct (do
        let value ← parts.value operand scope
        emitTo (kind value) scope node.location loc) := fun kind h =>
    charges_last (hp.value _ _) fun value => same_emitTo _ _ _ (h value)
  cases op with
  | addressOf =>
    exact charges_ite
      (charges_last (charges_lowerPlace _ _ hp).whole fun _ => same_deliver _ _ _ _)
      (one .ref fun _ => rfl)
  | deref => exact one .loadPtr fun _ => rfl
  | optionalUnwrap => exact one (.optionalUnwrap · true) fun _ => rfl
  | negate => exact one (.unOp .negate) fun _ => rfl
  | boolNot => exact one (.unOp .boolNot) fun _ => rfl
  | bitNot => exact one (.unOp .bitNot) fun _ => rfl

theorem charges_lowerBinary (op : BinaryOperator) (lhs rhs : Node) :
    Charges env root [node] (lhs.direct ++ rhs.direct)
      (lowerBinary parts node op lhs rhs scope loc) := by
  cases op
  case boolAnd | boolOr => exact charges_lowerShortCircuit _ _ _ hp _ _ _
  case orElse => exact charges_lowerOrElse _ _ _ hp _ _
  all_goals
    exact charges_bind (hp.value _ _) fun _ => charges_last (hp.value _ _) fun _ =>
      same_emitTo _ _ _ rfl

/-! ### Compile-time blocks and suspension -/

theorem charges_lowerComptimeBody (expr : Node) :
    Charges env root blamed expr.direct (lowerComptimeBody parts node expr scope) :=
  charges_last (hp.value _ _) fun _ => same_returnUnlessTerminated _ _ (charges_pure _) rfl

theorem charges_lowerComptime (expr : Node) :
    Charges env root blamed expr.direct (lowerComptime parts node expr scope loc) := by
  refine ⟨fun hd s ht => ?_⟩
  have h := comptimeEnd_lowerComptime parts node expr scope loc env s
  have hframed : Charges env root [] expr.direct (framedBody parts node expr s.top) :=
    charges_withFrame (charges_lowerComptimeBody _ _ hp _)
  have hbody := hframed.ends hd (s.inBlock node scope) ht
  generalize outcome (lowerComptime parts node expr scope loc) env s = o at h
  cases h with
  | fault => trivial
  | inPlace hs =>
    have hopen : Charged root s (s.opening scope .comptime) [] :=
      .of_eq ht (ScopeTree.grows_openUnder _ _) fun _ _ => rfl
    exact .before hopen ((hp.part _ _ _).ends hd _ ht)
  | failed hs h hx =>
    rw [hx] at hbody
    exact (Charged.around hbody).mono fun _ => nodesAt_le (List.sublist_append_right _ _)
  | @evaluated t v hs h hx =>
    rw [hx] at hbody
    have hin := (Charged.around hbody).step
      (small_withNext (.comptimeBlock s.stream.children.length) scope node.location false false)
    have hend : Charges env root blamed [] (deliver v loc scope node.location) :=
      same_deliver (C := charging env root blamed) _ _ _ _
    have := EndsCharged.before hin (hend.ends nofun _ hin.tame)
    rwa [List.append_nil] at this

theorem charges_lowerSuspend (body : Option Node) :
    Charges env root [node] (directOfOption body) (lowerSuspend parts node body scope) := by
  refine charges_then (same_checkSuspend _ _ (at_self ..)) fun _ => ?_
  refine charges_then (same_emit rfl) fun start => ?_
  cases body with
  | some body =>
    exact charges_then (same_openScope _ _) fun _ =>
      charges_last (hp.part _ _ _) fun _ => same_emit rfl
  | none => exact charges_same (same_emit rfl)

/-! ### Expressions -/

/-- Every expression. -/
theorem charges_lowerExpr :
    Charges env root [node] node.kind.direct (lowerExpr parts node scope loc) := by
  have hload := charges_lowerLoad scope node loc hp
  rw [lowerExpr]
  cases hk : node.kind <;> rw [hk] at hload <;> simp only [Kind.direct] at hload ⊢
  case varDecl | deferred | root | fnDecl | param | testDecl | containerField =>
    exact charges_same (same_failAt (at_self ..) rfl)
  case fieldAccess | arrayAccess => exact hload
  case intLiteral | floatLiteral | stringLiteral | boolLiteral | nullLiteral | undefinedLiteral |
      errorValue => exact charges_same (same_emitTo _ _ _ rfl)
  case symbol =>
    exact charges_then (same_lowerSymbol _ _ (at_self ..) _ _) fun _ =>
      charges_same (same_deliver _ _ _ _)
  case unaryOp => exact charges_lowerUnary _ _ _ hp _ _
  case binaryOp => exact charges_lowerBinary _ _ _ hp _ _ _
  case call => exact charges_lowerCall _ _ _ hp _ _ _
  case builtinCall => exact charges_lowerBuiltinCall _ _ _ hp _ _
  case containerDecl => exact charges_lowerContainer _ _ _ hp _ _ _
  case errorSetDecl => exact charges_lowerErrorSet _ _ _ _
  case structInit => exact charges_lowerStructInit _ _ _ hp _ _
  case arrayInit => exact charges_lowerArrayInit _ _ _ hp _ _
  case block => exact charges_lowerBlock _ _ _ hp _ _
  case assign => exact charges_last (charges_lowerAssign _ hp _ _) fun _ => same_emitVoid
  case assignOp => exact charges_last (charges_lowerAssignOp _ _ hp _ _ _) fun _ => same_emitVoid
  case ifThen => exact charges_lowerIf _ _ _ hp _ _ _ _
  case whileLoop => exact charges_lowerWhile _ _ _ hp _ _ _ _ _ _ _
  case forLoop => exact charges_lowerFor _ _ _ hp _ _ _ _ _ _ _
  case breakTo => exact charges_lowerBreak _ _ hp _ _
  case continueTo => exact charges_lowerContinue _ _ hp _
  case returnFrom => exact charges_lowerReturn _ _ hp _
  case tryExpr => exact charges_lowerTry _ _ _ hp _
  case catchExpr => exact charges_lowerCatch _ _ _ hp _ _ _
  case comptime => exact charges_lowerComptime _ _ _ hp _
  case suspend => exact charges_lowerSuspend _ _ hp _
  case unreachable => exact charges_same (same_emit rfl)
  case asm => exact charges_same (same_lowerAsm _ _ _ (at_self ..) _ _)

omit hp in
/-- What is charged does not depend on how many levels of nesting are left. -/
theorem chargesParts_nested (levels : Nat) : ChargesParts env root (nested levels) := by
  induction levels with
  | zero =>
    have limit : ∀ {α : Type} (node : Node),
        Charges env root [node] node.kind.direct (failDepth node : LowerM α) := fun node =>
      charges_read (charges_fail ⟨node, List.mem_singleton_self _, rfl⟩)
    exact ⟨fun node _ _ => limit node, fun node _ => (limit node).whole⟩
  | succ levels ih =>
    exact ⟨fun node scope loc => charges_lowerExpr scope node loc ih,
      fun node scope => charges_lowerStatement scope node ih⟩

end SourceIr.Lower
