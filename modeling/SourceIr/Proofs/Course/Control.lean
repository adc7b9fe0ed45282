import SourceIr.Proofs.Course.Routines
import SourceIr.Proofs.Upkeep.Basic

/-!
# Courses of constructs

The routine for a construct keeps to a course if the routines for its parts do.

* `TracksParts`, routines for parts that keep to courses, with `tracks_expr` and those like it;
* `tracks_lowerPlace` and `tracks_runDefers`, places and deferred expressions;
* `steers_lowerStatement`, statements;
* branches and loops.
-/

namespace SourceIr.Lower

variable {env : Env} {s s' : State} {α β : Type} {l l' : Nat} {t t' : Task} {c c' p : ScopeId}
  {ins : List ScopeId} {x : LowerM α} {f : α → LowerM β} {inner : α → List ScopeId}
  {inner' : β → List ScopeId} {parts : Parts}

/-- The routines for parts keep to courses, and a statement returns a scope inside its own. -/
structure TracksParts (env : Env) (l : Nat) (parts : Parts) : Prop where
  expr : ∀ node scope loc, Tracks env l (.expr node) scope [scope] (parts.expr node scope loc)
  statement : ∀ node scope,
    Steers env l (.stmt node) scope [scope] (parts.statement node scope) fun next => [next]

/-! ### Parts -/

/-- What is done for a part is done for the whole. -/
theorem Course.Ends.lift {o : Except Stop α × State} {s₀ : State}
    (ho : Course.Ends env l' t' c' inner s o)
    (h : ∀ ok s', Course env ok l' t' c' s s' → Course env ok l t c s₀ s') :
    Course.Ends env l t c (fun _ => []) s₀ o := by
  obtain ⟨(_ | _) | a, s'⟩ := o
  · exact h _ _ ho
  · trivial
  · exact ⟨h _ _ ho.1, List.forall_mem_nil _⟩

theorem steers_part {part : Task} (ht : part ∈ t.parts) (hin : p ∈ ins)
    (hx : Steers env (part.level l) part p [p] x inner) : Steers env (l + 1) t c ins x inner := by
  refine ⟨fun s hs => ?_⟩
  have ho := hx.ends s fun q hq => List.mem_singleton.1 hq ▸ .refl _ _
  rcases h : outcome x env s with ⟨(_ | _) | a, s'⟩ <;> rw [h] at ho
  · exact .part ht (hs p hin) ho
  · trivial
  · refine ⟨.part ht (hs p hin) ho.1, fun q hq => ?_⟩
    exact ((hs p hin).grows ho.1.grows).trans (ho.2 q hq)

section Parts

variable (hp : TracksParts env l parts) (loc : ResultLoc)

include hp in
theorem tracks_expr {node : Node} (ht : .expr node ∈ t.parts) (hin : p ∈ ins) :
    Tracks env (l + 1) t c ins (parts.expr node p loc) := steers_part ht hin (hp.expr node p loc)

include hp in
theorem tracks_value {node : Node} (ht : .expr node ∈ t.parts) (hin : p ∈ ins) :
    Tracks env (l + 1) t c ins (parts.value node p) := tracks_expr hp .none ht hin

include hp in
/-- A part that is evaluated at compile time, in a scope of its own. -/
theorem tracks_comptime {node : Node} (he : node ∈ t.comptimeParts) (hin : p ∈ ins) :
    Tracks env (l + 1) t c ins (openScope p .comptime >>= fun q => parts.expr node q loc) := by
  refine ⟨fun s hs => ?_⟩
  rw [outcome_bind]
  obtain ⟨e, -, h⟩ | ⟨hlt, h⟩ := outcome_openScope_cases (s := s) p .comptime <;> rw [h]
  · trivial
  · refine ((hp.expr node s.top loc).ends (s.opening p .comptime) fun q hq => ?_).lift
      fun _ _ hc => .comptimePart he (hs p hin) hlt hc
    exact List.mem_singleton.1 hq ▸ .refl _ _

include hp in
theorem tracks_comptimeValue {node : Node} (he : node ∈ t.comptimeParts) (hin : p ∈ ins) :
    Tracks env (l + 1) t c ins (parts.comptimeValue node p) := tracks_comptime hp .none he hin

include hp in
theorem tracks_comptimeValue? {node : Option Node} (he : ∀ e ∈ node, e ∈ t.comptimeParts)
    (hin : p ∈ ins) : Tracks env (l + 1) t c ins (parts.comptimeValue? node p) := by
  cases node with
  | some node => exact tracks_map (tracks_comptimeValue hp (he node rfl) hin)
  | none => exact tracks_pure

/-! ### Places -/

include hp in
theorem tracks_lowerPlace (node : Node) :
    Tracks env (l + 1) (.place node) p [p] (lowerPlace parts p node) := by
  induction node using lowerPlace.induct parts p with
  | case1 id name location span =>
    exact tracks_lowerSymbol (t := .place ⟨id, _, _, _⟩) List.mem_cons_self rfl true
  | case2 id container field location span h ih =>
    rw [lowerPlace, if_pos h]
    refine steers_then (steers_part (?_ : .place container ∈ Task.parts _) (.head _) ih) fun _ =>
      tracks_mild (mild_emit ..)
    simp [Task.parts, Task.base, h]
  | case3 id container field location span h =>
    rw [lowerPlace, if_neg h]
    refine steers_then (tracks_value hp ?_ (.head _)) fun _ => tracks_mild (mild_emit ..)
    simp [Task.parts, Task.base, h]
  | case4 id array index location span h ih =>
    rw [lowerPlace, if_pos h]
    refine steers_then (steers_part (?_ : .place array ∈ Task.parts _) (.head _) ih) fun _ => ?_
    · simp [Task.parts, Task.base, h]
    · refine steers_then (tracks_value hp ?_ (.head _)) fun _ => tracks_mild (mild_emit ..)
      simp [Task.parts]
  | case5 id array index location span h =>
    rw [lowerPlace, if_neg h]
    refine steers_then (tracks_value hp ?_ (.head _)) fun _ => ?_
    · simp [Task.parts, Task.base, h]
    · refine steers_then (tracks_value hp ?_ (.head _)) fun _ => tracks_mild (mild_emit ..)
      simp [Task.parts]
  | case6 id operand location span =>
    exact tracks_value hp (by simp [Task.parts]) (.head _)
  | case7 node h₁ h₂ h₃ h₄ =>
    rw [lowerPlace.eq_5 _ _ _ h₁ h₂ h₃ h₄]
    exact tracks_failAt List.mem_cons_self rfl (by decide) (by decide)

include hp in
theorem tracks_place {node : Node} (ht : .place node ∈ t.parts) (hin : p ∈ ins) :
    Tracks env (l + 1) t c ins (lowerPlace parts p node) :=
  steers_part ht hin (tracks_lowerPlace hp node)

include hp in
theorem tracks_lowerLoad {node : Node} (ht : .place node ∈ t.parts) (hin : p ∈ ins) :
    Tracks env (l + 1) t c ins (lowerLoad parts node p loc) :=
  steers_then (tracks_place hp ht hin) fun _ => tracks_mild (mild_emitTo ..)

/-! ### Deferred expressions -/

include hp in
theorem ends_runDefer {after : ScopeId} {node expr : Node} (hd : (after, expr) ∈ s.deferred) :
    Course.Ends env (l + 1) (.exit node) c (fun _ => []) s
      (outcome (runDefer parts after expr) env s) := by
  rw [runDefer, outcome_bind]
  cases hy : s.scopes.scope? after with
  | none =>
    rw [scopeAt, outcome_bind, outcome_get]
    simp only [hy]
    trivial
  | some y =>
    rw [outcome_scopeAt hy]
    dsimp only
    rw [outcome_bind]
    obtain ⟨e, -, h⟩ | ⟨hlt, h⟩ := outcome_openScope_cases (s := s) (y.parent.getD after)
      .deferredBody <;> rw [h]
    · trivial
    · refine Course.Ends.lift (?_ : Course.Ends _ _ _ _ (fun _ => []) _ _) fun _ _ hc =>
        .exitPart hd hy hlt hc
      refine ((hp.expr expr s.top .discard).ends (s.opening (y.parent.getD after) .deferredBody)
        fun q hq => ?_).bindAt fun _ s' _ _ => ⟨.refl, List.forall_mem_nil _⟩
      exact List.mem_singleton.1 hq ▸ .refl _ _

include hp in
theorem tracks_runDefersIn {node : Node} (path : ExitPath) (defers : List (ScopeId × DeferKind)) :
    Tracks env (l + 1) (.exit node) c ins (runDefersIn parts path defers) := by
  induction defers with
  | nil => exact tracks_pure
  | cons d rest ih =>
    refine ⟨fun s hs => ?_⟩
    rw [runDefersIn, outcome_bind, outcome_get]
    dsimp only
    split
    · exact ih.ends s hs
    next expr hlookup =>
      have hd : (d.1, expr) ∈ s.deferred := by
        split at hlookup
        · obtain ⟨before, after, hd, -⟩ := List.lookup_eq_some_iff.1 hlookup
          simp [hd]
        · cases hlookup
      refine (ends_runDefer hp hd).bind hs fun _ => steers_mild mild_isTerminated fun _ => ?_
      exact steers_ite tracks_pure ih

include hp in
theorem tracks_exit {node : Node} (target : Option ScopeId) (path : ExitPath) :
    Tracks env (l + 1) (.exit node) c ins (runDefers parts p target path) :=
  steers_mild (mild_scopesFrom _) fun _ => tracks_runDefersIn hp _ _

include hp in
theorem tracks_runDefers {node : Node} (ht : .exit node ∈ t.parts) (hin : p ∈ ins)
    (target : Option ScopeId) (path : ExitPath) :
    Tracks env (l + 1) t c ins (runDefers parts p target path) :=
  steers_part ht hin (tracks_exit hp target path)

end Parts

/-! ### Statements -/

section Statements

variable (hp : TracksParts env l parts)

/-- After a failure, the policy decides whether what follows is lowered. -/
theorem winds_resume {y : LowerM α} (hy : Winds env l t c ins y) :
    Winds env l t c ins (do
      match (← read).options.errorPolicy with
      | .abort => throw .poisoned
      | .proceed => y) := by
  refine winds_read_bind ?_
  split
  · exact winds_throw
  · exact hy

include hp in
/-- The statements of a block, from one on; what is left of them after a failure does not
return. -/
theorem steers_lowerStatements {statements : List Node}
    (ht : ∀ st ∈ statements, .stmt st ∈ t.parts) (hin : p ∈ ins) :
    Steers env (l + 1) t c ins (lowerStatements parts p false statements) (fun next => [next]) ∧
      Winds env (l + 1) t c ins (lowerStatements parts p true statements) := by
  induction statements generalizing p ins with
  | nil => exact ⟨steers_pure (by simpa using hin), winds_throw⟩
  | cons statement rest ih =>
    obtain ⟨hst, hrest⟩ := List.forall_mem_cons.1 ht
    have hx : Steers env (l + 1) t c ins (parts.statement statement p) fun next => [next] :=
      steers_part hst hin (hp.statement statement p)
    have later := fun {q : ScopeId} {ins : List ScopeId} (hq : q ∈ ins) => ih (p := q) hrest hq
    have resumed := winds_resume (later hin).2
    constructor
    · refine steers_mild mild_isTerminated fun terminated => ?_
      cases terminated with
      | true => exact steers_mild (mild_warnAt ..) fun _ => steers_pure (by simpa using hin)
      | false => exact steers_attempt_bind hx (fun next => (later (.head _)).1) resumed
    · refine winds_then (tracks_mild mild_isTerminated) fun terminated => ?_
      cases terminated with
      | true => exact winds_then (tracks_mild (mild_warnAt ..)) fun _ => winds_throw
      | false => exact winds_attempt_bind hx (fun next => (later (.head _)).2) resumed

variable {node : Node} {scope : ScopeId} (loc : ResultLoc)

include hp in
theorem tracks_lowerPlainBlock {label : Option String} {statements : List Node}
    (hk : node.kind = .block label statements) :
    Tracks env (l + 1) (.expr node) scope [scope]
      (lowerPlainBlock parts node statements scope loc) := by
  have ht : ∀ st ∈ statements, .stmt st ∈ (Task.expr node).parts := by simp [Task.parts, hk]
  have hexit : .exit node ∈ (Task.expr node).parts := by simp [Task.parts, hk]
  refine steers_openScope_bind (.head _) (by simp) fun block => ?_
  refine steers_bind (steers_lowerStatements hp ht (.head _)).1 fun last => ?_
  refine steers_mild mild_isTerminated fun terminated => ?_
  cases terminated with
  | true => exact tracks_mild (mild_blockValue ..)
  | false =>
    exact steers_then (tracks_runDefers hp hexit (.head _) _ _) fun _ =>
      tracks_mild (mild_blockValue ..)

include hp in
theorem tracks_lowerLabelledBlock {label : String} {statements : List Node}
    (hk : node.kind = .block (some label) statements) :
    Tracks env (l + 1) (.expr node) scope [scope]
      (lowerLabelledBlock parts node label statements scope loc) := by
  have ht : ∀ st ∈ statements, .stmt st ∈ (Task.expr node).parts := by simp [Task.parts, hk]
  have hexit : .exit node ∈ (Task.expr node).parts := by simp [Task.parts, hk]
  refine steers_mild (mild_settle ..) fun loc => steers_mild (mild_newBlock _) fun stop => ?_
  refine steers_openSink (.head _) (by simp) fun block => ?_
  refine closes_bind (steers_lowerStatements hp ht (.head _)).1 fun last => ?_
  have join : ∀ ins, Closes env (l + 1) (.expr node) scope ins block
      (do joinAt stop (← closeSink block) scope node) fun _ => [] := fun _ =>
    closes_closeSink_bind fun _ => tracks_mild (mild_joinAt ..)
  refine closes_mild mild_isTerminated fun terminated => ?_
  cases terminated with
  | true => exact join _
  | false =>
    refine closes_then (tracks_runDefers hp hexit (.head _) _ _) fun _ => ?_
    refine closes_mild mild_isTerminated fun done => ?_
    cases done with
    | true => exact join _
    | false =>
      exact closes_mild (mild_emitVoid ..) fun _ => closes_mild (mild_flowInto ..) fun _ =>
        closes_mild (mild_emitGen ..) fun _ => join _

include hp in
theorem tracks_lowerBlock {label : Option String} {statements : List Node}
    (hk : node.kind = .block label statements) :
    Tracks env (l + 1) (.expr node) scope [scope]
      (lowerBlock parts node label statements scope loc) := by
  cases label with
  | none => exact tracks_lowerPlainBlock hp loc hk
  | some label => exact tracks_lowerLabelledBlock hp loc hk

/-- Opening a scope does not fail, so that it may be attempted together with what follows. -/
theorem outcome_openScope_orDeclareFailed {g : ScopeId → LowerM α} {k : α → LowerM β}
    {kind : ScopeKind} {name : String} :
    outcome (openScope p kind >>= fun q => orDeclareFailed (g q) node name scope >>= k) env s =
      outcome (orDeclareFailed (openScope p kind >>= g) node name scope >>= k) env s := by
  simp only [orDeclareFailed, outcome_bind, outcome_attempt]
  obtain ⟨e, -, h⟩ | ⟨-, h⟩ := outcome_openScope_cases (s := s) p kind <;> rw [h]

include hp in
theorem tracks_lowerLocalVar {name : String} {isConst isComptime : Bool}
    {typeExpr init : Option Node}
    (hk : node.kind = .varDecl name isConst isComptime typeExpr init) :
    Tracks env (l + 1) (.stmt node) scope [scope]
      (lowerLocalVar parts node name isConst isComptime typeExpr init scope) := by
  have hb : (Task.stmt node).Binds name node.location := .localVar hk
  have hr : (Task.stmt node).Requests (.named name node.location) := requests_named hb rfl rfl
  refine steers_mild (mild_scopesFrom _) fun scopes => ?_
  refine steers_then (tracks_orDeclareFailed hr (tracks_comptimeValue? hp ?_ (.head _)))
    fun typeInst => ?_
  · simp +contextual [Task.comptimeParts, hk]
  cases init with
  | none =>
    exact tracks_orDeclareFailed hr
      (tracks_failAt List.mem_cons_self rfl (by decide) (by decide))
  | some init =>
    refine steers_mild (mild_emit ..) fun ptr => steers_mild (mild_setNameHint ..) fun _ => ?_
    have declared : ∀ value, Tracks env (l + 1) (.stmt node) scope [scope] (do
        let status : ComptimeStatus :=
          if isComptime || scopes.isForcedComptime scope then .known true else .pending value
        let var ← declare scope (((BindingRequest.named name node.location).constness isConst
          (isConst || (isComptime || scopes.isForcedComptime scope))).withComptime status)
        let _ ← emit (.declVar var ptr) scope node.location) := fun value =>
      steers_then (tracks_declare (requests_named hb rfl rfl)) fun var =>
        steers_mild (mild_emit ..) fun _ => tracks_pure
    dsimp only
    split
    next hc =>
      rw [Bool.and_eq_true] at hc
      have he : init ∈ (Task.stmt node).comptimeParts := by simp [Task.comptimeParts, hk, hc.1]
      refine ⟨fun s hs => ?_⟩
      rw [outcome_openScope_orDeclareFailed]
      exact (steers_then (tracks_orDeclareFailed hr (tracks_comptime hp _ he (.head _)))
        declared).ends s hs
    next =>
      have ht : .expr init ∈ (Task.stmt node).parts := by simp [Task.parts, hk]
      rw [pure_bind]
      exact steers_then (tracks_orDeclareFailed hr (tracks_expr hp _ ht (.head _))) declared

include hp in
theorem tracks_lowerAssign {target value : Node} (hplace : .place target ∈ t.parts)
    (hvalue : .expr value ∈ t.parts) (htree : target ∈ t.blamed) (hin : p ∈ ins) :
    Tracks env (l + 1) t c ins (lowerAssign parts target value p) := by
  rw [lowerAssign]
  refine steers_ite (steers_then (tracks_expr hp _ hvalue hin) fun _ => tracks_pure) ?_
  refine steers_ite (tracks_failAt htree rfl (by decide) (by decide)) ?_
  exact steers_then (tracks_place hp hplace hin) fun _ =>
    steers_then (tracks_expr hp _ hvalue hin) fun _ => tracks_pure

include hp in
theorem tracks_lowerAssignOp {op : BinaryOperator} {target value : Node}
    (hplace : .place target ∈ t.parts) (hvalue : .expr value ∈ t.parts)
    (htree : target ∈ t.blamed) (hin : p ∈ ins) :
    Tracks env (l + 1) t c ins (lowerAssignOp parts node op target value p) := by
  refine steers_ite (tracks_failAt htree rfl (by decide) (by decide)) ?_
  exact steers_then (tracks_place hp hplace hin) fun _ => steers_mild (mild_emit ..) fun _ =>
    steers_then (tracks_value hp hvalue hin) fun _ => steers_mild (mild_emit ..) fun _ =>
      steers_mild (mild_emit ..) fun _ => tracks_pure

include hp in
theorem tracks_lowerExprStatement (ht : .expr node ∈ t.parts) (hin : p ∈ ins) :
    Tracks env (l + 1) t c ins (lowerExprStatement parts node p) :=
  steers_get_bind fun _ => steers_then (tracks_expr hp _ ht hin) fun _ =>
    tracks_mild (mild_checkStatement ..)

/-- A `defer` statement remembers its expression, for what follows it. -/
theorem steers_defer {kind : DeferKind} {expr : Node} (hk : node.kind = .deferred kind expr) :
    Steers env (l + 1) (.stmt node) scope [scope] (do
      let after ← openScope scope (.deferred kind)
      remember after expr
      return after) fun next => [next] := by
  refine ⟨fun s hs => ?_⟩
  rw [outcome_bind]
  obtain ⟨e, -, h⟩ | ⟨hlt, h⟩ := outcome_openScope_cases (s := s) scope (.deferred kind) <;> rw [h]
  · trivial
  · refine ⟨.deferred hk hlt, fun q hq => ?_⟩
    rw [List.mem_singleton.1 hq]
    exact ScopeTree.inside_opened hlt (by simp)

include hp in
/-- Every statement. -/
theorem steers_lowerStatement (node : Node) (scope : ScopeId) :
    Steers env (l + 1) (.stmt node) scope [scope] (lowerStatement parts node scope)
      fun next => [next] := by
  have returned : Steers env (l + 1) (.stmt node) scope [scope] (pure scope) fun next => [next] :=
    steers_pure (by simp)
  have htarget : ∀ {target value : Node}, (node.kind = .assign target value ∨
      ∃ op, node.kind = .assignOp op target value) →
      .place target ∈ (Task.stmt node).parts ∧ .expr value ∈ (Task.stmt node).parts ∧
        target ∈ (Task.stmt node).blamed := by
    rintro target value (hk | ⟨op, hk⟩) <;>
      simp [Task.parts, Task.blamed, hk, Kind.checked]
  rw [lowerStatement]
  split
  next hk => exact steers_then (tracks_lowerLocalVar hp hk) fun _ => returned
  next hk => exact steers_defer hk
  next hk =>
    obtain ⟨hplace, hvalue, htree⟩ := htarget (.inl hk)
    exact steers_then (tracks_lowerAssign hp hplace hvalue htree (.head _)) fun _ => returned
  next hk =>
    obtain ⟨hplace, hvalue, htree⟩ := htarget (.inr ⟨_, hk⟩)
    exact steers_then (tracks_lowerAssignOp hp hplace hvalue htree (.head _)) fun _ => returned
  next hvar hdefer hassign hop =>
    have ht : .expr node ∈ (Task.stmt node).parts := by simp [Task.parts]
    refine steers_ite ?_ ?_
    · exact steers_then (tracks_lowerExprStatement hp ht (.head _)) fun _ => returned
    · exact steers_then (tracks_expr hp _ ht (.head _)) fun _ => returned

end Statements

/-! ### Branches -/

section Branches

variable (hp : TracksParts env l parts) {node : Node} {scope : ScopeId} (loc : ResultLoc)

include hp in
theorem tracks_lowerElse {branch : Option Node} (ht : ∀ e ∈ branch, .expr e ∈ t.parts)
    (hin : p ∈ ins) : Tracks env (l + 1) t c ins (lowerElse parts node branch p loc) := by
  cases branch with
  | some branch => exact tracks_expr hp _ (ht branch rfl) hin
  | none => exact tracks_mild (mild_emitVoid ..)

include hp in
theorem tracks_lowerIf {condition thenBranch : Node} {payload : Option String}
    {elseBranch : Option Node} (hk : node.kind = .ifThen condition payload thenBranch elseBranch) :
    Tracks env (l + 1) (.expr node) scope [scope]
      (lowerIf parts node condition payload thenBranch elseBranch scope loc) := by
  have hcond : .expr condition ∈ (Task.expr node).parts := by simp [Task.parts, hk]
  have hthen : .expr thenBranch ∈ (Task.expr node).parts := by simp [Task.parts, hk]
  have helse : ∀ e ∈ elseBranch, .expr e ∈ (Task.expr node).parts := by
    simp +contextual [Task.parts, hk]
  have hcapture : ∀ name ∈ payload, name ≠ "_" → (Task.expr node).Binds name node.location :=
    fun name h hne => .capture (by simpa [hk, Kind.captures] using h) hne
  refine steers_mild (mild_settle ..) fun loc => ?_
  refine steers_then (tracks_value hp hcond (.head _)) fun cond => ?_
  refine steers_mild (mild_newBlock _) fun _ => steers_mild (mild_newBlock _) fun _ => ?_
  refine steers_mild (mild_newBlock _) fun _ => steers_mild (mild_emitTest ..) fun _ => ?_
  refine steers_mild (mild_emit ..) fun _ => steers_mild (mild_goto _) fun _ => ?_
  refine steers_bind (steers_enterBranch (t := .expr node) (.head _) hcapture) fun thenScope => ?_
  refine steers_then (tracks_expr hp _ hthen (.head _)) fun _ => ?_
  refine steers_mild (mild_branchInto ..) fun _ => steers_mild (mild_goto _) fun _ => ?_
  refine steers_then (tracks_lowerElse hp _ helse (by simp)) fun _ => ?_
  exact steers_mild (mild_branchInto ..) fun _ => tracks_mild (mild_joinAt ..)

include hp in
theorem tracks_lowerCatch {lhs rhs : Node} {payload : Option String}
    (hk : node.kind = .catchExpr lhs payload rhs) :
    Tracks env (l + 1) (.expr node) scope [scope]
      (lowerCatch parts node lhs payload rhs scope loc) := by
  have hlhs : .expr lhs ∈ (Task.expr node).parts := by simp [Task.parts, hk]
  have hrhs : .expr rhs ∈ (Task.expr node).parts := by simp [Task.parts, hk]
  refine steers_mild (mild_settle ..) fun loc => ?_
  refine steers_then (tracks_value hp hlhs (.head _)) fun value => ?_
  refine steers_mild (mild_emit ..) fun _ => steers_mild (mild_newBlock _) fun errBlock => ?_
  refine steers_mild (mild_newBlock _) fun okBlock => steers_mild (mild_newBlock _) fun stop => ?_
  refine steers_mild (mild_emitGen ..) fun _ => steers_mild (mild_goto _) fun _ => ?_
  refine steers_openScope_bind (.head _) (by simp) fun handler => ?_
  have handled : ∀ {handler ins}, handler ∈ ins →
      Tracks env (l + 1) (.expr node) scope ins (do
        let handled ← parts.expr rhs handler loc
        let incoming ← branchInto stop [] handled scope false
        goto okBlock
        let payload ← emitGen (.unwrapErrPayload value false) scope node.location
        let payload ← deliver payload loc scope node.location
        let incoming ← branchInto stop incoming payload scope false
        joinAt stop incoming scope node) := fun hin =>
    steers_then (tracks_expr hp _ hrhs hin) fun _ => tracks_mild (mild_unwrapInto ..)
  cases payload with
  | some name =>
    have hcapture : name ≠ "_" → (Task.expr node).Binds name node.location :=
      fun hne => .capture (by simp [hk, Kind.captures]) hne
    exact steers_mild (mild_emitGen ..) fun _ =>
      steers_bind (steers_bindPayload (t := .expr node) (.head _) hcapture) fun handler =>
        handled (.head _)
  | none =>
    dsimp only
    rw [pure_bind]
    exact handled (.head _)

include hp in
theorem tracks_lowerOrElse {lhs rhs : Node} (hlhs : .expr lhs ∈ (Task.expr node).parts)
    (hrhs : .expr rhs ∈ (Task.expr node).parts) :
    Tracks env (l + 1) (.expr node) scope [scope] (lowerOrElse parts node lhs rhs scope loc) := by
  refine steers_mild (mild_settle ..) fun loc => ?_
  refine steers_then (tracks_value hp hlhs (.head _)) fun value => ?_
  refine steers_mild (mild_emit ..) fun _ => steers_mild (mild_newBlock _) fun _ => ?_
  refine steers_mild (mild_newBlock _) fun _ => steers_mild (mild_newBlock _) fun _ => ?_
  refine steers_mild (mild_emitGen ..) fun _ => steers_mild (mild_goto _) fun _ => ?_
  exact steers_then (tracks_expr hp _ hrhs (.head _)) fun _ => tracks_mild (mild_unwrapInto ..)

include hp in
theorem tracks_lowerShortCircuit {op : BinaryOperator} {lhs rhs : Node}
    (hlhs : .expr lhs ∈ (Task.expr node).parts) (hrhs : .expr rhs ∈ (Task.expr node).parts) :
    Tracks env (l + 1) (.expr node) scope [scope]
      (lowerShortCircuit parts node op lhs rhs scope loc) := by
  refine steers_then (tracks_value hp hlhs (.head _)) fun left => ?_
  refine steers_mild (mild_newBlock _) fun rhsBlock => steers_mild (mild_newBlock _) fun stop => ?_
  refine steers_mild mild_currentBlock fun source => ?_
  have right : Tracks env (l + 1) (.expr node) scope [scope] (do
      goto rhsBlock
      let right ← parts.value rhs scope
      let incoming ← branchInto stop [(source, left)] right scope false
      let value ← joinAt stop incoming scope node
      deliver value loc scope node.location) :=
    steers_mild (mild_goto _) fun _ => steers_then (tracks_value hp hrhs (.head _)) fun _ =>
      steers_mild (mild_branchInto ..) fun _ => steers_mild (mild_joinAt ..) fun _ =>
        tracks_mild (mild_deliver ..)
  dsimp only
  split <;> exact steers_mild (mild_emitGen ..) fun _ => right

/-! ### Loops -/

/-- A loop opens its scope with its sink. -/
theorem steers_enterLoop_bind {f : ScopeId → LowerM β} {label : Option String}
    {blocks : LoopBlocks} (hin : p ∈ ins)
    (hf : ∀ q, Closes env (l + 1) t c (q :: ins) q (f q) inner') :
    Steers env (l + 1) t c ins (enterLoop p label blocks loc >>= f) inner' := by
  have h : (enterLoop p label blocks loc >>= f) = (do
      let q ← openScope p (.loop label blocks.stop blocks.step)
      openSink q loc
      f q) := by simp only [enterLoop, bind_assoc, pure_bind]
  rw [h]
  exact steers_openSink hin (by simp) hf

include hp in
theorem closes_finishLoop {loopScope : ScopeId} {elseBranch : Option Node} {blocks : LoopBlocks}
    {force : Bool} (ht : ∀ e ∈ elseBranch, .expr e ∈ t.parts) (hin : p ∈ ins) :
    Closes env (l + 1) t c ins loopScope
      (finishLoop parts node loopScope elseBranch blocks p loc force) fun _ => [] :=
  closes_mild (mild_goto _) fun _ => closes_then (tracks_lowerElse hp _ ht hin) fun _ =>
    closes_closeSink_bind fun _ => steers_mild (mild_branchInto ..) fun _ =>
      tracks_mild (mild_joinAt ..)

include hp in
theorem tracks_lowerWhile {label : Option String} {condition body : Node} {payload : Option String}
    {continueExpr elseBranch : Option Node} {isInline : Bool}
    (hk : node.kind =
      .whileLoop label condition payload continueExpr body elseBranch isInline) :
    Tracks env (l + 1) (.expr node) scope [scope]
      (lowerWhile parts node label condition payload continueExpr body elseBranch isInline scope
        loc) := by
  have hcond : .expr condition ∈ (Task.expr node).parts := by simp [Task.parts, hk]
  have hbody : .expr body ∈ (Task.expr node).parts := by simp [Task.parts, hk]
  have hcontinue : ∀ e ∈ continueExpr, .expr e ∈ (Task.expr node).parts := by
    simp +contextual [Task.parts, hk]
  have helse : ∀ e ∈ elseBranch, .expr e ∈ (Task.expr node).parts := by
    simp +contextual [Task.parts, hk]
  have hcapture : ∀ name ∈ payload, name ≠ "_" → (Task.expr node).Binds name node.location :=
    fun name h hne => .capture (by simpa [hk, Kind.captures] using h) hne
  refine steers_mild (mild_settle ..) fun loc => steers_mild (mild_newLoop _) fun blocks => ?_
  refine steers_mild (mild_emitWith ..) fun _ => steers_mild (mild_goto _) fun _ => ?_
  refine steers_then (tracks_value hp hcond (.head _)) fun cond => ?_
  refine steers_mild (mild_emitTest ..) fun _ => steers_mild (mild_emitWith ..) fun _ => ?_
  refine steers_mild (mild_goto _) fun _ => steers_enterLoop_bind _ (.head _) fun loopScope => ?_
  refine closes_bind (steers_enterBranch (t := .expr node) (.head _) hcapture) fun bodyScope => ?_
  refine closes_then (tracks_expr hp _ hbody (.head _)) fun _ => ?_
  refine closes_mild (mild_jumpUnlessTerminated ..) fun _ => closes_mild (mild_goto _) fun _ => ?_
  have finish : Closes env (l + 1) (.expr node) scope [bodyScope, loopScope, scope] loopScope (do
      jumpUnlessTerminated blocks.test node scope isInline
      finishLoop parts node loopScope elseBranch blocks scope loc isInline) fun _ => [] :=
    closes_mild (mild_jumpUnlessTerminated ..) fun _ => closes_finishLoop hp _ helse (by simp)
  cases continueExpr with
  | some e => exact closes_then (tracks_expr hp _ (hcontinue e rfl) (.head _)) fun _ => finish
  | none => exact finish

include hp in
theorem tracks_lowerFor {label : Option String} {iterable body : Node} {item : String}
    {index : Option String} {elseBranch : Option Node} {isInline : Bool}
    (hk : node.kind = .forLoop label iterable item index body elseBranch isInline) :
    Tracks env (l + 1) (.expr node) scope [scope]
      (lowerFor parts node label iterable item index body elseBranch isInline scope loc) := by
  have hiterable : .expr iterable ∈ (Task.expr node).parts := by simp [Task.parts, hk]
  have hbody : .expr body ∈ (Task.expr node).parts := by simp [Task.parts, hk]
  have helse : ∀ e ∈ elseBranch, .expr e ∈ (Task.expr node).parts := by
    simp +contextual [Task.parts, hk]
  have hitem : item ≠ "_" → (Task.expr node).Binds item node.location :=
    fun hne => .capture (by simp [hk, Kind.captures]) hne
  have hindex : ∀ position, (Task.expr node).Requests
      (indexRequest index node.location position) := by
    intro position name hname
    cases index with
    | some index => exact Option.some.inj hname ▸ .index hk
    | none => cases hname
  refine steers_mild (mild_settle ..) fun loc => ?_
  refine steers_then (tracks_value hp hiterable (.head _)) fun array => ?_
  refine steers_mild (mild_emitGen ..) fun _ => steers_mild (mild_emitGen ..) fun _ => ?_
  refine steers_mild (mild_emitWith ..) fun indexPtr => steers_mild (mild_emitGen ..) fun _ => ?_
  refine steers_mild (mild_emitGen ..) fun _ => steers_mild (mild_newLoop _) fun blocks => ?_
  refine steers_mild (mild_emitWith ..) fun _ => steers_mild (mild_goto _) fun _ => ?_
  refine steers_mild (mild_emitGen ..) fun position => steers_mild (mild_emitGen ..) fun _ => ?_
  refine steers_mild (mild_emitWith ..) fun _ => steers_mild (mild_goto _) fun _ => ?_
  refine steers_enterLoop_bind _ (.head _) fun loopScope => ?_
  refine closes_mild (mild_emitGen ..) fun _ => closes_mild (mild_emitGen ..) fun _ => ?_
  refine closes_bind (steers_bindPayload (t := .expr node) (.head _) hitem) fun bodyScope => ?_
  refine closes_then (tracks_declare (hindex _)) fun _ => closes_mild (mild_emitGen ..) fun _ => ?_
  refine closes_then (tracks_expr hp _ hbody (.head _)) fun _ => ?_
  refine closes_mild (mild_jumpUnlessTerminated ..) fun _ => closes_mild (mild_goto _) fun _ => ?_
  refine closes_mild (mild_stepIndex ..) fun _ => closes_mild (mild_emitWith ..) fun _ => ?_
  exact closes_finishLoop hp _ helse (by simp)

end Branches

end SourceIr.Lower
