import SourceIr.Proofs.Course.Control

/-!
# Courses at every level of nesting

The rest of the constructs, and all of them put together: a lowering keeps to a course, whatever it
lowers and however it ends.

* jumps, aggregates, operators and calls;
* compile-time blocks, which keep to the course of their bodies in streams of their own;
* `tracks_lowerExpr`, every expression;
* `tracksParts_nested`, at every level, and `course_lowerPlace`, `course_runDefers`.
-/

namespace SourceIr.Lower

variable {env : Env} {s s' : State} {α β : Type} {l l' : Nat} {t t' : Task} {c c' p : ScopeId}
  {ins : List ScopeId} {x : LowerM α} {inner : α → List ScopeId} {inner' : β → List ScopeId}
  {parts : Parts} (hp : TracksParts env l parts) {node : Node} {scope : ScopeId} (loc : ResultLoc)

/-! ### Jumps -/

include hp in
theorem tracks_lowerBreak {label : Option String} {value : Option Node}
    (hk : node.kind = .breakTo label value) :
    Tracks env (l + 1) (.expr node) scope [scope] (lowerBreak parts node label value scope) := by
  have hvalue : ∀ e ∈ value, .expr e ∈ (Task.expr node).parts := by
    simp +contextual [Task.parts, hk]
  have hexit : .exit node ∈ (Task.expr node).parts := by simp [Task.parts, hk]
  have failed : ∀ {message}, Tracks env (l + 1) (.expr node) scope [scope]
      (failAt .invalidConstruct message "lower_control" node : LowerM InstId) := fun {_} =>
    tracks_failAt List.mem_cons_self rfl (by decide) (by decide)
  refine steers_then (tracks_breakScope (t := .expr node) List.mem_cons_self label) fun target => ?_
  refine steers_mild (mild_leavesStream ..) fun _ => steers_ite failed ?_
  refine steers_mild (mild_scopeAt _) fun y => ?_
  split
  · exact failed
  next stop _ =>
    refine steers_mild (mild_sink? _) fun sink => ?_
    have jump : ∀ v, Tracks env (l + 1) (.expr node) scope [scope] (do
        runDefers parts scope (some target) .normal
        if ← isTerminated then lastInst
        else
          flowInto target v
          emit (.br stop) scope node.location) := fun v =>
      steers_then (tracks_runDefers hp hexit (.head _) _ _) fun _ =>
        steers_mild mild_isTerminated fun _ => steers_ite (tracks_mild mild_lastInst) <|
          steers_mild (mild_flowInto ..) fun _ => tracks_mild (mild_emit ..)
    cases value with
    | some value => exact steers_then (tracks_expr hp _ (hvalue value rfl) (.head _)) jump
    | none => exact steers_mild (mild_emitVoid ..) jump

include hp in
theorem tracks_lowerContinue {label : Option String} (hk : node.kind = .continueTo label) :
    Tracks env (l + 1) (.expr node) scope [scope] (lowerContinue parts node label scope) := by
  have hexit : .exit node ∈ (Task.expr node).parts := by simp [Task.parts, hk]
  have failed : ∀ {message}, Tracks env (l + 1) (.expr node) scope [scope]
      (failAt .invalidConstruct message "lower_control" node : LowerM InstId) := fun {_} =>
    tracks_failAt List.mem_cons_self rfl (by decide) (by decide)
  refine steers_then (tracks_continueScope (t := .expr node) List.mem_cons_self label)
    fun target => ?_
  refine steers_mild (mild_leavesStream ..) fun _ => steers_ite failed ?_
  refine steers_mild (mild_scopeAt _) fun y => ?_
  split
  · exact failed
  · exact steers_then (tracks_runDefers hp hexit (.head _) _ _) fun _ =>
      steers_mild mild_isTerminated fun _ =>
        steers_ite (tracks_mild mild_lastInst) (tracks_mild (mild_emit ..))

include hp in
theorem tracks_emitErrReturn (ht : .exit node ∈ t.parts) (hin : p ∈ ins) (value : InstId) :
    Tracks env (l + 1) t c ins (emitErrReturn parts node value p) := by
  refine steers_mild (mild_emitGen ..) fun _ => steers_mild (mild_newBlock _) fun _ => ?_
  refine steers_mild (mild_newBlock _) fun _ => steers_mild (mild_emitGen ..) fun _ => ?_
  refine steers_mild (mild_goto _) fun _ => steers_then (tracks_runDefers hp ht hin _ _) fun _ => ?_
  exact tracks_mild (mild_returnUnlessTerminated _ _ _ false (mild_goto _))

include hp in
/-- What is deferred runs before a value is returned, on the way that its kind asks for. -/
theorem tracks_leave (ht : .exit node ∈ t.parts) (hin : p ∈ ins) (operand : Option InstId) :
    Tracks env (l + 1) t c ins (do
      match if passesErrDefer (← scopesFrom p) p then operand else none with
      | some value => emitErrReturn parts node value p
      | none => pure ⟨⟩
      runDefers parts p none .normal
      if ← isTerminated then lastInst else emit (.ret operand) p node.location) := by
  refine steers_mild (mild_scopesFrom _) fun scopes => ?_
  have run : Tracks env (l + 1) t c ins (do
      runDefers parts p none .normal
      if ← isTerminated then lastInst else emit (.ret operand) p node.location) :=
    steers_then (tracks_runDefers hp ht hin _ _) fun _ =>
      steers_mild mild_isTerminated fun _ =>
        steers_ite (tracks_mild mild_lastInst) (tracks_mild (mild_emit ..))
  split
  · exact steers_then (tracks_emitErrReturn hp ht hin _) fun _ => run
  · exact run

include hp in
theorem tracks_lowerReturn {value : Option Node} (hk : node.kind = .returnFrom value) :
    Tracks env (l + 1) (.expr node) scope [scope] (lowerReturn parts node value scope) := by
  have hvalue : ∀ e ∈ value, .expr e ∈ (Task.expr node).parts := by
    simp +contextual [Task.parts, hk]
  have hexit : .exit node ∈ (Task.expr node).parts := by simp [Task.parts, hk]
  refine steers_then (tracks_checkFnExit (t := .expr node) List.mem_cons_self _) fun _ => ?_
  cases value with
  | some value =>
    exact steers_then (tracks_map (tracks_expr hp _ (hvalue value rfl) (.head _)))
      (tracks_leave hp hexit (.head _))
  | none => exact steers_then tracks_pure (tracks_leave hp hexit (.head _))

include hp in
theorem tracks_lowerTry {e : Node} (hk : node.kind = .tryExpr e) :
    Tracks env (l + 1) (.expr node) scope [scope] (lowerTry parts node e scope loc) := by
  have he : .expr e ∈ (Task.expr node).parts := by simp [Task.parts, hk]
  have hexit : .exit node ∈ (Task.expr node).parts := by simp [Task.parts, hk]
  refine steers_then (tracks_checkFnExit (t := .expr node) List.mem_cons_self _) fun _ => ?_
  refine steers_then (tracks_value hp he (.head _)) fun value => ?_
  refine steers_mild (mild_emit ..) fun _ => steers_mild (mild_newBlock _) fun _ => ?_
  refine steers_mild (mild_newBlock _) fun _ => steers_mild (mild_emitGen ..) fun _ => ?_
  refine steers_mild (mild_goto _) fun _ => steers_mild (mild_emitGen ..) fun code => ?_
  refine steers_then (tracks_runDefers hp hexit (.head _) _ _) fun _ => tracks_mild ?_
  exact mild_returnUnlessTerminated _ _ _ true (mild_bind (mild_goto _) fun _ => mild_emitTo ..)

/-! ### Types and aggregates -/

include hp in
theorem tracks_lowerFields {kind : ContainerKind} {fields : List Node}
    (hparts : ∀ field ∈ fields, field.kind.fieldParts ⊆ t.comptimeParts)
    (htrees : fields ⊆ t.blamed) (hin : p ∈ ins) (seen : Seen) :
    Tracks env (l + 1) t c ins (lowerFields parts kind p seen fields) := by
  induction fields generalizing seen with
  | nil => exact tracks_pure
  | cons field rest ih =>
    obtain ⟨hfield, hrest⟩ := List.forall_mem_cons.1 hparts
    obtain ⟨htree, htrees⟩ := List.cons_subset.1 htrees
    have ih := ih hrest htrees
    rw [lowerFields]
    split
    next name typeExpr defaultValue hk =>
      rw [hk] at hfield
      split
      · exact tracks_failTaken htree (by decide)
      · have htype : ∀ e ∈ typeExpr, e ∈ t.comptimeParts := fun e he =>
          hfield (List.mem_append_left _ (Option.mem_toList.2 he))
        have hdefault : ∀ e ∈ defaultValue, e ∈ t.comptimeParts := fun e he =>
          hfield (List.mem_append_right _ (Option.mem_toList.2 he))
        exact steers_then (tracks_comptimeValue? hp htype hin) fun _ =>
          steers_then (tracks_comptimeValue? hp hdefault hin) fun _ =>
            steers_then (ih _) fun _ => tracks_pure
    · exact tracks_failAt htree rfl (by decide) (by decide)

include hp in
theorem tracks_lowerContainer {kind : ContainerKind} {fields decls : List Node}
    (hk : node.kind = .containerDecl kind fields decls) :
    Tracks env (l + 1) (.expr node) scope [scope]
      (lowerContainer parts node kind fields decls scope loc) := by
  have hblamed : (Task.expr node).blamed = node :: (fields ++ decls) := by
    simp [Task.blamed, hk, Kind.checked]
  have hfields : fields ⊆ (Task.expr node).blamed := by
    simp +contextual [hblamed, List.subset_def]
  have hdecls : decls ⊆ (Task.expr node).blamed := by
    simp +contextual [hblamed, List.subset_def]
  have hparts : ∀ field ∈ fields, field.kind.fieldParts ⊆ (Task.expr node).comptimeParts := by
    intro field hfield e he
    simpa [Task.comptimeParts, hk] using ⟨field, hfield, he⟩
  refine steers_mild (mild_typeName ..) fun _ =>
    steers_then (tracks_checkOpaque hfields _) fun _ => ?_
  refine steers_then (tracks_lowerFields hp hparts hfields (.head _) _) fun _ => ?_
  exact steers_then (tracks_memberNames hdecls _) fun _ => tracks_mild (mild_emitTo ..)

include hp in
theorem tracks_lowerFieldInits {target : Option InstId} {fields : List FieldInit}
    (hparts : ∀ field ∈ fields, .expr field.value ∈ t.parts)
    (htrees : ∀ field ∈ fields, field.value ∈ t.blamed) (hin : p ∈ ins) (seen : Seen) :
    Tracks env (l + 1) t c ins (lowerFieldInits parts target p seen fields) := by
  induction fields generalizing seen with
  | nil => exact tracks_pure
  | cons field rest ih =>
    obtain ⟨hfield, hrest⟩ := List.forall_mem_cons.1 hparts
    obtain ⟨htree, htrees⟩ := List.forall_mem_cons.1 htrees
    rw [lowerFieldInits]
    split
    · exact tracks_failTaken htree (by decide)
    · exact steers_mild (mild_fieldLoc ..) fun _ =>
        steers_then (tracks_expr hp _ hfield hin) fun _ =>
          steers_then (ih hrest htrees _) fun _ => tracks_pure

include hp in
theorem tracks_lowerStructInit {typeExpr : Option Node} {fields : List FieldInit}
    (hk : node.kind = .structInit typeExpr fields) :
    Tracks env (l + 1) (.expr node) scope [scope]
      (lowerStructInit parts node typeExpr fields scope loc) := by
  have htype : ∀ e ∈ typeExpr, e ∈ (Task.expr node).comptimeParts := by
    simp +contextual [Task.comptimeParts, hk]
  have hparts : ∀ field ∈ fields, .expr field.value ∈ (Task.expr node).parts := by
    intro field hfield
    simpa [Task.parts, hk] using ⟨field, hfield, rfl⟩
  have htrees : ∀ field ∈ fields, field.value ∈ (Task.expr node).blamed := by
    intro field hfield
    refine List.mem_cons_of_mem _ ?_
    simpa only [Task.node, hk, Kind.checked] using List.mem_map_of_mem hfield
  exact steers_then (tracks_comptimeValue? hp htype (.head _)) fun _ =>
    steers_mild (mild_resultPtr ..) fun _ =>
      steers_then (tracks_lowerFieldInits hp hparts htrees (.head _) _) fun _ =>
        tracks_mild (mild_emit ..)

include hp in
theorem tracks_lowerElements {target : Option InstId} {elements : List Node}
    (hparts : ∀ e ∈ elements, .expr e ∈ t.parts) (hin : p ∈ ins) (index : Nat) :
    Tracks env (l + 1) t c ins (lowerElements parts target p index elements) := by
  induction elements generalizing index with
  | nil => exact tracks_pure
  | cons element rest ih =>
    obtain ⟨helement, hrest⟩ := List.forall_mem_cons.1 hparts
    exact steers_mild (mild_elementLoc ..) fun _ =>
      steers_then (tracks_expr hp _ helement hin) fun _ =>
        steers_then (ih hrest _) fun _ => tracks_pure

include hp in
theorem tracks_lowerArrayInit {typeExpr : Option Node} {elements : List Node}
    (hk : node.kind = .arrayInit typeExpr elements) :
    Tracks env (l + 1) (.expr node) scope [scope]
      (lowerArrayInit parts node typeExpr elements scope loc) := by
  have htype : ∀ e ∈ typeExpr, e ∈ (Task.expr node).comptimeParts := by
    simp +contextual [Task.comptimeParts, hk]
  have hparts : ∀ e ∈ elements, .expr e ∈ (Task.expr node).parts := by simp [Task.parts, hk]
  exact steers_then (tracks_comptimeValue? hp htype (.head _)) fun _ =>
    steers_mild (mild_resultPtr ..) fun _ =>
      steers_then (tracks_lowerElements hp hparts (.head _) _) fun _ => tracks_mild (mild_emit ..)

/-! ### Operators and calls -/

include hp in
theorem tracks_lowerArgs {args : List Node} (hparts : ∀ e ∈ args, .expr e ∈ t.parts)
    (hin : p ∈ ins) : Tracks env (l + 1) t c ins (lowerArgs parts p args) := by
  induction args with
  | nil => exact tracks_pure
  | cons arg rest ih =>
    obtain ⟨harg, hrest⟩ := List.forall_mem_cons.1 hparts
    exact steers_then (tracks_value hp harg hin) fun _ =>
      steers_then (ih hrest) fun _ => tracks_pure

/-- What is done while an evaluation is open. -/
theorem ends_withFrame {location : Option Location} {description : String}
    (ho : Course.Ends env l' t' c' inner s' (outcome x env
      { s with calls := s.calls.push ⟨location, description⟩ }))
    (h : ∀ ok v, Course env ok l' t' c' s' v →
      Course env ok l t c s { v with calls := v.calls.pop.2 }) :
    Course.Ends env l t c (fun _ => []) s
      (outcome (withFrame location description x) env s) := by
  rw [withFrame, outcome_bind, outcome_modify]
  dsimp only
  rw [outcome_bind, outcome_attempt]
  rcases hx : outcome x env { s with calls := s.calls.push ⟨location, description⟩ } with
    ⟨(_ | _) | a, v⟩ <;> rw [hx] at ho
  · exact h _ _ ho
  · trivial
  · exact ⟨h _ _ ho.1, List.forall_mem_nil _⟩

/-- The evaluation of the arguments of a call. -/
def callArgs (parts : Parts) (node callee : Node) (args : List Node) (modifier : CallModifier)
    (forced : Bool) (scope : ScopeId) : LowerM (List InstId) := do
  let lowerAll : LowerM (List InstId) := do
    let argScope ← if modifier = .compileTime && !forced then openScope scope .comptime
      else pure scope
    lowerArgs parts argScope args
  if modifier = .compileTime || (← isComptimeAt scope) then
    withFrame node.location s!"call to {calleeName callee}" lowerAll
  else lowerAll

theorem lowerCall_eq_callArgs (callee : Node) (args : List Node) (modifier : CallModifier) :
    lowerCall parts node callee args modifier scope loc = (do
      let forced := (← scopesFrom scope).isForcedComptime scope
      checkModifier node modifier forced
      let target ← parts.value callee scope
      let values ← callArgs parts node callee args modifier forced scope
      let ptr ← resultPtr loc scope node.location
      emitWith (.call target values modifier ptr) scope node.location
        (modifier = .compileTime) false) := by
  simp only [lowerCall, callArgs, bind_assoc, pure_bind]
  congr 1
  funext scopes
  congr 1
  funext _
  congr 1
  funext target
  congr 1
  funext atComptime
  split <;> rfl

theorem outcome_isComptimeAt (h : s.scopes.fault? scope = none) :
    outcome (isComptimeAt scope) env s = (.ok (isComptimeIn s.stream s.scopes scope), s) := by
  rw [isComptimeAt, outcome_bind, outcome_scopesFrom h]
  rfl

include hp in
/-- Where a call is evaluated decides whether it is an open evaluation while its arguments are
lowered. -/
theorem ends_callArgs {callee : Node} {args : List Node} {modifier : CallModifier}
    (hk : node.kind = .call callee args modifier) :
    Course.Ends env (l + 1) (.expr node) scope (fun _ => []) s (outcome
      (callArgs parts node callee args modifier (s.scopes.isForcedComptime scope) scope) env
        s) := by
  have hparts : ∀ e ∈ args, .expr e ∈ (Task.args node).parts := by simp [Task.parts, hk]
  have all : ∀ p, Tracks env (l + 1) (.args node) p [p] (lowerArgs parts p args) := fun p =>
    tracks_lowerArgs hp hparts (.head _)
  have here : ∀ p v, ∀ q ∈ [p], State.scopes v |>.Inside p q := fun p v q hq =>
    List.mem_singleton.1 hq ▸ .refl _ _
  rw [callArgs, outcome_bind]
  cases hf : s.scopes.fault? scope with
  | some e =>
    rw [isComptimeAt, outcome_bind, scopesFrom, outcome_bind, outcome_get]
    simp only [hf]
    trivial
  | none =>
    have hlt := ScopeTree.lt_of_fault?_eq_none hf
    rw [outcome_isComptimeAt hf]
    dsimp only
    by_cases hm : modifier = .compileTime
    · cases hforced : s.scopes.isForcedComptime scope with
      | false =>
        subst hm
        simp only [decide_true, Bool.true_or, Bool.not_false, Bool.and_self, if_true]
        refine ends_withFrame (?_ : Course.Ends _ _ _ _ (fun _ => []) _ _) fun _ _ hc =>
          .framedComptime hk hforced hlt hc
        rw [outcome_bind, outcome_openScope (by exact hlt)]
        exact (all s.top).ends _ (here _ _)
      | true =>
        simp only [hm, decide_true, Bool.true_or, Bool.not_true, Bool.and_false, if_true,
          Bool.false_eq_true, if_false, pure_bind]
        refine ends_withFrame ((all scope).ends _ (here _ _)) fun _ _ hc => ?_
        exact .framed hk (by rw [isComptimeIn, hforced, Bool.or_true]) (fun _ => hforced) hc
    · simp only [hm, decide_false, Bool.false_or, Bool.false_and, Bool.false_eq_true, if_false,
        pure_bind]
      split
      next hc =>
        refine ends_withFrame ((all scope).ends _ (here _ _)) fun _ _ h => ?_
        exact .framed hk hc (fun h => absurd h hm) h
      next hc =>
        exact ((all scope).ends s (here _ _)).lift fun _ _ h =>
          .args hk hm (Bool.eq_false_iff.2 hc) h

include hp in
theorem tracks_lowerCall {callee : Node} {args : List Node} {modifier : CallModifier}
    (hk : node.kind = .call callee args modifier) :
    Tracks env (l + 1) (.expr node) scope [scope]
      (lowerCall parts node callee args modifier scope loc) := by
  have hcallee : .expr callee ∈ (Task.expr node).parts := by simp [Task.parts, hk]
  rw [lowerCall_eq_callArgs]
  refine ⟨fun s hs => ?_⟩
  rw [outcome_bind]
  cases hf : s.scopes.fault? scope with
  | some e =>
    rw [scopesFrom, outcome_bind, outcome_get]
    simp only [hf]
    trivial
  | none =>
    rw [outcome_scopesFrom hf]
    dsimp only
    refine ((tracks_checkModifier (t := .expr node) List.mem_cons_self modifier _).ends s
      hs).bindAt fun _ s₁ h₁ _ => ?_
    have hs₁ : ∀ p ∈ [scope], s₁.scopes.Inside scope p := fun p hp => (hs p hp).grows h₁.grows
    refine ((tracks_value hp hcallee (.head _)).ends s₁ hs₁).bindAt fun target s₂ h₂ _ => ?_
    -- Lowering the callee has not changed what the scope of the call asks for.
    rw [← (h₁.grows.trans h₂.grows).isForcedComptime_eq (ScopeTree.lt_of_fault?_eq_none hf)]
    refine (ends_callArgs hp hk).bind (List.forall_mem_nil _) fun values => ?_
    exact steers_mild (mild_resultPtr ..) fun _ => tracks_mild (mild_emitWith ..)

theorem steers_argAt_bind {args : List Node} {i : Nat} {f : Node → LowerM α}
    (hf : ∀ arg, args[i]? = some arg → Steers env l t c ins (f arg) inner) :
    Steers env l t c ins (argAt args i >>= f) inner := by
  rw [argAt]
  split
  next arg h => exact hf arg h
  · exact ⟨fun _ _ => trivial⟩

include hp in
theorem tracks_lowerAs {args : List Node}
    (htype : ∀ e ∈ args.take 1, e ∈ t.comptimeParts) (hvalue : ∀ e ∈ args.drop 1, .expr e ∈ t.parts)
    (hin : p ∈ ins) : Tracks env (l + 1) t c ins (lowerAs parts node args p loc) := by
  refine steers_argAt_bind fun type h₀ => ?_
  have htype : type ∈ t.comptimeParts :=
    htype type (List.mem_of_getElem? (i := 0) (by simpa using h₀))
  refine steers_then (tracks_comptimeValue hp htype hin) fun _ => ?_
  refine steers_argAt_bind fun value h₁ => ?_
  have hvalue : .expr value ∈ t.parts :=
    hvalue value (List.mem_of_getElem? (i := 0) (by simpa using h₁))
  exact steers_then (tracks_value hp hvalue hin) fun _ => tracks_mild (mild_emitTo ..)

theorem ne_undeclared_of_builtin (bare name : String) :
    s!"invalid builtin function: '@{bare}'" ≠ undeclared name := by
  intro h
  have h := congrArg String.toList h
  rw [toList_undeclared, String.toList_append, String.toList_append] at h
  exact absurd (List.cons.inj h).1 (by decide)

include hp in
theorem tracks_lowerBuiltinCall {name : String} {args : List Node}
    (hk : node.kind = .builtinCall name args) :
    Tracks env (l + 1) (.expr node) scope [scope]
      (lowerBuiltinCall parts node name args scope loc) := by
  have hparts : (Task.expr node).parts = (args.drop (Builtin.typeArgs name)).map .expr := by
    simp [Task.parts, hk]
  have hcomptime : (Task.expr node).comptimeParts = args.take (Builtin.typeArgs name) := by
    simp [Task.comptimeParts, hk]
  unfold lowerBuiltinCall
  dsimp only
  split
  · exact tracks_failUnresolved List.mem_cons_self (by decide) (ne_undeclared_of_builtin _)
  refine steers_ite (tracks_failAt List.mem_cons_self rfl (by decide) (by decide)) ?_
  split
  next has =>
    have htypes : Builtin.typeArgs name = 1 := if_pos has
    rw [htypes] at hparts hcomptime
    refine tracks_lowerAs hp _ (fun e he => hcomptime ▸ he) (fun e he => ?_) (.head _)
    exact hparts ▸ List.mem_map_of_mem he
  next has =>
    have htypes : Builtin.typeArgs name = 0 := if_neg has
    rw [htypes] at hparts
    refine steers_then (tracks_lowerArgs hp (fun e he => ?_) (.head _)) fun _ =>
      tracks_mild (mild_emitTo ..)
    exact hparts ▸ List.mem_map_of_mem he

include hp in
theorem tracks_lowerUnary {op : UnaryOperator} {operand : Node}
    (hk : node.kind = .unaryOp op operand) :
    Tracks env (l + 1) (.expr node) scope [scope]
      (lowerUnary parts node op operand scope loc) := by
  have one : .expr operand ∈ (Task.expr node).parts → ∀ kind : InstId → InstKind,
      Tracks env (l + 1) (.expr node) scope [scope] (do
        let value ← parts.value operand scope
        emitTo (kind value) scope node.location loc) := fun h kind =>
    steers_then (tracks_value hp h (.head _)) fun value => tracks_mild (mild_emitTo ..)
  cases op with
  | addressOf =>
    rw [lowerUnary]
    split
    next h =>
      have ht : .place operand ∈ (Task.expr node).parts := by simp [Task.parts, hk, Task.base, h]
      exact steers_then (tracks_place hp ht (.head _)) fun _ => tracks_mild (mild_deliver ..)
    next h => exact one (by simp [Task.parts, hk, Task.base, h]) .ref
  | deref => exact one (by simp [Task.parts, hk]) .loadPtr
  | optionalUnwrap => exact one (by simp [Task.parts, hk]) (.optionalUnwrap · true)
  | negate => exact one (by simp [Task.parts, hk]) (.unOp .negate)
  | boolNot => exact one (by simp [Task.parts, hk]) (.unOp .boolNot)
  | bitNot => exact one (by simp [Task.parts, hk]) (.unOp .bitNot)

include hp in
theorem tracks_lowerBinary {op : BinaryOperator} {lhs rhs : Node}
    (hk : node.kind = .binaryOp op lhs rhs) :
    Tracks env (l + 1) (.expr node) scope [scope]
      (lowerBinary parts node op lhs rhs scope loc) := by
  have hlhs : .expr lhs ∈ (Task.expr node).parts := by simp [Task.parts, hk]
  have hrhs : .expr rhs ∈ (Task.expr node).parts := by simp [Task.parts, hk]
  cases op
  case boolAnd | boolOr => exact tracks_lowerShortCircuit hp _ hlhs hrhs
  case orElse => exact tracks_lowerOrElse hp _ hlhs hrhs
  all_goals
    exact steers_then (tracks_value hp hlhs (.head _)) fun _ =>
      steers_then (tracks_value hp hrhs (.head _)) fun _ => tracks_mild (mild_emitTo ..)

/-! ### Compile-time blocks and suspension -/

include hp in
theorem tracks_lowerComptimeBody {e : Node} (hk : node.kind = .comptime e) :
    Tracks env (l + 1) (.body node) scope [scope] (lowerComptimeBody parts node e scope) := by
  have he : .expr e ∈ (Task.body node).parts := by simp [Task.parts, hk]
  exact steers_then (tracks_value hp he (.head _)) fun _ =>
    tracks_mild (mild_returnUnlessTerminated _ _ _ true (mild_pure _))

include hp in
/-- The body of a compile-time block over a stream of its own. -/
theorem ends_framedBody {e : Node} (hk : node.kind = .comptime e)
    (hc : isComptimeIn s.stream s.scopes scope = false)
    (hlt : scope.index < s.scopes.scopes.size) :
    match outcome (framedBody parts node e s.top) env (s.inBlock node scope) with
    | (.ok _, v) =>
      Course env true (l + 1) (.expr node) scope s ((s.opening scope .comptime).around v)
    | (.error .poisoned, v) =>
      Course env false (l + 1) (.expr node) scope s ((s.opening scope .comptime).around v)
    | (.error (.fault _), _) => True := by
  have hbody : Tracks env (l + 1) (.body node) s.top [s.top]
      (lowerComptimeBody parts node e s.top) := tracks_lowerComptimeBody hp hk
  have ho := hbody.ends
    { s.inBlock node scope with
      calls := (s.inBlock node scope).calls.push ⟨node.location, "comptime block"⟩ }
    fun q hq => List.mem_singleton.1 hq ▸ .refl _ _
  rw [framedBody, withFrame, outcome_bind, outcome_modify]
  dsimp only
  rw [outcome_bind, outcome_attempt]
  rcases hx : outcome (lowerComptimeBody parts node e s.top) env
    { s.inBlock node scope with
      calls := (s.inBlock node scope).calls.push ⟨node.location, "comptime block"⟩ } with
    ⟨(_ | _) | a, v⟩ <;> rw [hx] at ho
  · exact .block hk hc hlt ho
  · trivial
  · exact .block hk hc hlt ho.1

include hp in
theorem tracks_lowerComptime {e : Node} (hk : node.kind = .comptime e) :
    Tracks env (l + 1) (.expr node) scope [scope] (lowerComptime parts node e scope loc) := by
  refine ⟨fun s hs => ?_⟩
  have h := comptimeEnd_lowerComptime parts node e scope loc env s
  generalize outcome (lowerComptime parts node e scope loc) env s = o at h
  cases h with
  | fault => trivial
  | inPlace hlt hc =>
    refine ((hp.expr e s.top loc).ends (s.opening scope .comptime) fun q hq => ?_).lift
      fun _ _ h => .inPlace hk hc hlt h
    exact List.mem_singleton.1 hq ▸ .refl _ _
  | failed hlt hc hx =>
    have ho := ends_framedBody hp hk hc hlt
    rw [hx] at ho
    exact ho
  | @evaluated v value hlt hc hx =>
    have ho := ends_framedBody hp hk hc hlt
    rw [show outcome (framedBody parts node e s.top) env (s.inBlock node scope) = _ from hx] at ho
    refine Course.Ends.before (.trans ho (.minor (minor_withNext
      (.comptimeBlock s.stream.children.length) scope node.location false false))) ?_
    exact (tracks_mild (mild_deliver ..)).ends _ (List.forall_mem_nil _)

include hp in
theorem tracks_lowerSuspend {body : Option Node} (hk : node.kind = .suspend body) :
    Tracks env (l + 1) (.expr node) scope [scope] (lowerSuspend parts node body scope) := by
  have hbody : ∀ e ∈ body, .expr e ∈ (Task.expr node).parts := by
    simp +contextual [Task.parts, hk]
  refine steers_then (tracks_checkSuspend (t := .expr node) List.mem_cons_self) fun _ => ?_
  refine steers_mild (mild_emit ..) fun start => ?_
  cases body with
  | some body =>
    refine steers_openScope_bind (.head _) (by simp) fun q => ?_
    exact steers_then (tracks_expr hp _ (hbody body rfl) (.head _)) fun _ =>
      tracks_mild (mild_emit ..)
  | none => exact tracks_mild (mild_emit ..)

/-! ### All expressions -/

include hp in
/-- Every expression. -/
theorem tracks_lowerExpr (node : Node) (scope : ScopeId) :
    Tracks env (l + 1) (.expr node) scope [scope] (lowerExpr parts node scope loc) := by
  have failed : ∀ message, Tracks env (l + 1) (.expr node) scope [scope]
      (failAt .invalidConstruct message "lower_expr" node : LowerM InstId) := fun _ =>
    tracks_failAt List.mem_cons_self rfl (by decide) (by decide)
  rw [lowerExpr]
  cases hk : node.kind
  case varDecl | deferred | root | fnDecl | param | testDecl | containerField => exact failed _
  case intLiteral | floatLiteral | stringLiteral | boolLiteral | nullLiteral | undefinedLiteral |
      errorValue => exact tracks_mild (mild_emitTo ..)
  case symbol name =>
    exact steers_then (tracks_lowerSymbol (t := .expr node) List.mem_cons_self hk false) fun _ =>
      tracks_mild (mild_deliver ..)
  case fieldAccess | arrayAccess =>
    exact tracks_lowerLoad hp _ (by simp [Task.parts, hk]) (.head _)
  case unaryOp => exact tracks_lowerUnary hp _ hk
  case binaryOp => exact tracks_lowerBinary hp _ hk
  case call => exact tracks_lowerCall hp _ hk
  case builtinCall => exact tracks_lowerBuiltinCall hp _ hk
  case containerDecl => exact tracks_lowerContainer hp _ hk
  case errorSetDecl members =>
    have htrees : members ⊆ (Task.expr node).blamed := by
      simp [Task.blamed, hk, Kind.checked]
    exact tracks_lowerErrorSet (t := .expr node) htrees _
  case structInit => exact tracks_lowerStructInit hp _ hk
  case arrayInit => exact tracks_lowerArrayInit hp _ hk
  case block => exact tracks_lowerBlock hp _ hk
  case assign target value =>
    have htree : target ∈ (Task.expr node).blamed := by
      simp [Task.blamed, hk, Kind.checked]
    exact steers_then (tracks_lowerAssign hp (by simp [Task.parts, hk]) (by simp [Task.parts, hk])
      htree (.head _)) fun _ => tracks_mild (mild_emitVoid ..)
  case assignOp op target value =>
    have htree : target ∈ (Task.expr node).blamed := by
      simp [Task.blamed, hk, Kind.checked]
    exact steers_then (tracks_lowerAssignOp hp (by simp [Task.parts, hk])
      (by simp [Task.parts, hk]) htree (.head _)) fun _ => tracks_mild (mild_emitVoid ..)
  case ifThen => exact tracks_lowerIf hp _ hk
  case whileLoop => exact tracks_lowerWhile hp _ hk
  case forLoop => exact tracks_lowerFor hp _ hk
  case breakTo => exact tracks_lowerBreak hp hk
  case continueTo => exact tracks_lowerContinue hp hk
  case returnFrom => exact tracks_lowerReturn hp hk
  case tryExpr => exact tracks_lowerTry hp _ hk
  case catchExpr => exact tracks_lowerCatch hp _ hk
  case comptime => exact tracks_lowerComptime hp _ hk
  case suspend => exact tracks_lowerSuspend hp hk
  case unreachable => exact tracks_mild (mild_emit ..)
  case asm => exact tracks_lowerAsm (t := .expr node) List.mem_cons_self _ _ _

/-! ### Levels -/

/-- A node for which no level is left. -/
theorem steers_failDepth {t : Task} (ht : t.node ∈ t.blamed) (c : ScopeId) :
    Steers env 0 t c ins (failDepth t.node : LowerM α) inner := by
  refine ⟨fun s hs => ?_⟩
  obtain ⟨log, ho⟩ := @outcome_fail α env s (tooDeep env t.node)
  rw [failDepth, outcome_bind, outcome_read]
  dsimp only
  rw [show outcome (failAt _ _ _ _ : LowerM α) env s = _ from ho]
  exact .tooDeep ht

/-- At every level of nesting, a lowering keeps to a course. -/
theorem tracksParts_nested (env : Env) (levels : Nat) : TracksParts env levels (nested levels) := by
  induction levels with
  | zero =>
    exact ⟨fun node scope _ => steers_failDepth (t := .expr node) List.mem_cons_self scope,
      fun node scope => steers_failDepth (t := .stmt node) List.mem_cons_self scope⟩
  | succ levels ih =>
    exact ⟨fun node scope loc => tracks_lowerExpr ih loc node scope,
      fun node scope => steers_lowerStatement ih node scope⟩

end SourceIr.Lower
