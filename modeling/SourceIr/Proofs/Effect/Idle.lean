import SourceIr.Proofs.Course.Task
import SourceIr.Proofs.Effect.Control
import SourceIr.Proofs.Upkeep.Child

/-!
# Statements without an effect

A literal, a name, an access or an operator that is no branch only computes a value.  What is built
from such constructs leaves no instruction with an effect behind, so that it is warned of as a
statement.  A statement in which something has an effect is not.

* `Node.Idle`, the expressions that only compute a value;
* `Idles` and `Rests`, what their lowering adds, with one lemma for each construct;
* `expression_statement_warned`, which expression statements are warned of.
-/

namespace SourceIr

/-- The constructs that only compute a value from those of their parts. -/
def Kind.isIdle : Kind → Bool
  | intLiteral _ | floatLiteral _ | stringLiteral _ | boolLiteral _ | nullLiteral
  | undefinedLiteral | errorValue _ | symbol _ | fieldAccess .. | arrayAccess .. => true
  | unaryOp op _ => op != .optionalUnwrap
  | binaryOp op _ _ => !op.isLogical
  | _ => false

/-- An expression that is built from such constructs alone. -/
def Node.Idle (node : Node) : Prop := ∀ n ∈ node.nodes, n.kind.isIdle = true

namespace Node.Idle

variable {node : Node}

theorem self (h : node.Idle) : node.kind.isIdle = true := h node node.self_mem_nodes

theorem part {part : Node} (h : node.Idle) (hpart : part ∈ node.kind.trees) : part.Idle :=
  fun n hn => h n (Node.mem_nodes_of_tree hpart hn)

theorem operand {op : UnaryOperator} {operand : Node} (h : node.Idle)
    (hk : node.kind = .unaryOp op operand) : operand.Idle :=
  h.part (by simp [hk, Kind.trees, Kind.values, FieldValue.trees])

theorem operands {op : BinaryOperator} {lhs rhs : Node} (h : node.Idle)
    (hk : node.kind = .binaryOp op lhs rhs) : lhs.Idle ∧ rhs.Idle :=
  ⟨h.part (by simp [hk, Kind.trees, Kind.values, FieldValue.trees]),
    h.part (by simp [hk, Kind.trees, Kind.values, FieldValue.trees])⟩

theorem container {container : Node} {field : String} (h : node.Idle)
    (hk : node.kind = .fieldAccess container field) : container.Idle :=
  h.part (by simp [hk, Kind.trees, Kind.values, FieldValue.trees])

theorem element {array index : Node} (h : node.Idle) (hk : node.kind = .arrayAccess array index) :
    array.Idle ∧ index.Idle :=
  ⟨h.part (by simp [hk, Kind.trees, Kind.values, FieldValue.trees]),
    h.part (by simp [hk, Kind.trees, Kind.values, FieldValue.trees])⟩

end Node.Idle

namespace Lower

variable {env : Env} {s s' s'' : State} {α β : Type} {x : LowerM α} {f : α → LowerM β}
  {kind : InstKind} {scope : ScopeId} {location : Option Location} {loc : ResultLoc} {node : Node}
  {value : InstId} {parts : Parts}

/-! ### What is added -/

/-- Between two states nothing that has an effect is appended, and nothing is warned of. -/
structure Idles (s s' : State) : Prop where
  gains : Gains s s'
  unacted : ¬ Acted s s'
  warnings : s'.stream.warnings = s.stream.warnings

namespace Idles

theorem refl (s : State) : Idles s s where
  gains := .refl s
  unacted := by
    have hsize : s.stream.insts.size = s.stream.insts.toList.length := rfl
    rw [Acted, hsize, List.drop_length]
    exact Bool.false_ne_true
  warnings := rfl

theorem trans (h : Idles s s') (h' : Idles s' s'') : Idles s s'' where
  gains := h.gains.trans h'.gains
  unacted ha := by
    rw [Acted, h.gains.drop_eq h'.gains, List.any_append, Bool.or_eq_true] at ha
    exact ha.elim h.unacted h'.unacted
  warnings := h'.warnings.trans h.warnings

end Idles

/-- A routine that adds nothing else if it returns. -/
def Rests (env : Env) (x : LowerM α) : Prop := ∀ s a s', Returns x env s a s' → Idles s s'

theorem rests_pure {a : α} : Rests env (pure a) := by
  intro s b s' hr
  rw [(returns_pure.1 hr).2]
  exact .refl s

theorem rests_of_not_returns (h : ∀ s a s', ¬ Returns x env s a s') : Rests env x :=
  fun s a s' hr => absurd hr (h s a s')

theorem rests_failAt {d : DiagnosticKind} {message issuer : String} :
    Rests env (failAt d message issuer node : LowerM α) :=
  rests_of_not_returns fun _ _ _ => not_returns_fail

theorem rests_bind (hx : Rests env x) (hf : ∀ a, Rests env (f a)) : Rests env (x >>= f) := by
  intro s b s' hr
  obtain ⟨a, t, ha, hb⟩ := returns_bind.1 hr
  exact (hx s a t ha).trans (hf a t b s' hb)

theorem rests_get_bind {f : State → LowerM α} (h : ∀ s, Rests env (f s)) :
    Rests env (get >>= f) :=
  fun s a s' hr => h s s a s' (returns_get_bind.1 hr)

theorem rests_read_bind {f : Env → LowerM α} (h : Rests env (f env)) : Rests env (read >>= f) :=
  fun s a s' hr => h s a s' (returns_read_bind.1 hr)

theorem rests_ite {c : Prop} [Decidable c] {y : LowerM α} (hx : Rests env x) (hy : Rests env y) :
    Rests env (if c then x else y) := by
  split
  · exact hx
  · exact hy

theorem rests_emit (h : kind.hasSideEffects = false) : Rests env (emit kind scope location) := by
  intro s v s' hr
  obtain ⟨-, -, scope, location, force, gen, rfl⟩ := returns_emitWith hr
  refine ⟨(small_withNext ..).gains, ?_, rfl⟩
  simp [Acted, State.withNext, Stream.withNext, h]

/-- A value that goes nowhere is left where it is. -/
theorem rests_deliver (hloc : loc.wantsPtr = false) :
    Rests env (deliver value loc scope location) := by
  cases loc with
  | none | discard => exact rests_pure
  | existing | ret | alloc => cases hloc

theorem rests_emitTo (h : kind.hasSideEffects = false) (hloc : loc.wantsPtr = false) :
    Rests env (emitTo kind scope location loc) :=
  rests_bind (rests_emit h) fun _ => rests_deliver hloc

/-! ### Expressions -/

theorem rests_lowerSymbol {name : String} {lval : Bool} :
    Rests env (lowerSymbol node name scope lval) := by
  rw [lowerSymbol]
  refine rests_ite rests_failAt <| rests_ite ?_ ?_
  · exact rests_ite rests_failAt (rests_emit rfl)
  have hscopes : Rests env (scopesFrom scope) := by
    intro s t s' hr
    rw [(returns_scopesFrom hr).2]
    exact .refl s
  refine rests_bind hscopes fun scopes => rests_read_bind ?_
  split
  · refine rests_get_bind fun s => rests_ite ?_ ?_
    · exact rests_of_not_returns fun _ _ _ => not_returns_throw
    · exact rests_bind (rests_emit rfl) fun _ => rests_ite rests_pure (rests_emit rfl)
  · exact rests_emit rfl
  · exact rests_failAt

/-- The parts that only compute a value. -/
def RestParts (env : Env) (parts : Parts) : Prop :=
  ∀ {node scope loc}, node.Idle → loc.wantsPtr = false → Rests env (parts.expr node scope loc)

variable (hp : RestParts env parts)

include hp in
theorem rests_lowerPlace (h : node.Idle) : Rests env (lowerPlace parts scope node) := by
  induction node using lowerPlace.induct parts scope with
  | case1 id name location span => exact rests_lowerSymbol
  | case2 id container field location span hplace ih =>
    rw [lowerPlace, if_pos hplace]
    exact rests_bind (ih (h.container rfl)) fun _ => rests_emit rfl
  | case3 id container field location span hplace =>
    rw [lowerPlace, if_neg hplace]
    exact rests_bind (hp (h.container rfl) rfl) fun _ => rests_emit rfl
  | case4 id array index location span hplace ih =>
    obtain ⟨harray, hindex⟩ := h.element rfl
    rw [lowerPlace, if_pos hplace]
    exact rests_bind (ih harray) fun _ => rests_bind (hp hindex rfl) fun _ => rests_emit rfl
  | case5 id array index location span hplace =>
    obtain ⟨harray, hindex⟩ := h.element rfl
    rw [lowerPlace, if_neg hplace]
    exact rests_bind (hp harray rfl) fun _ => rests_bind (hp hindex rfl) fun _ => rests_emit rfl
  | case6 id operand location span => exact hp (h.operand rfl) rfl
  | case7 node h₁ h₂ h₃ h₄ =>
    rw [lowerPlace.eq_5 _ _ _ h₁ h₂ h₃ h₄]
    exact rests_failAt

include hp in
theorem rests_lowerUnary {op : UnaryOperator} {operand : Node} (h : operand.Idle)
    (hop : op ≠ .optionalUnwrap) (hloc : loc.wantsPtr = false) :
    Rests env (lowerUnary parts node op operand scope loc) := by
  cases op with
  | addressOf =>
    refine rests_ite (rests_bind (rests_lowerPlace hp h) fun _ => rests_deliver hloc) ?_
    exact rests_bind (hp h rfl) fun _ => rests_emitTo rfl hloc
  | deref => exact rests_bind (hp h rfl) fun _ => rests_emitTo rfl hloc
  | optionalUnwrap => exact absurd rfl hop
  | negate | boolNot | bitNot => exact rests_bind (hp h rfl) fun _ => rests_emitTo rfl hloc

include hp in
theorem rests_lowerBinary {op : BinaryOperator} {lhs rhs : Node} (hl : lhs.Idle) (hr : rhs.Idle)
    (hop : op.isLogical = false) (hloc : loc.wantsPtr = false) :
    Rests env (lowerBinary parts node op lhs rhs scope loc) := by
  have heq : lowerBinary parts node op lhs rhs scope loc = (do
      let left ← parts.value lhs scope
      let right ← parts.value rhs scope
      emitTo (.binOp op left right) scope node.location loc) := by
    cases op <;> first | rfl | cases hop
  rw [heq]
  exact rests_bind (hp hl rfl) fun _ => rests_bind (hp hr rfl) fun _ => rests_emitTo rfl hloc

include hp in
theorem rests_lowerExpr (h : node.Idle) (hloc : loc.wantsPtr = false) :
    Rests env (lowerExpr parts node scope loc) := by
  have hload : Rests env (lowerLoad parts node scope loc) :=
    rests_bind (rests_lowerPlace hp h) fun _ => rests_emitTo rfl hloc
  have hself := h.self
  rw [lowerExpr]
  cases hk : node.kind <;> rw [hk] at hself
  case intLiteral | floatLiteral | stringLiteral | boolLiteral | nullLiteral | undefinedLiteral |
      errorValue =>
    exact rests_emitTo rfl hloc
  case symbol => exact rests_bind rests_lowerSymbol fun _ => rests_deliver hloc
  case fieldAccess | arrayAccess => exact hload
  case unaryOp op operand =>
    exact rests_lowerUnary hp (h.operand hk) (by simpa [Kind.isIdle] using hself) hloc
  case binaryOp op lhs rhs =>
    obtain ⟨hl, hr⟩ := h.operands hk
    exact rests_lowerBinary hp hl hr (by simpa [Kind.isIdle] using hself) hloc
  all_goals cases hself

/-- The routines for parts at every level of nesting. -/
theorem restParts_nested (levels : Nat) : RestParts env (nested levels) := by
  induction levels with
  | zero =>
    exact fun _ _ => rests_of_not_returns fun _ _ _ hr => not_returns_fail (returns_read_bind.1 hr)
  | succ levels ih => exact rests_lowerExpr ih

/-! ### Statements -/

/-- What is found out about the instructions from a position on. -/
theorem returns_effect_bind {start : Nat} {f : Bool → LowerM β} {b : β}
    (hr : Returns (hasEffectSince start >>= f) env s b s') :
    Returns (f ((s.stream.insts.toList.drop start).any (·.kind.hasSideEffects))) env s b s' := by
  obtain ⟨effectful, t, ht, hf⟩ := returns_bind.1 hr
  rw [hasEffectSince, returns_get_bind] at ht
  obtain ⟨rfl, rfl⟩ := returns_pure.1 (returns_stopAt_bind ht).2
  exact hf

/-- The warning on a statement without an effect. -/
def noEffectWarning (node : Node) : Message :=
  .ofKind .noEffect "statement has no effect" "lower_statement" node.location node.span

/-- A statement after which control goes on is warned of if its lowering has appended no effect. -/
theorem warnings_lowerExprStatement {u : PUnit} (hwarn : env.options.warnNoEffect = true)
    (hr : Returns (lowerExprStatement parts node scope) env s u s') (hs' : s'.GoesOn) :
    ∃ v t, Returns (parts.expr node scope .discard) env s v t ∧ t.GoesOn ∧
      (Acted s t → s'.stream.warnings = t.stream.warnings) ∧
      (¬ Acted s t → s'.stream.warnings = t.stream.warnings.push (noEffectWarning node)) := by
  have check : ∀ {t : State} {v : InstId}, Returns (do
      let _ ← emitGen (.checkStatementIsVoid v) scope node.location) env t u s' →
      s'.stream.warnings = t.stream.warnings := by
    intro t v hr
    obtain ⟨_, _, hemit, hr⟩ := returns_bind.1 hr
    obtain ⟨-, rfl⟩ := returns_pure.1 hr
    obtain ⟨-, -, scope, location, force, gen, rfl⟩ := returns_emitWith hemit
    rfl
  rw [lowerExprStatement, returns_get_bind] at hr
  obtain ⟨v, t, hexpr, hr⟩ := returns_bind.1 hr
  refine ⟨v, t, hexpr, ?_⟩
  replace hr := returns_isTerminated_bind hr
  cases ht : t.stream.isTerminated with
  | true =>
    rw [ht] at hr
    obtain ⟨-, rfl⟩ := returns_pure.1 hr
    exact absurd (hs'.symm.trans ht) Bool.false_ne_true
  | false =>
    rw [ht] at hr
    replace hr := returns_read_bind.1 (returns_effect_bind hr)
    rw [hwarn, Bool.true_and] at hr
    refine ⟨ht, fun ha => ?_, fun ha => ?_⟩
    · rw [Acted] at ha
      rw [ha] at hr
      exact check hr
    · rw [Acted, Bool.not_eq_true] at ha
      rw [ha] at hr
      obtain ⟨_, u, hwarned, hr⟩ := returns_bind.1 hr
      rw [check hr]
      rw [warnAt, returns_get_bind] at hwarned
      obtain ⟨_, _, hnote, hwarned⟩ := returns_bind.1 hwarned
      obtain rfl := returns_modify.1 hnote
      obtain rfl := returns_modify.1 hwarned
      rfl

/-- The expressions that are statements which are expected to have an effect. -/
theorem returns_statement {next : ScopeId} (hk : node.kind.isExpressionStatement = true)
    (hr : Returns (lowerStatement parts node scope) env s next s') :
    ∃ u, Returns (lowerExprStatement parts node scope) env s u s' := by
  rw [lowerStatement] at hr
  split at hr
  case _ h | _ h | _ h | _ h =>
    rw [h] at hk
    cases hk
  case _ =>
    rw [if_pos hk] at hr
    obtain ⟨u, t, h, hr⟩ := returns_bind.1 hr
    obtain ⟨-, rfl⟩ := returns_pure.1 hr
    exact ⟨u, h⟩

/-- An expression as a statement, after which control goes on, is warned of once if it only computes
a value.  It is not warned of if something in it has an effect when it is evaluated, but statements
inside it may be: there are no warnings besides those of the expression.  The operators that are
lowered to a branch have an effect in this sense, whatever their operands. -/
theorem expression_statement_warned {levels : Nat} {next : ScopeId}
    (hwarn : env.options.warnNoEffect = true) (hk : node.kind.isExpressionStatement = true)
    (hr : Returns ((nested levels).statement node scope) env s next s') (hs : s.GoesOn)
    (hs' : s'.GoesOn) :
    ∃ below v t, levels = below + 1 ∧
      Returns ((nested below).expr node scope .discard) env s v t ∧
      (node.Idle → s'.stream.warnings = s.stream.warnings.push (noEffectWarning node)) ∧
      (node.Acts → s'.stream.warnings = t.stream.warnings) := by
  cases levels with
  | zero => exact absurd (returns_read_bind.1 hr) not_returns_fail
  | succ below =>
    obtain ⟨u, hstatement⟩ := returns_statement hk hr
    obtain ⟨v, t, hexpr, ht, hsome, hnone⟩ := warnings_lowerExprStatement hwarn hstatement hs'
    refine ⟨below, v, t, rfl, hexpr, fun hidle => ?_, fun hacts => ?_⟩
    · have hrests := restParts_nested below hidle rfl s v t hexpr
      rw [hnone hrests.unacted, hrests.warnings]
    · have hshows := (displayParts_nested below).expr s v t hexpr
      exact hsome ((hshows.acted hs).resolve_right fun h => h.1 hacts)

/-- Options under which statements without an effect are warned of. -/
def warning : Env := ⟨.empty "", { warnNoEffect := true }⟩

/-- The state that a statement at the start of a function leaves. -/
def afterStatement (node : Node) : State :=
  (outcome ((nested 5).statement node ⟨0⟩) warning Generator.bareStart).2

/-- A sum that is not used. -/
def unusedSum : Node := .bare (.binaryOp .add (.bare (.intLiteral 1)) (.bare (.intLiteral 2)))

/-- A value that is not used, computed from the one of a call with an effect. -/
def unusedCall : Node := .bare (.unaryOp .negate (.bare (.builtinCall "breakpoint" [])))

theorem expression_statement_warned_unused :
    (afterStatement unusedSum).stream.warnings =
        Generator.bareStart.stream.warnings.push (noEffectWarning unusedSum) ∧
      ∃ v t, Returns ((nested 4).expr unusedCall ⟨0⟩ .discard) warning Generator.bareStart v t ∧
        (afterStatement unusedCall).stream.warnings = t.stream.warnings := by
  have hidle : unusedSum.Idle := by
    rw [Node.Idle]
    decide +kernel
  have hacts : unusedCall.Acts := .part (List.mem_singleton_self _) (.self (by decide +kernel))
  have hstart : Generator.bareStart.GoesOn := by
    rw [State.GoesOn]
    decide +kernel
  have hsum : Returns ((nested 5).statement unusedSum ⟨0⟩) warning Generator.bareStart ⟨0⟩
      (afterStatement unusedSum) := returns_of_toOption (by decide +kernel)
  have hcall : Returns ((nested 5).statement unusedCall ⟨0⟩) warning Generator.bareStart ⟨0⟩
      (afterStatement unusedCall) := returns_of_toOption (by decide +kernel)
  obtain ⟨-, -, -, -, -, hwarned, -⟩ := expression_statement_warned rfl rfl hsum hstart
    (by rw [State.GoesOn]; decide +kernel)
  obtain ⟨below, v, t, hbelow, hexpr, -, hnone⟩ := expression_statement_warned rfl rfl hcall hstart
    (by rw [State.GoesOn]; decide +kernel)
  obtain rfl := Nat.succ.inj hbelow
  exact ⟨hwarned hidle, v, t, hexpr, hnone hacts⟩

/-- A conjunction that is not used. -/
def unusedConjunction : Node :=
  .bare (.binaryOp .boolAnd (.bare (.boolLiteral true)) (.bare (.boolLiteral false)))

/-- The branch of a conjunction is taken for an effect, though its operands have none. -/
theorem conjunction_not_warned :
    Returns ((nested 5).statement unusedConjunction ⟨0⟩) warning Generator.bareStart ⟨0⟩
        (afterStatement unusedConjunction) ∧
      (afterStatement unusedConjunction).stream.isTerminated = false ∧
        (afterStatement unusedConjunction).stream.warnings = #[] :=
  ⟨returns_of_toOption (by decide +kernel), by decide +kernel, by decide +kernel⟩

end Lower

end SourceIr
