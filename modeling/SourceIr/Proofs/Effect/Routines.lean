import Mathlib.Data.List.DropRight
import SourceIr.Proofs.Effect.Basic

/-!
# Effects of what does not branch

The routines of the constructs that do not branch evaluate their parts one after the other, and show
what the parts show.

* handles, results and names, which have no effects;
* `DisplayParts`, what is relied on for parts;
* `displays_lowerPlace` and those after it, one construct after the other.
-/

namespace SourceIr

/-- It does not matter how the name is written. -/
theorem Builtin.mayHaveEffect_bareName (name : String) :
    mayHaveEffect (bareName name) = mayHaveEffect name := by
  have h : bareName (bareName name) = bareName name := by
    rw [bareName, bareName, String.toList_ofList, List.dropWhile_idempotent]
  rw [mayHaveEffect, find?, h]
  rfl

namespace Lower

open Outline Comparison

variable {env : Env} {s s' : State} {α β : Type} {x : LowerM α} {f : α → LowerM β} {p : Prop}
  {kind : InstKind} {scope : ScopeId} {location : Option Location} {loc : ResultLoc} {node : Node}
  {value : InstId} {parts : Parts}

/-! ### Handles -/

/-- A routine that only looks at the state. -/
theorem displays_of_eq (h : ∀ s a s', Returns x env s a s' → s' = s) : Displays env False x := by
  intro s a s' hr
  rw [h s a s' hr]
  exact .refl s

theorem displays_scopesFrom : Displays env False (scopesFrom scope) :=
  displays_of_eq fun _ _ _ hr => (returns_scopesFrom hr).2

theorem displays_scopeAt : Displays env False (scopeAt scope) := by
  refine displays_get_bind fun s => ?_
  dsimp only
  split
  · exact displays_pure
  · exact displays_of_not_returns fun _ _ _ => not_returns_throw

theorem displays_isComptimeAt : Displays env False (isComptimeAt scope) :=
  displays_then displays_scopesFrom fun _ => displays_get_bind fun _ => displays_pure

theorem displays_openScope {kind : ScopeKind} : Displays env False (openScope scope kind) :=
  displays_of_stream (same_openScope _ _) fun _ _ _ hr => by
    obtain ⟨x, -, hr⟩ := returns_scopeAt_bind hr
    rw [returns_get_bind] at hr
    obtain ⟨_, t, hset, hr⟩ := returns_bind.1 hr
    obtain rfl := returns_set.1 hset
    rw [(returns_pure.1 hr).2]

theorem displays_declare {r : BindingRequest} : Displays env False (declare scope r) :=
  displays_of_stream ((gaining env).comparison.rel_declare _ _ trivial) fun _ _ _ hr => by
    obtain ⟨-, _, rfl⟩ := returns_declare hr
    rfl

/-- A new block is not the one that code is added to. -/
theorem displays_newBlock {name : String} : Displays env False (newBlock name) := by
  intro s b s' hr
  have hg := gains_of_same (same_newBlock name) hr
  rw [newBlock, returns_get_bind] at hr
  obtain ⟨_, t, hset, hr⟩ := returns_bind.1 hr
  obtain rfl := returns_set.1 hset
  obtain ⟨-, rfl⟩ := returns_pure.1 hr
  refine ⟨hg, fun hs => .inr ⟨id, ?_⟩⟩
  rw [State.GoesOn, Stream.isTerminated, Stream.lastInBlock?] at hs ⊢
  simp only [Stream.block?, Stream.inst?, Array.getElem?_push] at hs ⊢
  split
  · rfl
  · exact hs

theorem displays_setNameHint {name : String} : Displays env False (setNameHint node name) :=
  displays_of_stream ((gaining env).comparison.rel_step (innerStep_setNameHint _ _))
    fun _ _ _ hr => by rw [returns_modify.1 hr]

theorem displays_takeNameHint : Displays env False (takeNameHint node) := by
  refine displays_of_stream ((gaining env).comparison.rel_step (innerStep_takeNameHint _))
    fun s _ _ hr => ?_
  rw [takeNameHint, returns_get_bind] at hr
  split at hr
  · split at hr
    · obtain ⟨_, t, hset, hr⟩ := returns_bind.1 hr
      obtain rfl := returns_set.1 hset
      rw [(returns_pure.1 hr).2]
    · rw [(returns_pure.1 hr).2]
  · rw [(returns_pure.1 hr).2]

theorem displays_countMade {m : Node.MemberSymbol} : Displays env False (countMade m) := by
  cases m with
  | written => exact displays_pure
  | made symbol =>
    exact displays_of_stream ((gaining env).comparison.rel_step (innerStep_countMade _))
      fun _ _ _ hr => by rw [returns_modify.1 hr]

theorem displays_failAt {d : DiagnosticKind} {message issuer : String} :
    Displays env p (failAt d message issuer node : LowerM α) :=
  displays_of_not_returns fun _ _ _ => not_returns_fail

theorem displays_failTaken {message issuer note : String} {previous : Option Location} :
    Displays env p (failTaken message issuer node previous note : LowerM α) :=
  displays_of_not_returns fun _ _ _ => not_returns_fail

/-! ### Results and names -/

theorem displays_resultPtr : Displays env False (resultPtr loc scope location) := by
  cases loc with
  | ret | alloc => exact displays_map displays_emitGen
  | existing | none | discard => exact displays_pure

theorem displays_settle : Displays env False (settle loc scope location) := by
  cases loc with
  | alloc =>
    refine displays_then displays_resultPtr fun ptr => ?_
    cases ptr <;> exact displays_pure
  | _ => exact displays_pure

theorem displays_deliver : Displays env False (deliver value loc scope location) := by
  cases loc with
  | existing ptr => exact displays_then displays_emitGen fun _ => displays_pure
  | alloc =>
    refine displays_then displays_resultPtr fun ptr => ?_
    cases ptr with
    | some ptr => exact displays_then displays_emitGen fun _ => displays_pure
    | none => exact displays_pure
  | none | discard | ret => exact displays_pure

theorem displays_emitTo :
    Displays env (kind.hasSideEffects = true) (emitTo kind scope location loc) :=
  displays_before displays_emitWith fun _ => displays_deliver

theorem displays_emitToActing (h : kind.hasSideEffects = true) :
    Displays env True (emitTo kind scope location loc) := displays_emitTo.imp fun _ => h

theorem displays_lowerSymbol {name : String} {lval : Bool} :
    Displays env False (lowerSymbol node name scope lval) := by
  rw [lowerSymbol]
  refine displays_ite displays_failAt <| displays_ite ?_ ?_
  · exact displays_ite displays_failAt displays_emit
  refine displays_then displays_scopesFrom fun scopes => displays_read_bind ?_
  split
  · refine displays_get_bind fun s => displays_ite ?_ ?_
    · exact displays_of_not_returns fun _ _ _ => not_returns_throw
    · exact displays_then displays_emit fun _ => displays_ite displays_pure displays_emit
  · exact displays_emit
  · exact displays_failAt

theorem displays_typeName {word : String} : Displays env False (typeName node scope word) := by
  refine displays_then displays_takeNameHint fun name => ?_
  cases name with
  | some name => exact displays_then displays_scopesFrom fun _ => displays_pure
  | none =>
    refine displays_then displays_scopesFrom fun scopes => ?_
    dsimp only
    split
    · exact displays_then displays_scopeAt fun _ => displays_pure
    · exact displays_pure

theorem displays_memberNames {seen : Seen} {decls : List Node} :
    Displays env False (memberNames seen decls) := by
  induction decls generalizing seen with
  | nil => exact displays_pure
  | cons decl rest ih =>
    rw [memberNames]
    split
    · exact ih
    refine displays_ite ?_ (displays_then ih fun _ => displays_pure)
    split
    · exact displays_failTaken
    · exact displays_then ih fun _ => displays_pure

theorem displays_checkOpaque {kind : ContainerKind} {fields : List Node} :
    Displays env False (checkOpaque kind fields) := by
  cases fields with
  | nil => exact displays_pure
  | cons field rest => exact displays_ite displays_failAt displays_pure

theorem displays_errorNames {seen : Seen} {members : List Node} :
    Displays env False (errorNames seen members) := by
  induction members generalizing seen with
  | nil => exact displays_pure
  | cons member rest ih =>
    rw [errorNames]
    split
    · refine displays_then displays_countMade fun _ => ?_
      split
      · exact displays_failTaken
      · exact displays_then ih fun _ => displays_pure
    · exact displays_failAt

theorem displays_lowerErrorSet {members : List Node} :
    Displays env False (lowerErrorSet node members scope loc) :=
  displays_then displays_typeName fun _ => displays_then displays_errorNames fun _ =>
    displays_emitTo.none

theorem displays_fieldLoc {target : Option InstId} {field : FieldInit} :
    Displays env False (fieldLoc target field scope) := by
  cases target with
  | some ptr => exact displays_then displays_emitGen fun _ => displays_pure
  | none => exact displays_pure

theorem displays_elementLoc {target : Option InstId} {index : Nat} :
    Displays env False (elementLoc target index node scope) := by
  cases target with
  | some ptr =>
    exact displays_then displays_emitGen fun _ => displays_then displays_emitGen fun _ =>
      displays_pure
  | none => exact displays_pure

theorem displays_checkModifier {modifier : CallModifier} {forced : Bool} :
    Displays env False (checkModifier node modifier forced) := by
  rw [checkModifier]
  split
  · exact displays_failAt
  · exact displays_pure

theorem displays_lowerAsm {template : String} {isVolatile : Bool} :
    Displays env (isVolatile = true) (lowerAsm node template isVolatile scope loc) :=
  displays_then displays_scopesFrom fun _ => displays_ite displays_failAt displays_emitTo

theorem displays_checkSuspend : Displays env False (checkSuspend node scope) := by
  refine displays_then displays_scopesFrom fun scopes => displays_ite displays_failAt ?_
  refine displays_ite displays_failAt <| displays_then displays_isComptimeAt fun _ => ?_
  exact displays_ite displays_failAt displays_pure

/-- An argument that is there is used. -/
theorem displays_argAt_bind {args : List Node} {i : Nat} {f : Node → LowerM α}
    (h : ∀ arg, args[i]? = some arg → Displays env p (f arg)) :
    Displays env p (argAt args i >>= f) := by
  intro s a s' hr
  rw [argAt] at hr
  split at hr
  next arg harg => exact h arg harg s a s' hr
  next =>
    obtain ⟨_, _, hthrow, -⟩ := returns_bind.1 hr
    exact absurd hthrow not_returns_throw

/-! ### Parts -/

/-- How a statement ends that is lowered in a scope: an expression is deferred in a scope of its
own, or the effects of the statement show. -/
inductive StatementEnd (node : Node) (scope : ScopeId) (s : State) : ScopeId → State → Prop
  | deferred {kind : DeferKind} {expr : Node} (hk : node.kind = .deferred kind expr)
      (hs : scope.index < s.scopes.scopes.size) :
      StatementEnd node scope s ⟨s.scopes.scopes.size⟩ (s.deferring scope kind expr)
  | done {s' : State} (h : Shows node.Acts s s') : StatementEnd node scope s scope s'

/-- What is relied on for the parts of a construct. -/
structure DisplayParts (env : Env) (parts : Parts) : Prop where
  same : (gaining env).comparison.RelParts parts parts
  expr : ∀ {node scope loc}, Displays env node.Acts (parts.expr node scope loc)
  statement : ∀ {node scope s next s'}, Returns (parts.statement node scope) env s next s' →
    StatementEnd node scope s next s'

/-- One of these nodes has an effect. -/
def AnyActs (nodes : List Node) : Prop := ∃ node ∈ nodes, node.Acts

theorem anyActs_nil : ¬ AnyActs [] := nofun

theorem anyActs_cons {nodes : List Node} :
    AnyActs (node :: nodes) ↔ node.Acts ∨ AnyActs nodes := by
  simp [AnyActs]

theorem anyActs_one : AnyActs [node] ↔ node.Acts := by
  simp [AnyActs]

theorem anyActs_two {node' : Node} : AnyActs [node, node'] ↔ node.Acts ∨ node'.Acts := by
  simp [AnyActs]

theorem anyActs_append {nodes nodes' : List Node} :
    AnyActs (nodes ++ nodes') ↔ AnyActs nodes ∨ AnyActs nodes' := by
  simp [AnyActs, or_and_right, exists_or]

theorem anyActs_of_acts (h : node.Acts) (hk : node.kind.acts = false) :
    AnyActs node.kind.evaluated :=
  (Node.acts_iff.1 h).resolve_left fun h => Bool.false_ne_true (hk.symm.trans h)

variable (hp : DisplayParts env parts)

include hp in
theorem DisplayParts.comptimeValue : Displays env node.Acts (parts.comptimeValue node scope) :=
  displays_then displays_openScope fun _ => hp.expr

include hp in
theorem DisplayParts.comptimeValue? {node : Option Node} :
    Displays env (AnyActs node.toList) (parts.comptimeValue? node scope) := by
  cases node with
  | some node => exact displays_map (hp.comptimeValue.imp (by simp [AnyActs]))
  | none => exact displays_pure.imp anyActs_nil

/-! ### Constructs that do not branch -/

include hp in
theorem displays_lowerPlace : Displays env node.Acts (lowerPlace parts scope node) := by
  induction node using lowerPlace.induct parts scope with
  | case1 id name location span =>
    exact displays_lowerSymbol.imp fun h => anyActs_nil (anyActs_of_acts h rfl)
  | case2 id container field location span h ih =>
    rw [lowerPlace, if_pos h]
    refine (displays_before ih fun _ => displays_emit).imp fun h => ?_
    exact anyActs_one.1 (anyActs_of_acts h rfl)
  | case3 id container field location span h =>
    rw [lowerPlace, if_neg h]
    refine (displays_before hp.expr fun _ => displays_emit).imp fun h => ?_
    exact anyActs_one.1 (anyActs_of_acts h rfl)
  | case4 id array index location span h ih =>
    rw [lowerPlace, if_pos h]
    refine (displays_bind ih fun _ => displays_before hp.expr fun _ => displays_emit).imp
      fun h => ?_
    exact anyActs_two.1 (anyActs_of_acts h rfl)
  | case5 id array index location span h =>
    rw [lowerPlace, if_neg h]
    refine (displays_bind hp.expr fun _ => displays_before hp.expr fun _ => displays_emit).imp
      fun h => ?_
    exact anyActs_two.1 (anyActs_of_acts h rfl)
  | case6 id operand location span =>
    exact hp.expr.imp fun h => anyActs_one.1 (anyActs_of_acts h rfl)
  | case7 node h₁ h₂ h₃ h₄ =>
    rw [lowerPlace.eq_5 _ _ _ h₁ h₂ h₃ h₄]
    exact displays_failAt

include hp in
theorem displays_lowerLoad : Displays env node.Acts (lowerLoad parts node scope loc) :=
  displays_before (displays_lowerPlace hp) fun _ => displays_emitTo.none

include hp in
theorem displays_lowerFields {kind : ContainerKind} {seen : Seen} {fields : List Node} :
    Displays env (AnyActs (Kind.containerDecl kind fields []).used)
      (lowerFields parts kind scope seen fields) := by
  induction fields generalizing seen with
  | nil => exact displays_pure.imp anyActs_nil
  | cons field rest ih =>
    rw [lowerFields]
    split
    next name typeExpr defaultValue hk =>
      split
      · exact displays_failTaken
      refine (displays_bind hp.comptimeValue? fun _ => displays_bind hp.comptimeValue? fun _ =>
        displays_before ih fun _ => displays_pure).imp fun h => ?_
      rw [Kind.used, List.flatMap_cons, hk] at h
      rwa [anyActs_append, anyActs_append, or_assoc] at h
    next => exact displays_failAt

include hp in
theorem displays_lowerContainer {kind : ContainerKind} {fields decls : List Node} :
    Displays env (AnyActs (Kind.containerDecl kind fields decls).used)
      (lowerContainer parts node kind fields decls scope loc) := by
  refine displays_then displays_typeName fun _ => displays_then displays_checkOpaque fun _ => ?_
  exact displays_before (displays_lowerFields hp) fun _ =>
    displays_then displays_memberNames fun _ => displays_emitTo.none

include hp in
theorem displays_lowerFieldInits {target : Option InstId} {seen : Seen}
    {fields : List FieldInit} : Displays env (AnyActs (fields.map (·.value)))
      (lowerFieldInits parts target scope seen fields) := by
  induction fields generalizing seen with
  | nil => exact displays_pure.imp anyActs_nil
  | cons field rest ih =>
    rw [lowerFieldInits]
    split
    · exact displays_failTaken
    refine (displays_then displays_fieldLoc fun _ => displays_bind hp.expr fun _ =>
      displays_before ih fun _ => displays_pure).imp ?_
    exact anyActs_cons.1

include hp in
theorem displays_lowerStructInit {typeExpr : Option Node} {fields : List FieldInit} :
    Displays env (AnyActs (Kind.structInit typeExpr fields).used)
      (lowerStructInit parts node typeExpr fields scope loc) := by
  refine (displays_bind hp.comptimeValue? fun _ => displays_then displays_resultPtr fun _ =>
    displays_before (displays_lowerFieldInits hp) fun _ => displays_emit).imp ?_
  exact anyActs_append.1

include hp in
theorem displays_lowerElements {target : Option InstId} {index : Nat} {elements : List Node} :
    Displays env (AnyActs elements) (lowerElements parts target scope index elements) := by
  induction elements generalizing index with
  | nil => exact displays_pure.imp anyActs_nil
  | cons element rest ih =>
    refine (displays_then displays_elementLoc fun _ => displays_bind hp.expr fun _ =>
      displays_before ih fun _ => displays_pure).imp ?_
    exact anyActs_cons.1

include hp in
theorem displays_lowerArrayInit {typeExpr : Option Node} {elements : List Node} :
    Displays env (AnyActs (Kind.arrayInit typeExpr elements).used)
      (lowerArrayInit parts node typeExpr elements scope loc) := by
  refine (displays_bind hp.comptimeValue? fun _ => displays_then displays_resultPtr fun _ =>
    displays_before (displays_lowerElements hp) fun _ => displays_emit).imp ?_
  exact anyActs_append.1

include hp in
theorem displays_lowerArgs {args : List Node} :
    Displays env (AnyActs args) (lowerArgs parts scope args) := by
  induction args with
  | nil => exact displays_pure.imp anyActs_nil
  | cons arg rest ih =>
    refine (displays_bind hp.expr fun _ => displays_before ih fun _ => displays_pure).imp ?_
    exact anyActs_cons.1

/-- What shows while an evaluation is open has shown when it is closed. -/
theorem displays_withFrame {description : String} (hx : Displays env p x) :
    Displays env p (withFrame location description x) := by
  intro s a s' hr
  obtain ⟨t, hx', rfl⟩ := returns_withFrame hr
  have h := hx _ a t hx'
  exact ⟨h.gains.aside rfl rfl rfl rfl rfl rfl, h.acted⟩

include hp in
/-- A call is an effect of its own. -/
theorem displays_lowerCall {callee : Node} {args : List Node} {modifier : CallModifier} :
    Displays env True (lowerCall parts node callee args modifier scope loc) := by
  refine displays_then displays_scopesFrom fun scopes => ?_
  refine displays_then displays_checkModifier fun _ => displays_then hp.expr.none fun target => ?_
  have all : Displays env False (do
      let argScope ← if (modifier = .compileTime && !scopes.isForcedComptime scope)
        then openScope scope .comptime else pure scope
      lowerArgs parts argScope args) := by
    refine displays_ite ?_ ?_
    · exact displays_then displays_openScope fun _ => (displays_lowerArgs hp).none
    · exact displays_then displays_pure fun _ => (displays_lowerArgs hp).none
  have call : ∀ values, Displays env True (do
      let ptr ← resultPtr loc scope node.location
      emitWith (.call target values modifier ptr) scope node.location (modifier = .compileTime)
        false) := fun values => displays_then displays_resultPtr fun _ => displays_emitActing rfl
  refine displays_then displays_isComptimeAt fun atComptime => ?_
  exact displays_ite (displays_then (displays_withFrame all) call) (displays_then all call)

include hp in
theorem displays_lowerAs {args : List Node} (hlen : args.length = 2) :
    Displays env (AnyActs args) (lowerAs parts node args scope loc) := by
  obtain ⟨destType, value, rfl⟩ := List.length_eq_two.1 hlen
  refine displays_argAt_bind fun arg harg => ?_
  obtain rfl := Option.some.inj harg
  refine (displays_bind hp.comptimeValue fun _ => displays_argAt_bind fun arg harg => ?_).imp
    anyActs_two.1
  obtain rfl := Option.some.inj harg
  exact displays_before hp.expr fun _ => displays_emitTo.none

include hp in
theorem displays_lowerBuiltinCall {name : String} {args : List Node} :
    Displays env (Builtin.mayHaveEffect name = true ∨ AnyActs args)
      (lowerBuiltinCall parts node name args scope loc) := by
  unfold lowerBuiltinCall
  dsimp only
  split
  · exact displays_failAt
  next info hinfo =>
    split
    · exact displays_failAt
    next hlen =>
      rw [← Builtin.mayHaveEffect_bareName]
      split
      next hname =>
        rw [hname] at hinfo
        refine (displays_lowerAs hp (Builtin.length_of_as hinfo (by simpa using hlen))).imp ?_
        exact fun h => h.resolve_left (by rw [hname]; decide)
      next =>
        refine (displays_bind (displays_lowerArgs hp) fun values => ?_).imp Or.symm
        exact displays_emitTo.imp id

include hp in
theorem displays_lowerUnary {op : UnaryOperator} {operand : Node} :
    Displays env (op = .optionalUnwrap ∨ operand.Acts)
      (lowerUnary parts node op operand scope loc) := by
  cases op with
  | addressOf =>
    refine Displays.imp (p := operand.Acts) (displays_ite ?_ ?_) fun h => h.resolve_left nofun
    · exact displays_before (displays_lowerPlace hp) fun _ => displays_deliver
    · exact displays_before hp.expr fun _ => displays_emitTo.none
  | deref | negate | boolNot | bitNot =>
    refine Displays.imp (p := operand.Acts) ?_ fun h => h.resolve_left nofun
    exact displays_before hp.expr fun _ => displays_emitTo.none
  | optionalUnwrap =>
    refine Displays.imp (p := True) ?_ fun _ => trivial
    exact displays_then hp.expr.none fun _ => displays_emitToActing rfl

/-! ### Statements -/

include hp in
/-- A declaration is an effect of its own. -/
theorem displays_lowerLocalVar {name : String} {isConst isComptime : Bool}
    {typeExpr init : Option Node} : Displays env True
      (lowerLocalVar parts node name isConst isComptime typeExpr init scope) := by
  have ofPart : ∀ {α : Type} {x : LowerM α}, Displays env False x →
      Displays env False (orDeclareFailed x node name scope) :=
    fun hx s a s' hr => hx s a s' hr.of_orDeclareFailed
  refine displays_then displays_scopesFrom fun scopes => ?_
  refine displays_then (ofPart hp.comptimeValue?.none) fun typeInst => ?_
  cases init with
  | none =>
    exact displays_of_not_returns fun _ _ _ hr => not_returns_fail hr.of_orDeclareFailed
  | some init =>
    refine displays_then displays_emit fun ptr => displays_then displays_setNameHint fun _ => ?_
    have rest : ∀ initScope, Displays env True (do
        let value ← orDeclareFailed (parts.expr init initScope (.existing ptr)) node name scope
        let status : ComptimeStatus :=
          if isComptime || scopes.isForcedComptime scope then .known true else .pending value
        let var ← declare scope
          (((BindingRequest.named name node.location).constness isConst
            (isConst || (isComptime || scopes.isForcedComptime scope))).withComptime status)
        let _ ← emit (.declVar var ptr) scope node.location) := fun initScope =>
      displays_then (ofPart hp.expr.none) fun value => displays_then displays_declare fun var =>
        displays_before (displays_emitActing rfl) fun _ => displays_pure
    exact displays_ite (displays_then displays_openScope rest) (displays_then displays_pure rest)

include hp in
theorem displays_lowerAssign {target value : Node} : Displays env (target.Acts ∨ value.Acts)
    (lowerAssign parts target value scope) := by
  rw [lowerAssign]
  split
  next hk =>
    rw [if_pos rfl]
    refine Displays.imp (p := value.Acts) (displays_before hp.expr fun _ => displays_pure)
      fun h => h.resolve_left fun h => ?_
    rw [Node.acts_iff, hk] at h
    exact h.elim Bool.false_ne_true anyActs_nil
  next =>
    rw [if_neg Bool.false_ne_true]
    refine displays_ite displays_failAt ?_
    exact displays_bind (displays_lowerPlace hp) fun _ =>
      displays_before hp.expr fun _ => displays_pure

include hp in
/-- A store is an effect of its own. -/
theorem displays_lowerAssignOp {op : BinaryOperator} {target value : Node} :
    Displays env True (lowerAssignOp parts node op target value scope) := by
  refine displays_ite displays_failAt ?_
  refine displays_then (displays_lowerPlace hp).none fun _ =>
    displays_then displays_emit fun _ => ?_
  refine displays_then hp.expr.none fun _ => displays_then displays_emit fun _ => ?_
  exact displays_before (displays_emitActing rfl) fun _ => displays_pure

end Lower

end SourceIr
