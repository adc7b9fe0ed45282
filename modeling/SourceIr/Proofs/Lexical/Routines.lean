import SourceIr.Lower.Function
import SourceIr.Proofs.Lexical.Context

/-!
# Routines that bind nothing

The routines that compute values, store them and look at names keep to every discipline, if the
routines for their parts do.

* results, names and places;
* types and aggregates;
* calls;
* assignments, operators and constants.
-/

namespace SourceIr.Lower

open Mode

variable {env : Env} {d : Discipline env} {k : Ctx d} {parts : Parts} {node : Node}
  {scope : ScopeId} {location : Option Location} {loc : ResultLoc} {α : Type}
  (hp : KeepsParts d parts) (hc : k.In scope)

/-! ### Results -/

include hc in
theorem keeps_emitVoid : k.Keeps (emitVoid scope location) := keeps_emit hc fun _ => trivial

include hc in
theorem keeps_resultPtr : k.Keeps (resultPtr loc scope location) := by
  cases loc
  case ret | alloc => exact keeps_map (keeps_emit hc fun _ => trivial)
  all_goals exact keeps_pure

include hc in
theorem keeps_settle : k.Keeps (settle loc scope location) := by
  cases loc
  case alloc =>
    refine runs_then (keeps_resultPtr hc) fun ptr => ?_
    cases ptr <;> exact keeps_pure
  all_goals exact keeps_pure

include hc in
theorem keeps_deliver {value : InstId} : k.Keeps (deliver value loc scope location) := by
  have store (ptr : InstId) : k.Keeps (do
      let _ ← emitGen (.storePtr ptr value) scope location
      return value) :=
    runs_then (keeps_emit hc fun _ => trivial) fun _ => keeps_pure
  cases loc
  case existing ptr => exact store ptr
  case alloc =>
    refine runs_then (keeps_resultPtr hc) fun ptr => ?_
    cases ptr with
    | some ptr => exact store ptr
    | none => exact keeps_pure
  all_goals exact keeps_pure

include hc in
theorem keeps_emitTo {kind : InstKind} (hf : ∀ s, Fits env s scope kind) :
    k.Keeps (emitTo kind scope location loc) :=
  runs_then (keeps_emit hc hf) fun _ => keeps_deliver hc

/-! ### Names and places -/

include hc in
theorem keeps_lowerSymbol {name : String} {lval : Bool} :
    k.Keeps (lowerSymbol node name scope lval) := by
  unfold lowerSymbol
  refine runs_ite runs_failAt (runs_ite (runs_ite runs_failAt ?_) ?_)
  · exact keeps_emit hc fun _ => trivial
  refine runs_scopesFrom_bind fun s hi hk => ?_
  rw [outcome_bind, outcome_read]
  dsimp only
  split
  next var hvar =>
    change d.Ends k.still.Le s _ (outcome (if s.failedVars.contains var then throw .poisoned else do
      let ptr ← emit (.varPtr var) scope node.location
      if lval then return ptr else emit (.loadPtr ptr) scope node.location) env s)
    split
    · exact runs_poisoned s hi hk
    · exact ends_then hi hk (ends_emitWith hi hk (hc s hi hk) ⟨name, hvar⟩) fun ptr =>
        runs_ite keeps_pure (keeps_emit hc fun _ => trivial)
  · refine keeps_emit hc ?_ s hi hk
    exact fun _ => trivial
  · exact runs_failAt s hi hk

include hp hc in
theorem keeps_lowerPlace : k.Keeps (lowerPlace parts scope node) := by
  induction node using lowerPlace.induct parts scope with
  | case1 id name location span => exact keeps_lowerSymbol hc
  | case2 id container field location span h ih =>
    rw [lowerPlace, if_pos h]
    exact runs_then ih fun _ => keeps_emit hc fun _ => trivial
  | case3 id container field location span h =>
    rw [lowerPlace, if_neg h]
    exact runs_then (hp.value hc) fun _ => keeps_emit hc fun _ => trivial
  | case4 id array index location span h ih =>
    rw [lowerPlace, if_pos h]
    exact runs_then ih fun _ => runs_then (hp.value hc) fun _ => keeps_emit hc fun _ => trivial
  | case5 id array index location span h =>
    rw [lowerPlace, if_neg h]
    exact runs_then (hp.value hc) fun _ => runs_then (hp.value hc) fun _ =>
      keeps_emit hc fun _ => trivial
  | case6 id operand location span => exact hp.value hc
  | case7 node h₁ h₂ h₃ h₄ =>
    rw [lowerPlace.eq_5 _ _ _ h₁ h₂ h₃ h₄]
    exact runs_failAt

include hp hc in
theorem keeps_lowerLoad : k.Keeps (lowerLoad parts node scope loc) :=
  runs_then (keeps_lowerPlace hp hc) fun _ => keeps_emitTo hc fun _ => trivial

/-! ### Types and aggregates -/

theorem keeps_typeName {kind : String} : k.Keeps (typeName node scope kind) := by
  refine runs_then keeps_takeNameHint fun name => ?_
  cases name with
  | some name => exact runs_scopesFrom_then fun _ => keeps_pure
  | none =>
    refine runs_scopesFrom_then fun t => ?_
    dsimp only
    split
    · exact runs_scopeAt_bind fun s _ hi hk _ => keeps_pure s hi hk
    · exact keeps_pure

include hp hc in
theorem keeps_lowerFields {kind : ContainerKind} {seen : Seen} {fields : List Node} :
    k.Keeps (lowerFields parts kind scope seen fields) := by
  induction fields generalizing seen with
  | nil => exact keeps_pure
  | cons field rest ih =>
    rw [lowerFields]
    split
    · split
      · exact runs_fail
      · exact runs_then (hp.comptimeValue? hc) fun _ => runs_then (hp.comptimeValue? hc) fun _ =>
          runs_then ih fun _ => keeps_pure
    · exact runs_failAt

theorem keeps_memberNames {seen : Seen} {decls : List Node} :
    k.Keeps (memberNames seen decls) := by
  induction decls generalizing seen with
  | nil => exact keeps_pure
  | cons decl rest ih =>
    rw [memberNames]
    split
    · exact ih
    · refine runs_ite ?_ (runs_then ih fun _ => keeps_pure)
      split
      · exact runs_fail
      · exact runs_then ih fun _ => keeps_pure

theorem keeps_checkOpaque {kind : ContainerKind} {fields : List Node} :
    k.Keeps (checkOpaque kind fields) := by
  unfold checkOpaque
  split
  · exact keeps_pure
  · exact runs_ite runs_failAt keeps_pure

include hp hc in
theorem keeps_lowerContainer {kind : ContainerKind} {fields decls : List Node} :
    k.Keeps (lowerContainer parts node kind fields decls scope loc) :=
  runs_then keeps_typeName fun _ => runs_then keeps_checkOpaque fun _ =>
    runs_then (keeps_lowerFields hp hc) fun _ => runs_then keeps_memberNames fun _ =>
      keeps_emitTo hc fun _ => trivial

theorem keeps_errorNames {seen : Seen} {members : List Node} :
    k.Keeps (errorNames seen members) := by
  induction members generalizing seen with
  | nil => exact keeps_pure
  | cons member rest ih =>
    rw [errorNames]
    split
    · refine runs_then keeps_countMade fun _ => ?_
      split
      · exact runs_fail
      · exact runs_then ih fun _ => keeps_pure
    · exact runs_failAt

include hc in
theorem keeps_lowerErrorSet {members : List Node} :
    k.Keeps (lowerErrorSet node members scope loc) :=
  runs_then keeps_typeName fun _ => runs_then keeps_errorNames fun _ =>
    keeps_emitTo hc fun _ => trivial

include hc in
theorem keeps_fieldLoc {target : Option InstId} {field : FieldInit} :
    k.Keeps (fieldLoc target field scope) := by
  cases target with
  | some ptr => exact runs_then (keeps_emit hc fun _ => trivial) fun _ => keeps_pure
  | none => exact keeps_pure

include hp hc in
theorem keeps_lowerFieldInits {target : Option InstId} {seen : Seen} {fields : List FieldInit} :
    k.Keeps (lowerFieldInits parts target scope seen fields) := by
  induction fields generalizing seen with
  | nil => exact keeps_pure
  | cons field rest ih =>
    rw [lowerFieldInits]
    split
    · exact runs_fail
    · exact runs_then (keeps_fieldLoc hc) fun _ => runs_then (hp.keeps hc) fun _ =>
        runs_then ih fun _ => keeps_pure

include hp hc in
theorem keeps_lowerStructInit {typeExpr : Option Node} {fields : List FieldInit} :
    k.Keeps (lowerStructInit parts node typeExpr fields scope loc) :=
  runs_then (hp.comptimeValue? hc) fun _ => runs_then (keeps_resultPtr hc) fun _ =>
    runs_then (keeps_lowerFieldInits hp hc) fun _ => keeps_emit hc fun _ => trivial

include hc in
theorem keeps_elementLoc {target : Option InstId} {index : Nat} {element : Node} :
    k.Keeps (elementLoc target index element scope) := by
  cases target with
  | some ptr =>
    exact runs_then (keeps_emit hc fun _ => trivial) fun _ =>
      runs_then (keeps_emit hc fun _ => trivial) fun _ => keeps_pure
  | none => exact keeps_pure

include hp hc in
theorem keeps_lowerElements {target : Option InstId} {index : Nat} {elements : List Node} :
    k.Keeps (lowerElements parts target scope index elements) := by
  induction elements generalizing index with
  | nil => exact keeps_pure
  | cons element rest ih =>
    rw [lowerElements]
    exact runs_then (keeps_elementLoc hc) fun _ => runs_then (hp.keeps hc) fun _ =>
      runs_then ih fun _ => keeps_pure

include hp hc in
theorem keeps_lowerArrayInit {typeExpr : Option Node} {elements : List Node} :
    k.Keeps (lowerArrayInit parts node typeExpr elements scope loc) :=
  runs_then (hp.comptimeValue? hc) fun _ => runs_then (keeps_resultPtr hc) fun _ =>
    runs_then (keeps_lowerElements hp hc) fun _ => keeps_emit hc fun _ => trivial

/-! ### Calls -/

include hp hc in
theorem keeps_lowerArgs {args : List Node} : k.Keeps (lowerArgs parts scope args) := by
  induction args with
  | nil => exact keeps_pure
  | cons arg rest ih => exact runs_then (hp.value hc) fun _ => runs_then ih fun _ => keeps_pure

/-- The modifier of a call that is lowered can be honoured in its scope. -/
theorem runs_checkModifier_bind {modifier : CallModifier} {forced : Bool} {f : PUnit → LowerM α}
    {Q : State → α → Prop}
    (h : (forced = true → modifier.runTimeOnly? = none) → k.still.Runs (f ⟨⟩) Q) :
    k.still.Runs (checkModifier node modifier forced >>= f) Q := by
  refine runs_bind (R := fun _ _ => forced = true → modifier.runTimeOnly? = none) ?_
    fun s _ hi hk hm => h hm s hi hk
  unfold checkModifier
  split
  · exact runs_failAt
  next hm =>
    refine runs_pure fun _ _ _ hf => ?_
    rwa [if_pos hf] at hm

/-- Whether a scope is evaluated at compile time does not change. -/
theorem lasting_forced (scope : ScopeId) (forced : Bool) :
    d.Lasting fun s => d.At s scope ∧ s.scopes.isForcedComptime scope = forced :=
  lasting_chain fun _ l => l.any (·.kind == .comptime) = forced

/-- Whether a scope is evaluated at compile time is asked once. -/
theorem runs_forced_bind {f : ScopeTree → LowerM α} {Q : State → α → Prop} (hc : k.In scope)
    (h : ∀ t, (k.and _ (lasting_forced scope (t.isForcedComptime scope))).still.Runs (f t) Q) :
    k.still.Runs (scopesFrom scope >>= f) Q :=
  runs_scopesFrom_bind fun s hi hk => h s.scopes s hi ⟨hk, hc s hi hk, rfl⟩

include hp hc in
theorem keeps_lowerCall {callee : Node} {args : List Node} {modifier : CallModifier} :
    k.Keeps (lowerCall parts node callee args modifier scope loc) := by
  refine runs_forced_bind hc fun t => ?_
  replace hc : (k.and _ (lasting_forced scope (t.isForcedComptime scope))).In scope := hc.and
  refine runs_checkModifier_bind fun hm => runs_then (hp.value hc) fun target => ?_
  have call (values : List InstId) : (k.and _ (lasting_forced scope _)).Keeps (do
      let ptr ← resultPtr loc scope node.location
      emitWith (.call target values modifier ptr) scope node.location (modifier = .compileTime)
        false) :=
    runs_then (keeps_resultPtr hc) fun ptr => keeps_emitWith hc fun s _ hk hf =>
      hm (hk.2.2.symm.trans hf)
  have all : (k.and _ (lasting_forced scope _)).Keeps (do
      let argScope ← if modifier = .compileTime && !t.isForcedComptime scope
        then openScope scope .comptime else pure scope
      lowerArgs parts argScope args) :=
    runs_ite (runs_open hc rfl fun _ => keeps_lowerArgs hp Ctx.in_plus) (keeps_lowerArgs hp hc)
  refine runs_then keeps_isComptimeAt fun atComptime => runs_ite ?_ ?_
  · exact runs_then (keeps_withFrame all) call
  · exact runs_then all call

theorem runs_argAt_bind {args : List Node} {i : Nat} {f : Node → LowerM α}
    {Q : State → α → Prop} (h : ∀ arg, k.still.Runs (f arg) Q) :
    k.still.Runs (argAt args i >>= f) Q := by
  refine runs_then ?_ h
  unfold argAt
  split
  · exact keeps_pure
  · exact runs_fault nofun

include hp hc in
theorem keeps_lowerAs {args : List Node} : k.Keeps (lowerAs parts node args scope loc) :=
  runs_argAt_bind fun _ => runs_then (hp.comptimeValue hc) fun _ => runs_argAt_bind fun _ =>
    runs_then (hp.value hc) fun _ => keeps_emitTo hc fun _ => trivial

include hp hc in
theorem keeps_lowerBuiltinCall {name : String} {args : List Node} :
    k.Keeps (lowerBuiltinCall parts node name args scope loc) := by
  unfold lowerBuiltinCall
  dsimp only
  split
  · exact runs_failAt
  refine runs_ite runs_failAt ?_
  split
  · exact keeps_lowerAs hp hc
  · exact runs_then (keeps_lowerArgs hp hc) fun _ => keeps_emitTo hc fun _ => trivial

/-! ### Assignments, operators and constants -/

include hp hc in
theorem keeps_lowerAssign {target value : Node} :
    k.Keeps (lowerAssign parts target value scope) := by
  unfold lowerAssign
  refine runs_ite ?_ (runs_ite runs_failAt ?_)
  · exact runs_then (hp.keeps hc) fun _ => keeps_pure
  · exact runs_then (keeps_lowerPlace hp hc) fun _ => runs_then (hp.keeps hc) fun _ => keeps_pure

include hp hc in
theorem keeps_lowerAssignOp {op : BinaryOperator} {target value : Node} :
    k.Keeps (lowerAssignOp parts node op target value scope) := by
  unfold lowerAssignOp
  refine runs_ite runs_failAt ?_
  exact runs_then (keeps_lowerPlace hp hc) fun _ => runs_then (keeps_emit hc fun _ => trivial)
    fun _ => runs_then (hp.value hc) fun _ => runs_then (keeps_emit hc fun _ => trivial) fun _ =>
      runs_then (keeps_emit hc fun _ => trivial) fun _ => keeps_pure

include hp hc in
theorem keeps_lowerUnary {op : UnaryOperator} {operand : Node} :
    k.Keeps (lowerUnary parts node op operand scope loc) := by
  cases op
  case addressOf =>
    refine runs_ite (runs_then (keeps_lowerPlace hp hc) fun _ => keeps_deliver hc) ?_
    exact runs_then (hp.value hc) fun _ => keeps_emitTo hc fun _ => trivial
  all_goals exact runs_then (hp.value hc) fun _ => keeps_emitTo hc fun _ => trivial

include hc in
/-- Inline assembly is lowered only where it need not be evaluated at compile time. -/
theorem keeps_lowerAsm {template : String} {isVolatile : Bool} :
    k.Keeps (lowerAsm node template isVolatile scope loc) := by
  refine runs_forced_bind hc fun t => ?_
  cases hf : t.isForcedComptime scope with
  | true => exact runs_failAt
  | false =>
    exact runs_then (keeps_emitWith hc.and fun s _ hk => hk.2.2) fun _ => keeps_deliver hc.and

end SourceIr.Lower
