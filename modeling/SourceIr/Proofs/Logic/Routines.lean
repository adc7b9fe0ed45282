import SourceIr.Lower.Function
import SourceIr.Proofs.Logic.Basic

/-!
# Routines that do not branch

What every logic says about the routines that compute a value or store one: they keep to the rules
if the routines for their parts do, and the value that they return may be read.

* results, names and places;
* types and aggregates;
* calls;
* declarations, assignments, captures and `suspend`;
* expressions that do not branch, and the head of a function.
-/

namespace SourceIr

/-- `@as` takes a type and a value. -/
theorem Builtin.length_of_as {info : Builtin} {n : Nat} (h : Builtin.find? "as" = some info)
    (hn : info.arity.accepts n = true) : n = 2 := by
  have has : Builtin.find? "as" = some ⟨.exactly 2, false⟩ := by decide
  obtain rfl := Option.some.inj (has.symm.trans h)
  simpa [Arity.accepts] using hn

namespace Lower.Logic

variable {env : Env} {L : Logic env} {w : L.Point} {parts : Parts} {node : Node}
  {scope : ScopeId} {location : Option Location} {loc : ResultLoc}

/-! ### Results -/

theorem holds_resultPtr (hs : L.In w scope) (hl : L.Loc w loc) :
    L.Holds w (resultPtr loc scope location) L.Val? := by
  cases loc with
  | existing ptr => exact L.holds_pure (val?_some.2 (loc_existing.1 hl))
  | ret => exact holds_map (holds_emitGen hs rfl nofun) fun _ _ _ hv => val?_some.2 hv
  | alloc => exact holds_map (holds_emitGen hs rfl nofun) fun _ _ _ hv => val?_some.2 hv
  | none => exact L.holds_pure val?_none
  | discard => exact L.holds_pure val?_none

theorem holds_settle (hs : L.In w scope) (hl : L.Loc w loc) :
    L.Holds w (settle loc scope location) L.Loc := by
  cases loc with
  | alloc =>
    refine L.holds_bind (holds_resultPtr hs hl) fun w' ptr _ hp => ?_
    cases ptr with
    | some ptr => exact L.holds_pure (loc_existing.2 (val?_some.1 hp))
    | none => exact L.holds_pure nofun
  | _ => exact L.holds_pure hl

theorem holds_deliver {value : InstId} (hs : L.In w scope) (hv : L.Val w value) (hl : L.Loc w loc) :
    L.Holds w (deliver value loc scope location) L.Val := by
  have store : ∀ (w' : L.Point) (ptr : InstId), L.Le w w' → L.Val w' ptr →
      L.Holds w' (do let _ ← emitGen (.storePtr ptr value) scope location; return value) L.Val := by
    intro w' ptr le hptr
    refine L.holds_bind (holds_emitGen (L.in_mono le hs) rfl ?_) fun w'' _ le' _ => ?_
    · exact vals_cons.2 ⟨hptr, vals_cons.2 ⟨L.val_mono le hv, vals_nil⟩⟩
    · exact L.holds_pure (L.val_mono le' (L.val_mono le hv))
  cases loc with
  | existing ptr => exact store w ptr (L.le_refl w) (loc_existing.1 hl)
  | alloc =>
    refine L.holds_bind (holds_resultPtr hs hl) fun w' ptr le hp => ?_
    cases ptr with
    | some ptr => exact store w' ptr le (val?_some.1 hp)
    | none => exact L.holds_pure (L.val_mono le hv)
  | _ => exact L.holds_pure hv

theorem holds_emitTo {kind : InstKind} (hs : L.In w scope) (hk : L.mayEmit kind false)
    (ho : L.Vals w kind.operands) (hl : L.Loc w loc) :
    L.Holds w (emitTo kind scope location loc) L.Val :=
  L.holds_bind (holds_emit hs hk ho) fun _ _ le hv =>
    holds_deliver (L.in_mono le hs) hv (hl.mono le)

/-- An instruction with one operand. -/
theorem holds_emitTo_one {kind : InstKind} {v : InstId} (hs : L.In w scope)
    (hk : L.mayEmit kind false) (ho : kind.operands = [v]) (hv : L.Val w v) (hl : L.Loc w loc) :
    L.Holds w (emitTo kind scope location loc) L.Val :=
  holds_emitTo hs hk (ho ▸ vals_cons.2 ⟨hv, vals_nil⟩) hl

theorem holds_emitGen_one {kind : InstKind} {v : InstId} (hs : L.In w scope)
    (hk : L.mayEmit kind true) (ho : kind.operands = [v]) (hv : L.Val w v) :
    L.Holds w (emitGen kind scope location) L.Val :=
  holds_emitGen hs hk (ho ▸ vals_cons.2 ⟨hv, vals_nil⟩)

theorem holds_emit_one {kind : InstKind} {v : InstId} (hs : L.In w scope)
    (hk : L.mayEmit kind false) (ho : kind.operands = [v]) (hv : L.Val w v) :
    L.Holds w (emit kind scope location) L.Val :=
  holds_emit hs hk (ho ▸ vals_cons.2 ⟨hv, vals_nil⟩)

/-- An instruction with two operands. -/
theorem vals_pair {u v : InstId} : L.Vals w [u, v] ↔ L.Val w u ∧ L.Val w v := by
  simp [Vals]

/-! ### Names and places -/

theorem holds_lowerSymbol {name : String} {lval : Bool} (hs : L.In w scope) :
    L.Holds w (lowerSymbol node name scope lval) L.Val := by
  rw [lowerSymbol]
  split
  · exact holds_failAt
  split
  · split
    · exact holds_failAt
    · exact holds_emit hs rfl nofun
  refine holds_scopesFrom_bind hs fun _ => holds_read_bind ?_
  split
  · refine holds_get_bind ?_
    split
    next hvar => exact L.holds_throw (by simpa using hvar)
    refine L.holds_bind (L.holds_varPtr hs ‹_›) fun w' ptr le hptr => ?_
    split
    · exact L.holds_pure hptr
    · exact holds_emit_one (L.in_mono le hs) rfl rfl hptr
  · exact holds_emit hs rfl nofun
  · exact holds_failAt

variable (hp : L.HoldsParts parts)

include hp in
theorem holds_lowerPlace (hf : ∀ part ∈ node.kind.used, L.Fit part) (hs : L.In w scope) :
    L.Holds w (lowerPlace parts scope node) L.Val := by
  have field : ∀ (w' : L.Point) (base : InstId) (name : String) (location : Option Location),
      L.Le w w' → L.Val w' base → L.Holds w' (emit (.fieldPtr base name) scope location) L.Val :=
    fun w' base name location le hb => holds_emit_one (L.in_mono le hs) rfl rfl hb
  have element : ∀ (w' : L.Point) (base : InstId) (index : Node) (location : Option Location),
      L.Fit index → L.Le w w' → L.Val w' base →
      L.Holds w' (do
        let index ← parts.value index scope
        emit (.elemPtr base index) scope location) L.Val := by
    intro w' base index location hi le hb
    refine L.holds_bind (hp.value hi (L.in_mono le hs)) fun w'' index le' hi => ?_
    exact holds_emit (L.in_mono (L.le_trans le le') hs) rfl
      (vals_pair.2 ⟨L.val_mono le' hb, hi⟩)
  fun_induction lowerPlace parts scope node with
  | case1 id name location span => exact holds_lowerSymbol hs
  | case2 id container name location span _ hc ih =>
    have hfit : L.Fit container := hf container (by simp [Kind.used])
    exact L.holds_bind (ih (L.fit_used hfit)) fun w' base le hb =>
      field w' base name location le hb
  | case3 id container name location span _ hc =>
    have hfit : L.Fit container := hf container (by simp [Kind.used])
    exact L.holds_bind (hp.value hfit hs) fun w' base le hb =>
      field w' base name location le hb
  | case4 id array index location span _ ha ih =>
    have hfit : L.Fit array := hf array (by simp [Kind.used])
    have hi : L.Fit index := hf index (by simp [Kind.used])
    exact L.holds_bind (ih (L.fit_used hfit)) fun w' base le hb =>
      element w' base index location hi le hb
  | case5 id array index location span _ ha =>
    have hfit : L.Fit array := hf array (by simp [Kind.used])
    have hi : L.Fit index := hf index (by simp [Kind.used])
    exact L.holds_bind (hp.value hfit hs) fun w' base le hb =>
      element w' base index location hi le hb
  | case6 id operand location span => exact hp.value (hf operand (by simp [Kind.used])) hs
  | case7 node => exact holds_failAt

include hp in
theorem holds_lowerLoad (hf : ∀ part ∈ node.kind.used, L.Fit part) (hs : L.In w scope)
    (hl : L.Loc w loc) : L.Holds w (lowerLoad parts node scope loc) L.Val :=
  L.holds_bind (holds_lowerPlace hp hf hs) fun _ _ le hv =>
    holds_emitTo_one (L.in_mono le hs) rfl rfl hv (hl.mono le)

/-! ### Types and aggregates -/

theorem holds_typeName {kind : String} (hs : L.In w scope) :
    L.Keeps w (typeName node scope kind) := by
  refine L.holds_bind holds_takeNameHint fun w' name le _ => ?_
  have hs' := L.in_mono le hs
  cases name with
  | some name => exact holds_scopesFrom_bind hs' fun _ => L.holds_pure trivial
  | none =>
    refine holds_scopesFrom_bind hs' fun hwf => ?_
    dsimp only
    split
    next fn hfn =>
      -- The function is on the way outward, so it is there.
      obtain ⟨x, hx, rfl⟩ := Option.map_eq_some_iff.1 hfn
      exact holds_scopeAt_bind (hwf.scope?_of_mem (List.mem_of_find?_eq_some hx))
        (L.holds_pure trivial)
    next => exact L.holds_pure trivial

include hp in
/-- The types and defaults of the fields of a container may be read. -/
theorem holds_lowerFields {kind : ContainerKind} {seen : Seen} {fields : List Node}
    (hf : ∀ field ∈ fields, ∀ part ∈ (match field.kind with
      | .containerField _ typeExpr defaultValue => typeExpr.toList ++ defaultValue.toList
      | _ => []), L.Fit part)
    (hs : L.In w scope) :
    L.Holds w (lowerFields parts kind scope seen fields) fun w' r =>
      L.Vals w' (r.1.flatMap fun f => f.typeInst.toList ++ f.defaultValue.toList) := by
  induction fields generalizing w seen with
  | nil => exact L.holds_pure nofun
  | cons field rest ih =>
    rw [lowerFields]
    split
    next name typeExpr defaultValue hk =>
      have hfield := hf field (by simp)
      rw [hk] at hfield
      split
      · exact holds_failTaken
      refine L.holds_bind (hp.comptimeValue? (fun p h => hfield p (by simp [h])) hs)
        fun w₁ typeInst le₁ ht => ?_
      refine L.holds_bind (hp.comptimeValue? (fun p h => hfield p (by simp [h]))
        (L.in_mono le₁ hs)) fun w₂ default le₂ hd => ?_
      have hs₂ := L.in_mono le₂ (L.in_mono le₁ hs)
      refine L.holds_bind (ih (fun f h => hf f (by simp [h])) hs₂) fun w₃ r le₃ hr => ?_
      refine L.holds_pure fun v hv => ?_
      simp only [List.flatMap_cons, List.mem_append] at hv
      rcases hv with (hv | hv) | hv
      · exact (ht.mono (L.le_trans le₂ le₃)) v hv
      · exact (hd.mono le₃) v hv
      · exact hr v hv
    next => exact holds_failAt

theorem holds_memberNames {seen : Seen} {decls : List Node} :
    L.Keeps w (memberNames seen decls) := by
  induction decls generalizing w seen with
  | nil => exact L.holds_pure trivial
  | cons decl rest ih =>
    rw [memberNames]
    split
    · exact ih
    split
    · split
      · exact holds_failTaken
      · exact L.holds_bind ih fun _ _ _ _ => L.holds_pure trivial
    · exact L.holds_bind ih fun _ _ _ _ => L.holds_pure trivial

theorem holds_checkOpaque {kind : ContainerKind} {fields : List Node} :
    L.Keeps w (checkOpaque kind fields) := by
  cases fields with
  | nil => exact L.holds_pure trivial
  | cons field rest =>
    rw [checkOpaque]
    split
    · exact holds_failAt
    · exact L.holds_pure trivial

include hp in
theorem holds_lowerContainer {kind : ContainerKind} {fields decls : List Node}
    (hf : ∀ part ∈ (Kind.containerDecl kind fields decls).used, L.Fit part) (hs : L.In w scope)
    (hl : L.Loc w loc) :
    L.Holds w (lowerContainer parts node kind fields decls scope loc) L.Val := by
  refine L.holds_bind (holds_typeName hs) fun w₁ name le₁ _ => ?_
  refine L.holds_bind holds_checkOpaque fun w₂ _ le₂ _ => ?_
  have le : L.Le w w₂ := L.le_trans le₁ le₂
  refine L.holds_bind (holds_lowerFields hp ?_ (L.in_mono le hs)) fun w₃ lowered le₃ hv => ?_
  · exact fun field hfield part hpart => hf part (List.mem_flatMap.2 ⟨field, hfield, hpart⟩)
  refine L.holds_bind holds_memberNames fun w₄ members le₄ _ => ?_
  have le₀₄ : L.Le w w₄ := L.le_trans le (L.le_trans le₃ le₄)
  exact holds_emitTo (L.in_mono le₀₄ hs) rfl (hv.mono le₄) (hl.mono le₀₄)

theorem holds_countMade {m : Node.MemberSymbol} : L.Keeps w (countMade m) := by
  cases m with
  | written => exact L.holds_pure trivial
  | made symbol => exact holds_modify ⟨rfl, rfl, rfl, rfl, rfl, rfl⟩

theorem holds_errorNames {seen : Seen} {members : List Node} :
    L.Keeps w (errorNames seen members) := by
  induction members generalizing w seen with
  | nil => exact L.holds_pure trivial
  | cons member rest ih =>
    rw [errorNames]
    split
    · refine L.holds_bind holds_countMade fun w₁ _ _ _ => ?_
      split
      · exact holds_failTaken
      · exact L.holds_bind ih fun _ _ _ _ => L.holds_pure trivial
    · exact holds_failAt

theorem holds_lowerErrorSet {members : List Node} (hs : L.In w scope) (hl : L.Loc w loc) :
    L.Holds w (lowerErrorSet node members scope loc) L.Val := by
  refine L.holds_bind (holds_typeName hs) fun w₁ name le₁ _ => ?_
  refine L.holds_bind holds_errorNames fun w₂ names le₂ _ => ?_
  have le : L.Le w w₂ := L.le_trans le₁ le₂
  exact holds_emitTo (L.in_mono le hs) rfl nofun (hl.mono le)

theorem holds_fieldLoc {target : Option InstId} {field : FieldInit} (hs : L.In w scope)
    (ht : L.Val? w target) :
    L.Holds w (fieldLoc target field scope) L.Loc := by
  cases target with
  | none => exact L.holds_pure loc_none
  | some ptr =>
    exact L.holds_bind (holds_emitGen_one hs rfl rfl (val?_some.1 ht)) fun _ _ _ hv =>
      L.holds_pure (loc_existing.2 hv)

include hp in
theorem holds_lowerFieldInits {target : Option InstId} {seen : Seen} {fields : List FieldInit}
    (hf : ∀ field ∈ fields, L.Fit field.value) (hs : L.In w scope)
    (hloc : ∀ w' field, L.Le w w' → L.Holds w' (fieldLoc target field scope) L.Loc) :
    L.Holds w (lowerFieldInits parts target scope seen fields) fun w' r =>
      L.Vals w' (r.map (·.2)) := by
  induction fields generalizing w seen with
  | nil => exact L.holds_pure nofun
  | cons field rest ih =>
    rw [lowerFieldInits]
    split
    · exact holds_failTaken
    refine L.holds_bind (hloc w field (L.le_refl w)) fun w₁ fieldLoc le₁ hl => ?_
    refine L.holds_bind (hp _ _ _ _ (hf field (by simp)) (L.in_mono le₁ hs) hl)
      fun w₂ value le₂ hv => ?_
    have le : L.Le w w₂ := L.le_trans le₁ le₂
    refine L.holds_bind (ih (fun f h => hf f (by simp [h])) (L.in_mono le hs)
      fun w' field le' => hloc w' field (L.le_trans le le')) fun w₃ r le₃ hr => ?_
    exact L.holds_pure (vals_cons.2 ⟨L.val_mono le₃ hv, hr⟩)

/-- The operands of an initializer: its type, the values of its parts and its storage. -/
theorem vals_init {typeInst target : Option InstId} {vs : List InstId}
    (ht : L.Val? w typeInst) (hv : L.Vals w vs) (hp : L.Val? w target) :
    L.Vals w (typeInst.toList ++ vs ++ target.toList) := by
  intro v h
  simp only [List.mem_append] at h
  rcases h with (h | h) | h
  · exact ht v h
  · exact hv v h
  · exact hp v h

include hp in
theorem holds_lowerStructInit {typeExpr : Option Node} {fields : List FieldInit}
    (hf : ∀ part ∈ (Kind.structInit typeExpr fields).used, L.Fit part) (hs : L.In w scope)
    (hl : L.Loc w loc) :
    L.Holds w (lowerStructInit parts node typeExpr fields scope loc) L.Val := by
  refine L.holds_bind (hp.comptimeValue? (fun p h => hf p (by simp [Kind.used, h])) hs)
    fun w₁ typeInst le₁ ht => ?_
  refine L.holds_bind (holds_resultPtr (L.in_mono le₁ hs) (hl.mono le₁))
    fun w₂ target le₂ hptr => ?_
  have hfields : ∀ field ∈ fields, L.Fit field.value := fun field h =>
    hf _ (List.mem_append_right _ (List.mem_map_of_mem h))
  have hs₂ := L.in_mono (L.le_trans le₁ le₂) hs
  refine L.holds_bind (holds_lowerFieldInits hp hfields hs₂ fun w' field le' =>
    holds_fieldLoc (L.in_mono le' hs₂) (hptr.mono le')) fun w₃ values le₃ hv => ?_
  exact holds_emit (L.in_mono (L.le_trans le₁ (L.le_trans le₂ le₃)) hs) rfl
    (vals_init (ht.mono (L.le_trans le₂ le₃)) hv (hptr.mono le₃))

theorem holds_elementLoc {target : Option InstId} {index : Nat} {element : Node}
    (hs : L.In w scope) (ht : L.Val? w target) :
    L.Holds w (elementLoc target index element scope) L.Loc := by
  cases target with
  | none => exact L.holds_pure loc_none
  | some ptr =>
    refine L.holds_bind (holds_emitGen hs rfl nofun) fun w₁ index le₁ hi => ?_
    have hptr := L.val_mono le₁ (val?_some.1 ht)
    exact L.holds_bind (holds_emitGen (L.in_mono le₁ hs) rfl (vals_pair.2 ⟨hptr, hi⟩))
      fun _ _ _ hv =>
      L.holds_pure (loc_existing.2 hv)

include hp in
theorem holds_lowerElements {target : Option InstId} {index : Nat} {elements : List Node}
    (hf : ∀ element ∈ elements, L.Fit element) (hs : L.In w scope)
    (hloc : ∀ w' index element, L.Le w w' →
      L.Holds w' (elementLoc target index element scope) L.Loc) :
    L.Holds w (lowerElements parts target scope index elements) L.Vals := by
  induction elements generalizing w index with
  | nil => exact L.holds_pure vals_nil
  | cons element rest ih =>
    rw [lowerElements]
    refine L.holds_bind (hloc w index element (L.le_refl w)) fun w₁ elementLoc le₁ hl => ?_
    refine L.holds_bind (hp _ _ _ _ (hf element (by simp)) (L.in_mono le₁ hs) hl)
      fun w₂ value le₂ hv => ?_
    have le : L.Le w w₂ := L.le_trans le₁ le₂
    refine L.holds_bind (ih (fun e h => hf e (by simp [h])) (L.in_mono le hs)
      fun w' index element le' => hloc w' index element (L.le_trans le le')) fun w₃ r le₃ hr => ?_
    exact L.holds_pure (vals_cons.2 ⟨L.val_mono le₃ hv, hr⟩)

include hp in
theorem holds_lowerArrayInit {typeExpr : Option Node} {elements : List Node}
    (hf : ∀ part ∈ (Kind.arrayInit typeExpr elements).used, L.Fit part) (hs : L.In w scope)
    (hl : L.Loc w loc) :
    L.Holds w (lowerArrayInit parts node typeExpr elements scope loc) L.Val := by
  refine L.holds_bind (hp.comptimeValue? (fun p h => hf p (by simp [Kind.used, h])) hs)
    fun w₁ typeInst le₁ ht => ?_
  refine L.holds_bind (holds_resultPtr (L.in_mono le₁ hs) (hl.mono le₁))
    fun w₂ target le₂ hptr => ?_
  have helements : ∀ element ∈ elements, L.Fit element := fun element h =>
    hf _ (List.mem_append_right _ h)
  have hs₂ := L.in_mono (L.le_trans le₁ le₂) hs
  refine L.holds_bind (holds_lowerElements hp helements hs₂ fun w' index element le' =>
    holds_elementLoc (L.in_mono le' hs₂) (hptr.mono le')) fun w₃ values le₃ hv => ?_
  exact holds_emit (L.in_mono (L.le_trans le₁ (L.le_trans le₂ le₃)) hs) rfl
    (vals_init (ht.mono (L.le_trans le₂ le₃)) hv (hptr.mono le₃))

/-! ### Operators and calls -/

theorem holds_checkModifier {modifier : CallModifier} {forced : Bool} :
    L.Keeps w (checkModifier node modifier forced) := by
  rw [checkModifier]
  split
  · exact holds_failAt
  · exact L.holds_pure trivial

theorem holds_isComptimeAt (hs : L.In w scope) : L.Keeps w (isComptimeAt scope) :=
  holds_scopesFrom_bind hs fun _ => holds_get_bind (L.holds_pure trivial)

include hp in
theorem holds_lowerArgs {args : List Node} (hf : ∀ arg ∈ args, L.Fit arg) (hs : L.In w scope) :
    L.Holds w (lowerArgs parts scope args) L.Vals := by
  induction args generalizing w with
  | nil => exact L.holds_pure vals_nil
  | cons arg rest ih =>
    rw [lowerArgs]
    refine L.holds_bind (hp.value (hf arg (by simp)) hs) fun w₁ value le₁ hv => ?_
    refine L.holds_bind (ih (fun a h => hf a (by simp [h])) (L.in_mono le₁ hs))
      fun w₂ r le₂ hr => ?_
    exact L.holds_pure (vals_cons.2 ⟨L.val_mono le₂ hv, hr⟩)

/-- The callee and the arguments of a call. -/
def callOperands (parts : Parts) (node callee : Node) (args : List Node) (modifier : CallModifier)
    (scope : ScopeId) : LowerM (InstId × List InstId) := do
  let forced := (← scopesFrom scope).isForcedComptime scope
  checkModifier node modifier forced
  let target ← parts.value callee scope
  let atCompileTime := modifier = .compileTime
  let lowerAll : LowerM (List InstId) := do
    let argScope ← if atCompileTime && !forced then openScope scope .comptime else pure scope
    lowerArgs parts argScope args
  let values ←
    if atCompileTime || (← isComptimeAt scope) then
      withFrame node.location s!"call to {calleeName callee}" lowerAll
    else lowerAll
  return (target, values)

/-- A call asks for its result location after its arguments. -/
theorem lowerCall_eq (callee : Node) (args : List Node) (modifier : CallModifier) :
    lowerCall parts node callee args modifier scope loc = (do
      let operands ← callOperands parts node callee args modifier scope
      let ptr ← resultPtr loc scope node.location
      emitWith (.call operands.1 operands.2 modifier ptr) scope node.location
        (modifier = .compileTime) false) := by
  simp only [lowerCall, callOperands, bind_assoc, pure_bind]
  congr 1
  funext scopes
  congr 1
  funext _
  congr 1
  funext target
  congr 1
  funext atComptime
  split <;> simp only [bind_assoc, pure_bind]

include hp in
theorem holds_callOperands {callee : Node} {args : List Node} {modifier : CallModifier}
    (hf : ∀ part ∈ (Kind.call callee args modifier).used, L.Fit part) (hs : L.In w scope) :
    L.Holds w (callOperands parts node callee args modifier scope) fun w' r =>
      L.Vals w' (r.1 :: r.2) := by
  have hargs : ∀ arg ∈ args, L.Fit arg := fun arg h => hf arg (by simp [Kind.used, h])
  refine holds_scopesFrom_bind hs fun _ => ?_
  refine L.holds_bind holds_checkModifier fun w₁ _ le₁ _ => ?_
  refine L.holds_bind (hp.value (hf callee (by simp [Kind.used])) (L.in_mono le₁ hs))
    fun w₂ target le₂ ht => ?_
  have le : L.Le w w₂ := L.le_trans le₁ le₂
  -- The arguments, in a scope of their own or not, as an open evaluation or not.
  have all : ∀ w', L.Le w₂ w' → L.Holds w' (do
      let argScope ← if (modifier = .compileTime && !(L.state w).scopes.isForcedComptime scope)
        then openScope scope .comptime else pure scope
      lowerArgs parts argScope args) L.Vals := by
    intro w' le'
    have hs' := L.in_mono (L.le_trans le le') hs
    split
    · exact L.holds_bind (holds_inner hs' rfl) fun _ _ _ hs => holds_lowerArgs hp hargs hs
    · exact L.holds_bind (L.holds_pure hs') fun _ _ _ hs => holds_lowerArgs hp hargs hs
  refine L.holds_bind (holds_isComptimeAt (L.in_mono le hs)) fun w₃ atComptime le₃ _ => ?_
  split
  · refine L.holds_bind (L.holds_withFrame (fun w' le' => all w' (L.le_trans le₃ le'))
      fun _ _ _ le hv => hv.mono le) fun w₄ values le₄ hv => ?_
    exact L.holds_pure (vals_cons.2 ⟨L.val_mono (L.le_trans le₃ le₄) ht, hv⟩)
  · refine L.holds_bind (all w₃ le₃) fun w₄ values le₄ hv => ?_
    exact L.holds_pure (vals_cons.2 ⟨L.val_mono (L.le_trans le₃ le₄) ht, hv⟩)

include hp in
theorem holds_lowerCall {callee : Node} {args : List Node} {modifier : CallModifier}
    (hmay : L.mayCall = true) (hf : ∀ part ∈ (Kind.call callee args modifier).used, L.Fit part)
    (hs : L.In w scope) (hl : L.Loc w loc) :
    L.Holds w (lowerCall parts node callee args modifier scope loc) L.Val := by
  rw [lowerCall_eq]
  refine L.holds_bind (holds_callOperands hp hf hs) fun w₁ operands le₁ hv => ?_
  refine L.holds_bind (holds_resultPtr (L.in_mono le₁ hs) (hl.mono le₁)) fun w₂ ptr le₂ hptr => ?_
  refine L.holds_emitWith (L.in_mono (L.le_trans le₁ le₂) hs) rfl
    (by simp [hmay, InstKind.isPlain, InstKind.isNoreturn, InstKind.isAlloca]) fun v h => ?_
  rw [InstKind.operands] at h
  rcases List.mem_append.1 h with h | h
  · exact hv.mono le₂ v h
  · exact hptr v h

/-- An argument that is there may be used. -/
theorem holds_argAt_bind {α : Type} {args : List Node} {i : Nat} {f : Node → LowerM α}
    {Q : L.Point → α → Prop} (hi : i < args.length) (h : L.Holds w (f args[i]) Q) :
    L.Holds w (argAt args i >>= f) Q := by
  rw [argAt, List.getElem?_eq_getElem hi]
  simpa using h

include hp in
theorem holds_lowerAs {args : List Node} (hlen : args.length = 2)
    (hf : ∀ arg ∈ args, L.Fit arg) (hs : L.In w scope) (hl : L.Loc w loc) :
    L.Holds w (lowerAs parts node args scope loc) L.Val := by
  have hfit : ∀ (i : Nat) (hi : i < args.length), L.Fit args[i] := fun i hi =>
    hf _ (List.getElem_mem hi)
  refine holds_argAt_bind (by omega) ?_
  refine L.holds_bind (hp.comptimeValue (hfit 0 (by omega)) hs) fun w₁ destType le₁ ht => ?_
  refine holds_argAt_bind (by omega) ?_
  refine L.holds_bind (hp.value (hfit 1 (by omega)) (L.in_mono le₁ hs))
    fun w₂ value le₂ hv => ?_
  have le : L.Le w w₂ := L.le_trans le₁ le₂
  exact holds_emitTo (L.in_mono le hs) rfl (vals_pair.2 ⟨L.val_mono le₂ ht, hv⟩) (hl.mono le)

include hp in
theorem holds_lowerBuiltinCall {name : String} {args : List Node}
    (hf : ∀ arg ∈ args, L.Fit arg) (hs : L.In w scope) (hl : L.Loc w loc) :
    L.Holds w (lowerBuiltinCall parts node name args scope loc) L.Val := by
  unfold lowerBuiltinCall
  dsimp only
  split
  · exact holds_failAt
  next info hinfo =>
    split
    · exact holds_failAt
    next hlen =>
      split
      next hname =>
        rw [hname] at hinfo
        exact holds_lowerAs hp (Builtin.length_of_as hinfo (by simpa using hlen)) hf hs hl
      next =>
        exact L.holds_bind (holds_lowerArgs hp hf hs) fun _ _ le hv =>
          holds_emitTo (L.in_mono le hs) rfl hv (hl.mono le)

include hp in
theorem holds_lowerUnary {op : UnaryOperator} {operand : Node} (hf : L.Fit operand)
    (hs : L.In w scope) (hl : L.Loc w loc) :
    L.Holds w (lowerUnary parts node op operand scope loc) L.Val := by
  have one : ∀ kind : InstId → InstKind,
      (∀ v, L.mayEmit (kind v) false ∧ (kind v).operands = [v]) → L.Holds w (do
        let value ← parts.value operand scope
        emitTo (kind value) scope node.location loc) L.Val := fun kind hk =>
    L.holds_bind (hp.value hf hs) fun _ value le hv =>
      holds_emitTo_one (L.in_mono le hs) (hk value).1 (hk value).2 hv (hl.mono le)
  cases op with
  | addressOf =>
    rw [lowerUnary]
    split
    · exact L.holds_bind (holds_lowerPlace hp (L.fit_used hf) hs) fun _ _ le hv =>
        holds_deliver (L.in_mono le hs) hv (hl.mono le)
    · exact one .ref fun _ => ⟨rfl, rfl⟩
  | deref => exact one .loadPtr fun _ => ⟨rfl, rfl⟩
  | optionalUnwrap => exact one (.optionalUnwrap · true) fun _ => ⟨rfl, rfl⟩
  | negate => exact one (.unOp .negate) fun _ => ⟨rfl, rfl⟩
  | boolNot => exact one (.unOp .boolNot) fun _ => ⟨rfl, rfl⟩
  | bitNot => exact one (.unOp .bitNot) fun _ => ⟨rfl, rfl⟩

include hp in
/-- An operator that evaluates both operands. -/
theorem holds_lowerBinary {op : BinaryOperator} {lhs rhs : Node} (hop : op.isLogical = false)
    (hlhs : L.Fit lhs) (hrhs : L.Fit rhs) (hs : L.In w scope) (hl : L.Loc w loc) :
    L.Holds w (lowerBinary parts node op lhs rhs scope loc) L.Val := by
  have both : L.Holds w (do
      let left ← parts.value lhs scope
      let right ← parts.value rhs scope
      emitTo (.binOp op left right) scope node.location loc) L.Val := by
    refine L.holds_bind (hp.value hlhs hs) fun w₁ left le₁ hv => ?_
    refine L.holds_bind (hp.value hrhs (L.in_mono le₁ hs)) fun w₂ right le₂ hv' => ?_
    have le : L.Le w w₂ := L.le_trans le₁ le₂
    exact holds_emitTo (L.in_mono le hs) rfl (vals_pair.2 ⟨L.val_mono le₂ hv, hv'⟩) (hl.mono le)
  cases op <;> first | exact both | cases hop

theorem holds_lowerAsm {template : String} {isVolatile : Bool} (hs : L.In w scope)
    (hl : L.Loc w loc) : L.Holds w (lowerAsm node template isVolatile scope loc) L.Val := by
  refine holds_scopesFrom_bind hs fun _ => ?_
  split
  · exact holds_failAt
  · exact holds_emitTo hs rfl nofun hl

/-! ### Statements and captures -/

include hp in
theorem holds_lowerLocalVar {name : String} {isConst isComptime : Bool}
    {typeExpr init : Option Node} (hmay : L.mayStore = true)
    (hf : ∀ part ∈ (Kind.varDecl name isConst isComptime typeExpr init).used, L.Fit part)
    (ho : L.Own w scope) :
    L.Keeps w (lowerLocalVar parts node name isConst isComptime typeExpr init scope) := by
  have hs := L.own_in ho
  refine holds_scopesFrom_bind hs fun _ => ?_
  refine L.holds_bind (L.holds_orDeclareFailed hs
    (hp.comptimeValue? (fun p h => hf p (by simp [Kind.used, h])) hs)) fun w₁ typeInst le₁ ht => ?_
  cases init with
  | none => exact L.holds_orDeclareFailed (L.in_mono le₁ hs) holds_failAt
  | some init =>
    have hfit : L.Fit init := hf init (by simp [Kind.used])
    have hstore : L.mayEmit (.alloca (some name) typeInst
        (isComptime || (L.state w).scopes.isForcedComptime scope)) false = true := by
      rw [mayEmit, hmay]
      rfl
    refine L.holds_bind (holds_emit (L.in_mono le₁ hs) hstore ht) fun w₂ ptr le₂ hptr => ?_
    refine L.holds_bind holds_setNameHint fun w₃ _ le₃ _ => ?_
    have le : L.Le w w₃ := L.le_trans le₁ (L.le_trans le₂ le₃)
    -- The scope of the initializer is that of the statement, or one inside it.
    have rest : ∀ w' initScope, L.Le w₃ w' → L.In w' initScope → L.Keeps w' (do
        let value ← orDeclareFailed (parts.expr init initScope (.existing ptr)) node name scope
        let status : ComptimeStatus :=
          if (isComptime || (L.state w).scopes.isForcedComptime scope) then .known true
          else .pending value
        let var ← declare scope (((BindingRequest.named name node.location).constness isConst
          (isConst || (isComptime || (L.state w).scopes.isForcedComptime scope))).withComptime
          status)
        let _ ← emit (.declVar var ptr) scope node.location) := by
      intro w' initScope le' hs'
      have hptr' := L.val_mono (L.le_trans le₃ le') hptr
      refine L.holds_bind (L.holds_orDeclareFailed (L.in_mono (L.le_trans le le') hs)
        (hp _ _ _ _ hfit hs' (loc_existing.2 hptr'))) fun w₄ value le₄ hv => ?_
      have le₀₄ : L.Le w w₄ := L.le_trans le (L.le_trans le' le₄)
      refine holds_declareVar_bind (L.own_mono le₀₄ ho) rfl (fun v hpending => ?_)
        (L.val_mono le₄ hptr') fun _ _ _ => L.holds_pure trivial
      -- Only a variable of which nothing is known yet waits for its initializer.
      simp only [BindingRequest.withComptime] at hpending
      split at hpending
      · cases hpending
      · cases hpending
        exact hv
    dsimp only
    by_cases hc : (isComptime && !(L.state w).scopes.isForcedComptime scope) = true
    · rw [if_pos hc]
      exact L.holds_bind (holds_inner (L.in_mono le hs) rfl) fun w' s' le' hs' =>
        rest w' s' le' hs'
    · rw [if_neg hc]
      exact L.holds_bind (L.holds_pure (L.in_mono le hs)) fun w' s' le' hs' => rest w' s' le' hs'

include hp in
theorem holds_lowerAssign {target value : Node} (ht : L.Fit target) (hv : L.Fit value)
    (hs : L.In w scope) : L.Keeps w (lowerAssign parts target value scope) := by
  rw [lowerAssign]
  split
  · rw [if_pos rfl]
    exact L.holds_bind (hp _ _ _ _ hv hs loc_discard) fun _ _ _ _ => L.holds_pure trivial
  rw [if_neg Bool.false_ne_true]
  split
  · exact holds_failAt
  · refine L.holds_bind (holds_lowerPlace hp (L.fit_used ht) hs) fun w₁ ptr le₁ hptr => ?_
    exact L.holds_bind (hp _ _ _ _ hv (L.in_mono le₁ hs) (loc_existing.2 hptr))
      fun _ _ _ _ => L.holds_pure trivial

include hp in
theorem holds_lowerAssignOp {op : BinaryOperator} {target value : Node} (ht : L.Fit target)
    (hv : L.Fit value) (hs : L.In w scope) :
    L.Keeps w (lowerAssignOp parts node op target value scope) := by
  rw [lowerAssignOp]
  split
  · exact holds_failAt
  refine L.holds_bind (holds_lowerPlace hp (L.fit_used ht) hs) fun w₁ ptr le₁ hptr => ?_
  refine L.holds_bind (holds_emit_one (L.in_mono le₁ hs) rfl rfl hptr)
    fun w₂ current le₂ hcur => ?_
  have hs₂ := L.in_mono (L.le_trans le₁ le₂) hs
  refine L.holds_bind (hp.value hv hs₂) fun w₃ operand le₃ ho => ?_
  refine L.holds_bind (holds_emit (L.in_mono le₃ hs₂) rfl
    (vals_pair.2 ⟨L.val_mono le₃ hcur, ho⟩)) fun w₄ combined le₄ hc => ?_
  have hptr₄ := L.val_mono (L.le_trans le₂ (L.le_trans le₃ le₄)) hptr
  exact L.holds_bind (holds_emit (L.in_mono (L.le_trans le₃ le₄) hs₂) rfl (vals_pair.2 ⟨hptr₄, hc⟩))
    fun _ _ _ _ =>
    L.holds_pure trivial

theorem holds_bindPayload {name : String} {value : InstId} (hv : L.Val w value)
    (hs : L.In w scope) : L.Holds w (bindPayload scope name value node) L.Own := by
  refine L.holds_bind (L.holds_openScope hs rfl) fun w₁ inner le₁ ho => ?_
  have hs₁ := L.own_in ho
  split
  · exact L.holds_pure ho
  refine L.holds_bind (holds_emitGen hs₁ rfl nofun) fun w₂ ptr le₂ hptr => ?_
  have hv₂ := L.val_mono (L.le_trans le₁ le₂) hv
  refine L.holds_bind (holds_emitGen (L.in_mono le₂ hs₁) rfl (vals_pair.2 ⟨hptr, hv₂⟩))
    fun w₃ _ le₃ _ => ?_
  have ho := L.own_mono (L.le_trans le₂ le₃) ho
  refine holds_declareVar_bind ho rfl (fun v hpending => ?_) (L.val_mono le₃ hptr)
    fun w₄ _ le₄ => L.holds_pure (L.own_mono le₄ ho)
  cases hpending
  exact L.val_mono (L.le_trans le₂ le₃) (L.val_mono le₁ hv)

theorem holds_emitTest {payload : Option String} {cond : InstId} (hs : L.In w scope)
    (hv : L.Val w cond) : L.Holds w (emitTest node payload cond scope) L.Val := by
  cases payload with
  | some name => exact holds_emitGen_one hs rfl rfl hv
  | none => exact L.holds_pure hv

theorem holds_enterBranch {payload : Option String} {cond : InstId} (hv : L.Val w cond)
    (hs : L.In w scope) : L.Holds w (enterBranch node payload cond scope) L.In := by
  cases payload with
  | some name =>
    refine L.holds_bind (holds_emitGen_one hs rfl rfl hv) fun _ _ le hv => ?_
    rw [← bind_pure (bindPayload _ _ _ _)]
    exact L.holds_bind (holds_bindPayload hv (L.in_mono le hs)) fun _ _ _ ho =>
      L.holds_pure (L.own_in ho)
  | none => exact L.holds_pure hs

theorem holds_stepIndex {ptr : InstId} (hs : L.In w scope) (hptr : L.Val w ptr) :
    L.Keeps w (stepIndex ptr node scope) := by
  refine L.holds_bind (holds_emitGen_one hs rfl rfl hptr) fun w₁ current le₁ hc => ?_
  have hs₁ := L.in_mono le₁ hs
  refine L.holds_bind (holds_emitGen hs₁ rfl nofun) fun w₂ one le₂ ho => ?_
  refine L.holds_bind (holds_emitGen (L.in_mono le₂ hs₁) rfl
    (vals_pair.2 ⟨L.val_mono le₂ hc, ho⟩)) fun w₃ next le₃ hn => ?_
  have hptr₃ := L.val_mono (L.le_trans le₁ (L.le_trans le₂ le₃)) hptr
  exact L.holds_bind (holds_emitGen (L.in_mono (L.le_trans le₂ le₃) hs₁) rfl
    (vals_pair.2 ⟨hptr₃, hn⟩)) fun _ _ _ _ =>
    L.holds_pure trivial

theorem holds_checkSuspend (hs : L.In w scope) : L.Keeps w (checkSuspend node scope) := by
  refine holds_scopesFrom_bind hs fun _ => ?_
  split
  · exact holds_failAt
  split
  · exact holds_failAt
  refine L.holds_bind (holds_isComptimeAt hs) fun w₁ _ _ _ => ?_
  split
  · exact holds_failAt
  · exact L.holds_pure trivial

include hp in
theorem holds_lowerSuspend {body : Option Node} (hf : ∀ part ∈ body.toList, L.Fit part)
    (hs : L.In w scope) : L.Holds w (lowerSuspend parts node body scope) L.Val := by
  refine L.holds_bind (holds_checkSuspend hs) fun w₁ _ le₁ _ => ?_
  refine L.holds_bind (holds_emit (L.in_mono le₁ hs) rfl nofun) fun w₂ start le₂ hstart => ?_
  have hs₂ := L.in_mono (L.le_trans le₁ le₂) hs
  cases body with
  | none => exact holds_emit_one hs₂ rfl rfl hstart
  | some body =>
    refine L.holds_bind (holds_inner hs₂ rfl) fun w₃ inner le₃ hs₃ => ?_
    refine L.holds_bind (hp _ _ _ _ (hf body (by simp)) hs₃ loc_discard) fun w₄ _ le₄ _ => ?_
    exact holds_emit_one (L.in_mono (L.le_trans le₃ le₄) hs₂) rfl rfl
      (L.val_mono (L.le_trans le₃ le₄) hstart)

/-! ### Expressions -/

include hp in
theorem holds_lowerExpr (hk : node.kind.branches = false)
    (hmay : node.kind.isCall = true → L.mayCall = true)
    (hf : ∀ part ∈ node.kind.used, L.Fit part) (hs : L.In w scope) (hl : L.Loc w loc) :
    L.Holds w (lowerExpr parts node scope loc) L.Val := by
  have hload : L.Holds w (lowerLoad parts node scope loc) L.Val := holds_lowerLoad hp hf hs hl
  rw [lowerExpr]
  cases h : node.kind <;> rw [h] at hk hf hmay
  case block | comptime | ifThen | whileLoop | forLoop | breakTo | continueTo | returnFrom |
      unreachable | tryExpr | catchExpr => cases hk
  case varDecl | deferred | root | fnDecl | param | testDecl | containerField =>
    exact holds_failAt
  case fieldAccess | arrayAccess => exact hload
  case intLiteral | floatLiteral | stringLiteral | boolLiteral | nullLiteral | undefinedLiteral |
      errorValue => exact holds_emitTo hs rfl nofun hl
  case symbol name =>
    exact L.holds_bind (holds_lowerSymbol hs) fun _ _ le hv =>
      holds_deliver (L.in_mono le hs) hv (hl.mono le)
  case unaryOp op operand => exact holds_lowerUnary hp (hf operand (by simp [Kind.used])) hs hl
  case binaryOp op lhs rhs =>
    have hused : (Kind.binaryOp op lhs rhs).used = [lhs, rhs] := by
      simp only [Kind.branches] at hk
      simp [Kind.used, hk]
    rw [hused] at hf
    exact holds_lowerBinary hp hk (hf lhs (by simp)) (hf rhs (by simp)) hs hl
  case call callee args modifier => exact holds_lowerCall hp (hmay rfl) hf hs hl
  case builtinCall name args => exact holds_lowerBuiltinCall hp hf hs hl
  case containerDecl kind fields decls => exact holds_lowerContainer hp hf hs hl
  case errorSetDecl members => exact holds_lowerErrorSet hs hl
  case structInit typeExpr fields => exact holds_lowerStructInit hp hf hs hl
  case arrayInit typeExpr elements => exact holds_lowerArrayInit hp hf hs hl
  case assign target value =>
    refine L.holds_bind (holds_lowerAssign hp (hf target (by simp [Kind.used]))
      (hf value (by simp [Kind.used])) hs) ?_
    exact fun _ _ le _ => holds_emitVoid (L.in_mono le hs)
  case assignOp op target value =>
    refine L.holds_bind (holds_lowerAssignOp hp (hf target (by simp [Kind.used]))
      (hf value (by simp [Kind.used])) hs) ?_
    exact fun _ _ le _ => holds_emitVoid (L.in_mono le hs)
  case suspend body => exact holds_lowerSuspend hp hf hs
  case asm template isVolatile => exact holds_lowerAsm hs hl

/-! ### The head of a function -/

include hp in
theorem holds_lowerSignatureType {type : Option Node} (hf : ∀ part ∈ type.toList, L.Fit part)
    (hs : L.In w scope) : L.Keeps w (lowerSignatureType parts type scope) :=
  L.holds_bind (hp.comptimeValue? hf hs) fun _ _ _ _ => L.holds_pure trivial

theorem holds_declareParam {name : Option String} {isComptime : Bool} {index : Nat}
    (ho : L.Own w scope) : L.Keeps w (declareParam node name isComptime index scope) := by
  unfold declareParam
  split
  · exact L.holds_pure trivial
  · exact L.holds_pure trivial
  · refine L.holds_bind (holds_emitGen (L.own_in ho) rfl nofun) fun w₁ ptr le₁ hptr => ?_
    exact holds_declareVar_bind (L.own_mono le₁ ho) rfl nofun hptr fun _ _ _ => L.holds_pure trivial

include hp in
theorem holds_lowerParams {index : Nat} {params : List Node}
    (hf : ∀ param ∈ params, ∀ part ∈ param.kind.used, L.Fit part) (ho : L.Own w scope) :
    L.Keeps w (lowerParams parts scope index params) := by
  induction params generalizing w index with
  | nil => exact L.holds_pure trivial
  | cons param rest ih =>
    have hrest : ∀ w', L.Le w w' → L.Keeps w' (lowerParams parts scope (index + 1) rest) :=
      fun w' le => ih (fun p h => hf p (by simp [h])) (L.own_mono le ho)
    rw [lowerParams]
    split
    next name typeExpr isComptime hk =>
      have hparam := hf param (by simp)
      rw [hk] at hparam
      refine L.holds_bind (holds_lowerSignatureType hp hparam (L.own_in ho)) fun w₁ _ le₁ _ => ?_
      exact L.holds_bind (holds_declareParam (L.own_mono le₁ ho)) fun w₂ _ le₂ _ =>
        hrest w₂ (L.le_trans le₁ le₂)
    next => exact hrest w (L.le_refl w)

end Lower.Logic

end SourceIr
