import SourceIr.Proofs.Inspection.Basic

/-!
# Inspecting what does not branch

The routines that lower no parts, and those of the constructs that neither branch nor jump.

* `passes_resultPtr` and those like it, the routines without parts;
* `passes_lowerPlace` and those after it, one construct after the other;
* `passes_lowerContainer`, `passes_lowerErrorSet`, `passes_lowerStructInit` and
  `passes_lowerBuiltinCall`, whose instructions list what their nodes list.
-/

namespace SourceIr.Lower.Inspection

variable {I : Inspection} {env : Env} {d : Nat} {ways : Ways} {s : State} {α β : Type}
  {scope : ScopeId} {location : Option Location} {kind : InstKind} {node : Node} {loc : ResultLoc}
  {value : InstId}

/-! ### Handles -/

theorem passes_scopesFrom : I.Same env d ways s (scopesFrom scope) :=
  passes_of_eq fun _ _ hr => (returns_scopesFrom hr).2

theorem passes_scopeAt : I.Same env d ways s (scopeAt scope) := by
  refine passes_get_bind ?_
  dsimp only
  split
  · exact passes_pure
  · exact passes_throw

theorem passes_isTerminated : I.Same env d ways s isTerminated :=
  passes_of_eq fun _ _ hr => by
    rw [isTerminated, returns_get_bind] at hr
    exact (returns_pure.1 (returns_stopAt_bind hr).2).2

theorem passes_isComptimeAt : I.Same env d ways s (isComptimeAt scope) :=
  passes_bind passes_scopesFrom fun _ _ => passes_get_bind passes_pure

theorem passes_currentBlock : I.Same env d ways s currentBlock := passes_get_bind passes_pure

theorem passes_sink? : I.Same env d ways s (sink? scope) := passes_get_bind passes_pure

theorem passes_lastInst : I.Same env d ways s lastInst := passes_get_bind passes_pure

theorem passes_openScope {kind : ScopeKind} : I.Same env d ways s (openScope scope kind) :=
  passes_of_aside fun _ _ hr => by
    obtain ⟨x, -, hr⟩ := returns_scopeAt_bind hr
    rw [returns_get_bind] at hr
    obtain ⟨_, t, hset, hr⟩ := returns_bind.1 hr
    obtain rfl := returns_set.1 hset
    obtain ⟨-, rfl⟩ := returns_pure.1 hr
    exact ⟨rfl, rfl, rfl, rfl, fun _ => id⟩

theorem passes_declare {r : BindingRequest} : I.Same env d ways s (declare scope r) :=
  passes_of_aside fun _ _ hr => by
    obtain ⟨-, _, rfl⟩ := returns_declare hr
    exact ⟨rfl, rfl, rfl, rfl, fun _ => id⟩

theorem passes_openSink : I.Same env d ways s (openSink scope loc) :=
  passes_modify ⟨rfl, rfl, rfl, rfl, fun _ => id⟩

theorem passes_flowInto : I.Same env d ways s (flowInto scope value) :=
  passes_modify ⟨rfl, rfl, rfl, rfl, fun _ => id⟩

theorem passes_closeSink : I.Same env d ways s (closeSink scope) :=
  passes_of_aside fun _ _ hr => by
    rw [closeSink, returns_get_bind] at hr
    obtain ⟨_, t, hset, hr⟩ := returns_bind.1 hr
    obtain rfl := returns_set.1 hset
    obtain ⟨-, rfl⟩ := returns_pure.1 hr
    exact ⟨rfl, rfl, rfl, rfl, fun _ => id⟩

theorem passes_countMade {m : Node.MemberSymbol} : I.Same env d ways s (countMade m) := by
  cases m with
  | written => exact passes_pure
  | made symbol => exact passes_modify ⟨rfl, rfl, rfl, rfl, fun _ => id⟩

/-- The name that is set aside may be used up. -/
theorem passes_takeNameHint : I.Same env d ways s (takeNameHint node) :=
  passes_of_aside fun _ _ hr => by
    rw [takeNameHint, returns_get_bind] at hr
    split at hr
    · split at hr
      · obtain ⟨_, t, hset, hr⟩ := returns_bind.1 hr
        obtain rfl := returns_set.1 hset
        obtain ⟨-, rfl⟩ := returns_pure.1 hr
        exact ⟨rfl, rfl, rfl, rfl, by rintro _ ⟨⟩⟩
      · exact (returns_pure.1 hr).2 ▸ .refl s
    · exact (returns_pure.1 hr).2 ▸ .refl s

/-! ### Results and names -/

theorem passes_resultPtr : I.Same env d ways s (resultPtr loc scope location) := by
  cases loc with
  | ret | alloc => exact passes_map (passes_emitGen rfl)
  | existing | none | discard => exact passes_pure

theorem passes_settle : I.Same env d ways s (settle loc scope location) := by
  cases loc with
  | alloc =>
    refine passes_bind passes_resultPtr fun ptr _ => ?_
    cases ptr <;> exact passes_pure
  | _ => exact passes_pure

theorem passes_deliver : I.Same env d ways s (deliver value loc scope location) := by
  cases loc with
  | existing ptr => exact passes_bind (passes_emitGen rfl) fun _ _ => passes_pure
  | alloc =>
    refine passes_bind passes_resultPtr fun ptr _ => ?_
    cases ptr with
    | some ptr => exact passes_bind (passes_emitGen rfl) fun _ _ => passes_pure
    | none => exact passes_pure
  | none | discard | ret => exact passes_pure

theorem passes_emitTo (h : Admitted I.Known ways kind false false) :
    I.Same env d ways s (emitTo kind scope location loc) :=
  passes_bind (passes_emitWith h) fun _ _ => passes_deliver

theorem passes_emitSimpleTo (h : kind.isSimple = true) :
    I.Same env d ways s (emitTo kind scope location loc) := passes_emitTo (admitted_simple h)

theorem passes_lowerSymbol {name : String} {lval : Bool} :
    I.Same env d ways s (lowerSymbol node name scope lval) := by
  rw [lowerSymbol]
  refine passes_ite passes_fail <| passes_ite (passes_ite passes_fail (passes_emit rfl)) ?_
  refine passes_bind passes_scopesFrom fun scopes _ => passes_read_bind ?_
  split
  · refine passes_get_bind <| passes_ite passes_throw ?_
    exact passes_bind (passes_emit rfl) fun _ _ => passes_ite passes_pure (passes_emit rfl)
  · exact passes_emit rfl
  · exact passes_fail

theorem passes_joinAt {stop : BlockId} {incoming : List (BlockId × InstId)} :
    I.Same env d ways s (joinAt stop incoming scope node) :=
  passes_bind passes_goto fun _ _ => passes_ite (passes_emitGen rfl) (passes_emitGen rfl)

/-- The value of a block: that of the instruction that ends it, or void. -/
theorem passes_blockValue : I.Same env d ways s (do
    let terminated ← isTerminated
    let stream := (← get).stream
    match if terminated then stream.last? else none with
    | some stop => return stop
    | none =>
      let void ← emitVoid scope node.location
      deliver void loc scope node.location) := by
  refine passes_bind passes_isTerminated fun _ _ => passes_get_bind ?_
  dsimp only
  split
  · exact passes_pure
  · exact passes_bind passes_emitVoid fun _ _ => passes_deliver

/-- A way out of the function, unless control does not get that far. -/
theorem passes_unlessTerminated {x : LowerM α} {gen : Bool}
    (h : Admitted I.Known ways kind false gen) (hx : ∀ t, I.Same env d ways t x) :
    I.Same env d ways s (do
      if !(← isTerminated) then
        let _ ← emitWith kind scope location false gen
      x) := by
  refine passes_bind passes_isTerminated fun terminated t => ?_
  cases terminated with
  | true => exact hx t
  | false => exact passes_bind (passes_emitWith h) fun _ _ => hx _

theorem passes_warnAt {kind : DiagnosticKind} {message : String} :
    I.Same env d ways s (warnAt kind message node) :=
  passes_get_bind <| passes_bind (passes_modify ⟨rfl, rfl, rfl, rfl, fun _ => id⟩) fun _ _ =>
    passes_modify ⟨rfl, rfl, rfl, rfl, fun _ => id⟩

theorem passes_hasEffectSince {start : Nat} : I.Same env d ways s (hasEffectSince start) :=
  passes_of_eq fun _ _ hr => by
    rw [hasEffectSince, returns_get_bind] at hr
    exact (returns_pure.1 (returns_stopAt_bind hr).2).2

/-- The checks on an expression that stands as a statement. -/
theorem passes_checkStatement {start : Nat} : I.Same env d ways s (do
    if !(← isTerminated) then
      let effectful ← hasEffectSince start
      if (← read).options.warnNoEffect && !effectful then
        warnAt .noEffect "statement has no effect" node
      let _ ← emitGen (.checkStatementIsVoid value) scope node.location) := by
  have check : ∀ t, I.Same env d ways t (do
      let _ ← emitGen (.checkStatementIsVoid value) scope node.location) := fun t =>
    passes_bind (passes_emitGen rfl) fun _ _ => passes_pure
  refine passes_bind passes_isTerminated fun terminated _ => ?_
  cases terminated with
  | true => exact passes_pure
  | false =>
    refine passes_bind passes_hasEffectSince fun effectful _ => passes_read_bind ?_
    exact passes_ite (passes_bind passes_warnAt fun _ t => check t) (check _)

/-! ### Captures and jumps -/

theorem passes_bindPayload {name : String} :
    I.Same env d ways s (bindPayload scope name value node) := by
  refine passes_bind passes_openScope fun inner _ => passes_ite passes_pure ?_
  refine passes_bind (passes_emitGen rfl) fun _ _ => passes_bind (passes_emitGen rfl) fun _ _ => ?_
  exact passes_bind passes_declare fun _ _ => passes_bind (passes_emitGen rfl) fun _ _ =>
    passes_pure

theorem passes_emitTest {payload : Option String} :
    I.Same env d ways s (emitTest node payload value scope) := by
  cases payload with
  | some _ => exact passes_emitGen rfl
  | none => exact passes_pure

theorem passes_enterBranch {payload : Option String} :
    I.Same env d ways s (enterBranch node payload value scope) := by
  cases payload with
  | some name => exact passes_bind (passes_emitGen rfl) fun _ _ => passes_bindPayload
  | none => exact passes_pure

theorem passes_enterLoop {label : Option String} {blocks : LoopBlocks} :
    I.Same env d ways s (enterLoop scope label blocks loc) :=
  passes_bind passes_openScope fun _ _ => passes_bind passes_openSink fun _ _ => passes_pure

theorem passes_stepIndex : I.Same env d ways s (stepIndex value node scope) :=
  passes_bind (passes_emitGen rfl) fun _ _ => passes_bind (passes_emitGen rfl) fun _ _ =>
    passes_bind (passes_emitGen rfl) fun _ _ => passes_bind (passes_emitGen rfl) fun _ _ =>
      passes_pure

/-- A branch to a block that the routines around may lead to. -/
theorem passes_emitBr {b : BlockId} {inline force gen : Bool} (hb : (b, inline) ∈ ways)
    (hf : inline = true → force = true) :
    I.Same env d ways s (emitWith (.br b) scope location force gen) :=
  passes_emitWith (admitted_br hb hf)

theorem passes_branchInto {stop : BlockId} {incoming : List (BlockId × InstId)}
    {inline force : Bool} (hb : (stop, inline) ∈ ways) (hf : inline = true → force = true) :
    I.Same env d ways s (branchInto stop incoming value scope force) := by
  refine passes_bind passes_isTerminated fun _ _ => passes_ite passes_pure ?_
  exact passes_bind passes_currentBlock fun _ _ =>
    passes_bind (passes_emitBr hb hf) fun _ _ => passes_pure

theorem passes_jumpUnlessTerminated {b : BlockId} {inline force : Bool} (hb : (b, inline) ∈ ways)
    (hf : inline = true → force = true) :
    I.Same env d ways s (jumpUnlessTerminated b node scope force) := by
  refine passes_bind passes_isTerminated fun terminated _ => ?_
  cases terminated with
  | true => exact passes_pure
  | false => exact passes_bind (passes_emitBr hb hf) fun _ _ => passes_pure

/-- Behind the operand that stands in for a value, the value itself where it is there. -/
theorem passes_unwrapInto {okBlock stop : BlockId} {standIn : InstId} (h : kind.isSimple = true)
    (hb : (stop, false) ∈ ways) : I.Same env d ways s (do
      let incoming ← branchInto stop [] standIn scope false
      goto okBlock
      let payload ← emitGen kind scope node.location
      let payload ← deliver payload loc scope node.location
      let incoming ← branchInto stop incoming payload scope false
      joinAt stop incoming scope node) := by
  refine passes_bind (passes_branchInto hb id) fun _ _ => passes_bind passes_goto fun _ _ => ?_
  refine passes_bind (passes_emitGen h) fun _ _ => passes_bind passes_deliver fun _ _ => ?_
  exact passes_bind (passes_branchInto hb id) fun _ _ => passes_joinAt

theorem passes_leavesStream {target : Option ScopeId} :
    I.Same env d ways s (leavesStream scope target) :=
  passes_bind passes_scopesFrom fun _ _ => passes_get_bind passes_pure

theorem passes_breakScope {label : Option String} :
    I.Same env d ways s (breakScope node label scope) := by
  refine passes_bind passes_scopesFrom fun scopes _ => ?_
  split
  · exact passes_pure
  all_goals exact passes_fail

theorem passes_continueScope {label : Option String} :
    I.Same env d ways s (continueScope node label scope) := by
  refine passes_bind passes_scopesFrom fun scopes _ => ?_
  split
  · exact passes_pure
  all_goals exact passes_fail

theorem passes_checkFnExit {exit : FnExit} : I.Same env d ways s (checkFnExit node scope exit) := by
  refine passes_bind passes_scopesFrom fun scopes _ => passes_ite passes_fail ?_
  refine passes_ite passes_fail <| passes_bind passes_leavesStream fun _ _ => ?_
  exact passes_ite passes_fail passes_pure

/-! ### Checks and names -/

theorem passes_typeName {word : String} : I.Same env d ways s (typeName node scope word) := by
  refine passes_bind passes_takeNameHint fun name _ => ?_
  cases name with
  | some name => exact passes_bind passes_scopesFrom fun _ _ => passes_pure
  | none =>
    refine passes_bind passes_scopesFrom fun scopes _ => ?_
    dsimp only
    split
    · exact passes_bind passes_scopeAt fun _ _ => passes_pure
    · exact passes_pure

theorem passes_memberNames {seen : Seen} {decls : List Node} :
    I.Same env d ways s (memberNames seen decls) := by
  induction decls generalizing seen s with
  | nil => exact passes_pure
  | cons decl rest ih =>
    rw [memberNames]
    split
    · exact ih
    refine passes_ite ?_ (passes_bind ih fun _ _ => passes_pure)
    split
    · exact passes_fail
    · exact passes_bind ih fun _ _ => passes_pure

theorem passes_checkOpaque {kind : ContainerKind} {fields : List Node} :
    I.Same env d ways s (checkOpaque kind fields) := by
  cases fields with
  | nil => exact passes_pure
  | cons field rest => exact passes_ite passes_fail passes_pure

theorem passes_errorNames {seen : Seen} {members : List Node} :
    I.Same env d ways s (errorNames seen members) := by
  induction members generalizing seen s with
  | nil => exact passes_pure
  | cons member rest ih =>
    rw [errorNames]
    split
    · refine passes_bind passes_countMade fun _ _ => ?_
      split
      · exact passes_fail
      · exact passes_bind ih fun _ _ => passes_pure
    · exact passes_fail

theorem passes_fieldLoc {target : Option InstId} {field : FieldInit} :
    I.Same env d ways s (fieldLoc target field scope) := by
  cases target with
  | some ptr => exact passes_bind (passes_emitGen rfl) fun _ _ => passes_pure
  | none => exact passes_pure

theorem passes_elementLoc {target : Option InstId} {index : Nat} :
    I.Same env d ways s (elementLoc target index node scope) := by
  cases target with
  | some ptr =>
    exact passes_bind (passes_emitGen rfl) fun _ _ => passes_bind (passes_emitGen rfl) fun _ _ =>
      passes_pure
  | none => exact passes_pure

theorem passes_checkModifier {modifier : CallModifier} {forced : Bool} :
    I.Same env d ways s (checkModifier node modifier forced) := by
  rw [checkModifier]
  split
  · exact passes_fail
  · exact passes_pure

theorem passes_lowerAsm {template : String} {isVolatile : Bool} :
    I.Same env d ways s (lowerAsm node template isVolatile scope loc) :=
  passes_bind passes_scopesFrom fun _ _ => passes_ite passes_fail (passes_emitSimpleTo rfl)

theorem passes_checkSuspend : I.Same env d ways s (checkSuspend node scope) := by
  refine passes_bind passes_scopesFrom fun scopes _ => passes_ite passes_fail ?_
  refine passes_ite passes_fail <| passes_bind passes_isComptimeAt fun _ _ => ?_
  exact passes_ite passes_fail passes_pure

theorem passes_declareParam {name : Option String} {isComptime : Bool} {index : Nat} :
    I.Same env d ways s (declareParam node name isComptime index scope) := by
  unfold declareParam
  split
  · exact passes_pure
  · exact passes_pure
  · exact passes_bind (passes_emitGen rfl) fun _ _ => passes_bind passes_declare fun _ _ =>
      passes_bind (passes_emitGen rfl) fun _ _ => passes_pure

/-! ### Parts -/

section Parts

variable {parts parts' : Parts} (hp : I.PassesParts env parts parts')

include hp in
theorem PassesParts.comptimeValue (hn : I.Fit node) :
    I.Passes env d ways s (parts.comptimeValue node scope) (parts'.comptimeValue node scope) :=
  passes_bind passes_openScope fun _ _ => hp.expr hn

include hp in
theorem PassesParts.comptimeValue? {node : Option Node} (hn : ∀ n ∈ node, I.Fit n) :
    I.Passes env d ways s (parts.comptimeValue? node scope) (parts'.comptimeValue? node scope) := by
  cases node with
  | some node => exact passes_map (hp.comptimeValue (hn node rfl))
  | none => exact passes_pure

/-! ### Constructs that do not branch -/

include hp in
theorem passes_lowerPlace (hn : ∀ part ∈ node.kind.unnamed, I.Fit part) :
    I.Passes env d ways s (lowerPlace parts scope node) (lowerPlace parts' scope node) := by
  induction node using lowerPlace.induct parts scope generalizing s with
  | case1 id name location span => exact passes_lowerSymbol
  | case2 id container field location span h ih =>
    rw [lowerPlace, lowerPlace, if_pos h, if_pos h]
    have hc := hn container List.mem_cons_self
    exact passes_bind (ih (I.fit_unnamed hc)) fun _ _ => passes_emit rfl
  | case3 id container field location span h =>
    rw [lowerPlace, lowerPlace, if_neg h, if_neg h]
    exact passes_bind (hp.expr (hn container List.mem_cons_self)) fun _ _ => passes_emit rfl
  | case4 id array index location span h ih =>
    rw [lowerPlace, lowerPlace, if_pos h, if_pos h]
    have ha := hn array List.mem_cons_self
    have hi := hn index (List.mem_cons_of_mem _ List.mem_cons_self)
    exact passes_bind (ih (I.fit_unnamed ha)) fun _ _ => passes_bind (hp.expr hi) fun _ _ =>
      passes_emit rfl
  | case5 id array index location span h =>
    rw [lowerPlace, lowerPlace, if_neg h, if_neg h]
    have hi := hn index (List.mem_cons_of_mem _ List.mem_cons_self)
    exact passes_bind (hp.expr (hn array List.mem_cons_self)) fun _ _ =>
      passes_bind (hp.expr hi) fun _ _ => passes_emit rfl
  | case6 id operand location span => exact hp.expr (hn operand List.mem_cons_self)
  | case7 node h₁ h₂ h₃ h₄ =>
    rw [lowerPlace.eq_5 _ _ _ h₁ h₂ h₃ h₄, lowerPlace.eq_5 _ _ _ h₁ h₂ h₃ h₄]
    exact passes_fail

include hp in
theorem passes_lowerLoad (hn : ∀ part ∈ node.kind.unnamed, I.Fit part) :
    I.Passes env d ways s (lowerLoad parts node scope loc) (lowerLoad parts' node scope loc) :=
  passes_bind (passes_lowerPlace hp hn) fun _ _ => passes_emitSimpleTo rfl

include hp in
theorem passes_lowerArgs {args : List Node} (ha : ∀ arg ∈ args, I.Fit arg) :
    I.Passes env d ways s (lowerArgs parts scope args) (lowerArgs parts' scope args) := by
  induction args generalizing s with
  | nil => exact passes_pure
  | cons arg rest ih =>
    obtain ⟨harg, hrest⟩ := List.forall_mem_cons.1 ha
    exact passes_bind (hp.expr harg) fun _ _ => passes_bind (ih hrest) fun _ _ => passes_pure

include hp in
theorem passes_lowerCall {callee : Node} {args : List Node} {modifier : CallModifier}
    (hc : I.Fit callee) (ha : ∀ arg ∈ args, I.Fit arg) :
    I.Passes env d ways s (lowerCall parts node callee args modifier scope loc)
      (lowerCall parts' node callee args modifier scope loc) := by
  refine passes_bind passes_scopesFrom fun scopes _ => ?_
  refine passes_bind passes_checkModifier fun _ _ => ?_
  refine passes_bind (hp.expr hc) fun target _ => ?_
  have all : ∀ t, I.Passes env d ways t (do
      let argScope ← if (modifier = .compileTime && !scopes.isForcedComptime scope)
        then openScope scope .comptime else pure scope
      lowerArgs parts argScope args) (do
      let argScope ← if (modifier = .compileTime && !scopes.isForcedComptime scope)
        then openScope scope .comptime else pure scope
      lowerArgs parts' argScope args) := fun t =>
    passes_ite_bind passes_openScope passes_pure fun _ _ => passes_lowerArgs hp ha
  refine passes_bind passes_isComptimeAt fun atComptime t => ?_
  refine passes_ite_bind (passes_withFrame all) (all t) fun values _ => ?_
  exact passes_bind passes_resultPtr fun _ _ => passes_emitSimple rfl

include hp in
theorem passes_lowerUnary {op : UnaryOperator} {operand : Node} (ho : I.Fit operand) :
    I.Passes env d ways s (lowerUnary parts node op operand scope loc)
      (lowerUnary parts' node op operand scope loc) := by
  have one : ∀ kind : InstId → InstKind, (∀ value, (kind value).isSimple = true) →
      I.Passes env d ways s (do
      let value ← parts.value operand scope
      emitTo (kind value) scope node.location loc) (do
      let value ← parts'.value operand scope
      emitTo (kind value) scope node.location loc) := fun kind h =>
    passes_bind (hp.expr ho) fun value _ => passes_emitSimpleTo (h value)
  cases op with
  | addressOf =>
    exact passes_ite (passes_bind (passes_lowerPlace hp (I.fit_unnamed ho)) fun _ _ =>
      passes_deliver) (one .ref fun _ => rfl)
  | deref => exact one .loadPtr fun _ => rfl
  | optionalUnwrap => exact one (.optionalUnwrap · true) fun _ => rfl
  | negate => exact one (.unOp .negate) fun _ => rfl
  | boolNot => exact one (.unOp .boolNot) fun _ => rfl
  | bitNot => exact one (.unOp .bitNot) fun _ => rfl

include hp in
theorem passes_lowerElements {target : Option InstId} {index : Nat} {elements : List Node}
    (he : ∀ element ∈ elements, I.Fit element) :
    I.Passes env d ways s (lowerElements parts target scope index elements)
      (lowerElements parts' target scope index elements) := by
  induction elements generalizing index s with
  | nil => exact passes_pure
  | cons element rest ih =>
    obtain ⟨helement, hrest⟩ := List.forall_mem_cons.1 he
    exact passes_bind passes_elementLoc fun _ _ => passes_bind (hp.expr helement) fun _ _ =>
      passes_bind (ih hrest) fun _ _ => passes_pure

include hp in
theorem passes_lowerArrayInit {typeExpr : Option Node} {elements : List Node}
    (ht : ∀ type ∈ typeExpr, I.Fit type) (he : ∀ element ∈ elements, I.Fit element) :
    I.Passes env d ways s (lowerArrayInit parts node typeExpr elements scope loc)
      (lowerArrayInit parts' node typeExpr elements scope loc) :=
  passes_bind (hp.comptimeValue? ht) fun _ _ => passes_bind passes_resultPtr fun _ _ =>
    passes_bind (passes_lowerElements hp he) fun _ _ => passes_emit rfl

include hp in
theorem passes_lowerSuspend {body : Option Node} (hb : ∀ b ∈ body, I.Fit b) :
    I.Passes env d ways s (lowerSuspend parts node body scope)
      (lowerSuspend parts' node body scope) := by
  refine passes_bind passes_checkSuspend fun _ _ => passes_bind (passes_emit rfl) fun start _ => ?_
  cases body with
  | some body =>
    exact passes_bind passes_openScope fun _ _ => passes_bind (hp.expr (hb body rfl)) fun _ _ =>
      passes_emit rfl
  | none => exact passes_emit rfl

/-! ### Aggregates -/

include hp in
theorem passes_lowerFields {kind : ContainerKind} {seen : Seen} {fields : List Node}
    (hf : ∀ field ∈ fields, I.Fit field) :
    I.Passes env d ways s (lowerFields parts kind scope seen fields)
      (lowerFields parts' kind scope seen fields) := by
  induction fields generalizing seen s with
  | nil => exact passes_pure
  | cons field rest ih =>
    obtain ⟨hfield, hrest⟩ := List.forall_mem_cons.1 hf
    have hparts := I.fit_unnamed hfield
    rw [lowerFields, lowerFields]
    split
    next name typeExpr defaultValue hk =>
      rw [hk] at hparts
      split
      · exact passes_fail
      refine passes_bind (hp.comptimeValue? fun type h => hparts type ?_) fun _ _ =>
        passes_bind (hp.comptimeValue? fun default h => hparts default ?_) fun _ _ =>
          passes_bind (ih hrest) fun _ _ => passes_pure
      · obtain rfl := h
        simp [Kind.unnamed, Kind.trees, Kind.values, FieldValue.trees_ofOption]
      · obtain rfl := h
        simp [Kind.unnamed, Kind.trees, Kind.values, FieldValue.trees_ofOption]
    · exact passes_fail

include hp in
theorem passes_lowerContainer {kind : ContainerKind} {fields decls : List Node}
    (hn : I.Known node) (hk : node.kind = .containerDecl kind fields decls)
    (hf : ∀ field ∈ fields, I.Fit field) :
    I.Passes env d ways s (lowerContainer parts node kind fields decls scope loc)
      (lowerContainer parts' node kind fields decls scope loc) := by
  refine passes_bind passes_typeName fun name _ => ?_
  refine passes_bind_of passes_checkOpaque fun _ _ hcheck => ?_
  refine passes_bind_of (passes_lowerFields hp hf) fun r _ hfields => ?_
  refine passes_bind_of passes_memberNames fun names _ hmembers => ?_
  exact passes_emitTo (admitted_lists hn (hk ▸ reflects_container hcheck hfields hmembers))

theorem passes_lowerErrorSet {members : List Node} (hn : I.Known node)
    (hk : node.kind = .errorSetDecl members) :
    I.Same env d ways s (lowerErrorSet node members scope loc) :=
  passes_bind passes_typeName fun _ _ => passes_bind_of passes_errorNames fun _ _ hnames =>
    passes_emitTo (admitted_lists hn (hk ▸ reflects_errorSet hnames))

include hp in
theorem passes_lowerFieldInits {target : Option InstId} {seen : Seen} {fields : List FieldInit}
    (hf : ∀ field ∈ fields, I.Fit field.value) :
    I.Passes env d ways s (lowerFieldInits parts target scope seen fields)
      (lowerFieldInits parts' target scope seen fields) := by
  induction fields generalizing seen s with
  | nil => exact passes_pure
  | cons field rest ih =>
    obtain ⟨hfield, hrest⟩ := List.forall_mem_cons.1 hf
    rw [lowerFieldInits, lowerFieldInits]
    split
    · exact passes_fail
    · exact passes_bind passes_fieldLoc fun _ _ => passes_bind (hp.expr hfield) fun _ _ =>
        passes_bind (ih hrest) fun _ _ => passes_pure

include hp in
theorem passes_lowerStructInit {typeExpr : Option Node} {fields : List FieldInit}
    (hn : I.Known node) (hk : node.kind = .structInit typeExpr fields)
    (ht : ∀ type ∈ typeExpr, I.Fit type) (hf : ∀ field ∈ fields, I.Fit field.value) :
    I.Passes env d ways s (lowerStructInit parts node typeExpr fields scope loc)
      (lowerStructInit parts' node typeExpr fields scope loc) := by
  refine passes_bind_of (hp.comptimeValue? ht) fun type _ htype => ?_
  refine passes_bind passes_resultPtr fun target _ => ?_
  refine passes_bind_of (passes_lowerFieldInits hp hf) fun values _ hvalues => ?_
  have hsome := (inTurn_comptimeValue? htype).2
  exact passes_emitWith (admitted_lists hn (hk ▸ reflects_structInit hsome hvalues))

/-- An argument that is there is used. -/
theorem passes_argAt_bind {args : List Node} {i : Nat} {f f' : Node → LowerM α}
    (h : ∀ arg ∈ args, I.Passes env d ways s (f arg) (f' arg)) :
    I.Passes env d ways s (argAt args i >>= f) (argAt args i >>= f') := by
  rw [argAt]
  split
  next arg harg =>
    rw [pure_bind, pure_bind]
    exact h arg (List.mem_of_getElem? harg)
  next =>
    refine passes_of_not_returns fun _ _ hr => ?_
    obtain ⟨_, _, hthrow, -⟩ := returns_bind.1 hr
    exact not_returns_throw hthrow

include hp in
theorem passes_lowerAs {args : List Node} (ha : ∀ arg ∈ args, I.Fit arg) :
    I.Passes env d ways s (lowerAs parts node args scope loc)
      (lowerAs parts' node args scope loc) :=
  passes_argAt_bind fun _ htype => passes_bind (hp.comptimeValue (ha _ htype)) fun _ _ =>
    passes_argAt_bind fun _ hvalue => passes_bind (hp.expr (ha _ hvalue)) fun _ _ =>
      passes_emitSimpleTo rfl

include hp in
theorem passes_lowerBuiltinCall {name : String} {args : List Node} (hn : I.Known node)
    (hk : node.kind = .builtinCall name args) (ha : ∀ arg ∈ args, I.Fit arg) :
    I.Passes env d ways s (lowerBuiltinCall parts node name args scope loc)
      (lowerBuiltinCall parts' node name args scope loc) := by
  unfold lowerBuiltinCall
  dsimp only
  split
  · exact passes_fail
  next info hinfo =>
    split
    · exact passes_fail
    next hcount =>
      split
      · exact passes_lowerAs hp ha
      · refine passes_bind_of (passes_lowerArgs hp ha) fun values _ hargs => ?_
        exact passes_emitTo (admitted_lists hn
          (hk ▸ reflects_builtinCall hinfo (by simpa using hcount) hargs))

end Parts

end SourceIr.Lower.Inspection
