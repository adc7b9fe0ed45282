import SourceIr.Proofs.Retouch.Step

/-!
# Comparing lowerings

Two lowerings of the same nodes run the same routines, and differ only in their options or in what
their routines for parts do.  A comparison relates the routines of one to those of the other; it is
enough to say how the steps are related that routines are made of.  What two lowerings have in
common of the routines that lower no parts follows from what they have in common of the steps that
these are made of, and of the failures that they may end in.

* `Outline`, a relation between routines with the rules for steps and failures;
* `Outline.same_emit` and those like it, the rules for the small steps;
* `Outline.same_deliver` and those like it, the routines of the constructs that lower no parts;
* `Comparison`, a relation between routines with the rules for what they are made of, and
  `NestedComparison`, with those for streams inside streams;
* `Comparison.RelParts`, what is relied on for the routines for parts.
-/

namespace SourceIr.Lower

/-- A relation between the routines of two lowerings that is kept by putting them together. -/
structure Outline where
  Rel : {α : Type} → LowerM α → LowerM α → Prop
  /-- Where a failure may be laid to. -/
  At : Option Location → Prop
  rel_pure : ∀ {α : Type} (a : α), Rel (pure a) (pure a)
  rel_bind : ∀ {α β : Type} {x x' : LowerM α} {f f' : α → LowerM β}, Rel x x' →
    (∀ a, Rel (f a) (f' a)) → Rel (x >>= f) (x' >>= f')
  /-- Routines look at what is in the state, not at what is on record. -/
  rel_get : ∀ {β : Type} {f f' : State → LowerM β}, Blind f' → (∀ s, Rel (f s) (f' s)) →
    Rel (get >>= f) (get >>= f')
  /-- The table is read for what a name stands for. -/
  rel_lookup : ∀ {x x' : VarId → LowerM InstId} {y y' : LowerM InstId} (scopes : ScopeTree)
    (scope name location lval), (∀ var, Rel (x var) (x' var)) → Rel y y' →
    Rel (do
      match scopes.lookup scope name (← read).table with
      | some (.var var) => x var
      | some (.decl decl) => emit (.declRef decl name lval) scope location
      | none => y) (do
      match scopes.lookup scope name (← read).table with
      | some (.var var) => x' var
      | some (.decl decl) => emit (.declRef decl name lval) scope location
      | none => y')
  /-- One fault is set apart. -/
  rel_fault : ∀ {α : Type} {f : Fault}, f ≠ alarmFault →
    Rel (throw (.fault f) : LowerM α) (throw (.fault f))
  /-- The nesting of nodes is not a routine's own concern. -/
  rel_fail : ∀ {α : Type} {m : Message}, IsError m → At m.location →
    Rel (fail m : LowerM α) (fail m)
  rel_unlessFailed : ∀ {α : Type} {x x' : LowerM α} (var : VarId), Rel x x' →
    Rel (do if (← get).failedVars.contains var then throw .poisoned else x)
      (do if (← get).failedVars.contains var then throw .poisoned else x')
  rel_step : ∀ {α : Type} {x : LowerM α}, InnerStep x → Rel x x
  rel_declare : ∀ (scope) (r : BindingRequest), At r.location →
    Rel (declare scope r) (declare scope r)

namespace Outline

/-- A routine that does not lower parts is related to itself. -/
abbrev Same (C : Outline) {α : Type} (x : LowerM α) : Prop := C.Rel x x

variable {C : Outline} {α β : Type} {scope : ScopeId} {location : Option Location}
  {node : Node}

theorem rel_map {x x' : LowerM α} (g : α → β) (h : C.Rel x x') : C.Rel (g <$> x) (g <$> x') := by
  rw [map_eq_pure_bind, map_eq_pure_bind]
  exact C.rel_bind h fun a => C.rel_pure (g a)

theorem rel_unit_bind {x x' : LowerM α} {y y' : LowerM β} (hx : C.Rel x x') (hy : C.Rel y y') :
    C.Rel (do let _ ← x; y) (do let _ ← x'; y') :=
  C.rel_bind hx fun _ => hy

theorem rel_ite {p : Prop} [Decidable p] {x x' y y' : LowerM α} (hx : C.Rel x x')
    (hy : C.Rel y y') : C.Rel (if p then x else y) (if p then x' else y') := by
  split
  · exact hx
  · exact hy

/-- A choice whose outcome is used afterwards. -/
theorem rel_ite_bind {p : Prop} [Decidable p] {x x' y y' : LowerM α} {f f' : α → LowerM β}
    (hx : C.Rel x x') (hy : C.Rel y y') (hf : ∀ a, C.Rel (f a) (f' a)) :
    C.Rel (if p then x >>= f else y >>= f) (if p then x' >>= f' else y' >>= f') :=
  rel_ite (C.rel_bind hx hf) (C.rel_bind hy hf)

/-! ### Handles -/

theorem same_stopAt {f : Option Fault} (h : ∀ e ∈ f, e ≠ alarmFault) : C.Same (stopAt f) := by
  cases f with
  | some f => exact C.rel_fault (h f rfl)
  | none => exact C.rel_pure _

theorem same_scopesFrom (scope : ScopeId) : C.Same (scopesFrom scope) :=
  C.rel_get (fun _ _ _ => rfl) fun s =>
    rel_unit_bind (same_stopAt (fault?_ne_alarm s.scopes scope)) (C.rel_pure _)

theorem same_scopeAt (scope : ScopeId) : C.Same (scopeAt scope) := by
  refine C.rel_get (fun _ _ _ => rfl) fun s => ?_
  dsimp only
  split
  · exact C.rel_pure _
  · exact C.rel_fault nofun

theorem same_isTerminated : C.Same isTerminated :=
  C.rel_get (fun _ _ _ => by simp) fun s =>
    rel_unit_bind (same_stopAt (endFault?_ne_alarm s.stream)) (C.rel_pure _)

theorem same_isComptimeAt (scope : ScopeId) : C.Same (isComptimeAt scope) :=
  C.rel_bind (same_scopesFrom scope) fun _ =>
    C.rel_get (fun _ _ _ => by simp) fun _ => C.rel_pure _

theorem same_currentBlock : C.Same currentBlock :=
  C.rel_get (fun _ _ _ => by simp) fun _ => C.rel_pure _

theorem same_sink? (scope : ScopeId) : C.Same (sink? scope) :=
  C.rel_get (fun _ _ _ => rfl) fun _ => C.rel_pure _

/-! ### Diagnostics -/

theorem same_failAt {kind : DiagnosticKind} {message issuer : String}
    (hat : C.At node.location) (h : kind.level = .error) :
    C.Same (failAt kind message issuer node : LowerM α) :=
  C.rel_fail (isError_ofKind h) hat

theorem same_failTaken {message issuer note : String} {previous : Option Location}
    (hat : C.At node.location) :
    C.Same (failTaken message issuer node previous note : LowerM α) :=
  C.rel_fail ((isError_ofKind rfl).withNote _) hat

/-! ### Small steps -/

variable {kind : InstKind}

theorem same_emitWith {force gen : Bool} (h : kind.isInner = true) :
    C.Same (emitWith kind scope location force gen) :=
  C.rel_step (innerStep_emitWith h scope location force gen)

theorem same_emit (h : kind.isInner = true) : C.Same (emit kind scope location) :=
  same_emitWith h

theorem same_emitGen (h : kind.isInner = true) : C.Same (emitGen kind scope location) :=
  same_emitWith h

theorem same_emitVoid : C.Same (emitVoid scope location) := same_emitWith rfl

theorem same_newBlock (name : String) : C.Same (newBlock name) :=
  C.rel_step (innerStep_newBlock name)

theorem same_goto (b : BlockId) : C.Same (goto b) := C.rel_step (innerStep_goto b)

theorem same_openScope (parent : ScopeId) (kind : ScopeKind) : C.Same (openScope parent kind) :=
  C.rel_step (innerStep_openScope parent kind)

/-! ### Results -/

section Routines

variable (scope : ScopeId) (node : Node) (loc : ResultLoc) (location : Option Location)
  (hat : C.At node.location)

theorem same_resultPtr : C.Same (resultPtr loc scope location) := by
  cases loc with
  | ret | alloc => exact rel_map _ (same_emitGen rfl)
  | existing | none | discard => exact C.rel_pure _

theorem same_settle : C.Same (settle loc scope location) := by
  cases loc with
  | alloc =>
    refine C.rel_bind (same_resultPtr _ _ _) fun ptr => ?_
    cases ptr <;> exact C.rel_pure _
  | _ => exact C.rel_pure _

theorem same_deliver (value : InstId) : C.Same (deliver value loc scope location) := by
  cases loc with
  | existing ptr => exact rel_unit_bind (same_emitGen rfl) (C.rel_pure _)
  | alloc =>
    refine C.rel_bind (same_resultPtr _ _ _) fun ptr => ?_
    cases ptr with
    | some ptr => exact rel_unit_bind (same_emitGen rfl) (C.rel_pure _)
    | none => exact C.rel_pure _
  | _ => exact C.rel_pure _

theorem same_emitTo {kind : InstKind} (h : kind.isInner = true) :
    C.Same (emitTo kind scope location loc) :=
  C.rel_bind (same_emit h) fun v => same_deliver _ _ _ v

/-! ### Names and statements -/

include hat in
theorem same_lowerSymbol (name : String) (lval : Bool) :
    C.Same (lowerSymbol node name scope lval) := by
  rw [lowerSymbol]
  refine rel_ite (same_failAt hat rfl) (rel_ite (rel_ite (same_failAt hat rfl) (same_emit rfl)) ?_)
  refine C.rel_bind (same_scopesFrom scope) fun scopes =>
    C.rel_lookup scopes scope name node.location lval (fun var => ?_) (same_failAt hat rfl)
  exact C.rel_unlessFailed var (C.rel_bind (same_emit rfl) fun ptr =>
    rel_ite (C.rel_pure _) (same_emit rfl))

/-- The value of a block: that of the instruction that ends it, or void. -/
theorem same_blockValue : C.Same (do
    let terminated ← isTerminated
    let stream := (← get).stream
    match if terminated then stream.last? else none with
    | some stop => return stop
    | none =>
      let void ← emitVoid scope node.location
      deliver void loc scope node.location) := by
  refine C.rel_bind same_isTerminated fun _ => C.rel_get (fun _ _ _ => by simp) fun s => ?_
  dsimp only
  split
  · exact C.rel_pure _
  · exact C.rel_bind same_emitVoid fun _ => same_deliver _ _ _ _

theorem same_joinAt (stop : BlockId) (incoming : List (BlockId × InstId)) :
    C.Same (joinAt stop incoming scope node) :=
  rel_unit_bind (same_goto _) (rel_ite (same_emitGen rfl) (same_emitGen rfl))

include hat in
theorem same_failTarget : C.Same (failTarget node : LowerM α) := same_failAt hat rfl

theorem same_hasEffectSince (start : Nat) : C.Same (hasEffectSince start) := by
  refine C.rel_get (fun ρ s log => ?_) fun s =>
    rel_unit_bind (same_stopAt fun e he => ?_) (C.rel_pure _)
  · simp [← List.map_drop, Function.comp_def, Inst.retouch]
  · split at he
    · cases he
    next h =>
      obtain rfl := Option.some.inj he
      intro halarm
      obtain ⟨-, rfl⟩ := Fault.startOutOfRange.inj halarm
      exact h (Nat.zero_le _)

/-! ### Branches and loops -/

include hat in
theorem same_bindPayload (name : String) (value : InstId) :
    C.Same (bindPayload scope name value node) := by
  refine C.rel_bind (same_openScope _ _) fun inner => rel_ite (C.rel_pure _) ?_
  exact C.rel_bind (same_emitGen rfl) fun _ => rel_unit_bind (same_emitGen rfl) <|
    C.rel_bind (C.rel_declare _ _ hat) fun _ => rel_unit_bind (same_emitGen rfl) (C.rel_pure _)

theorem same_branchInto (stop : BlockId) (incoming : List (BlockId × InstId)) (value : InstId)
    (force : Bool) : C.Same (branchInto stop incoming value scope force) := by
  refine C.rel_bind same_isTerminated fun _ => rel_ite (C.rel_pure _) ?_
  exact C.rel_bind same_currentBlock fun _ => rel_unit_bind (same_emitWith rfl) (C.rel_pure _)

/-- Behind the operand that stands in for a value, the value itself where it is there. -/
theorem same_unwrapInto (kind : InstKind) (h : kind.isInner = true) (okBlock stop : BlockId)
    (standIn : InstId) : C.Same (do
      let incoming ← branchInto stop [] standIn scope false
      goto okBlock
      let payload ← emitGen kind scope node.location
      let payload ← deliver payload loc scope node.location
      let incoming ← branchInto stop incoming payload scope false
      joinAt stop incoming scope node) := by
  refine C.rel_bind (same_branchInto _ _ _ _ _) fun _ => rel_unit_bind (same_goto _) ?_
  refine C.rel_bind (same_emitGen h) fun _ => C.rel_bind (same_deliver _ _ _ _) fun _ => ?_
  exact C.rel_bind (same_branchInto _ _ _ _ _) fun _ => same_joinAt _ _ _ _

theorem same_emitTest (payload : Option String) (cond : InstId) :
    C.Same (emitTest node payload cond scope) := by
  cases payload with
  | some _ => exact same_emitGen rfl
  | none => exact C.rel_pure _

include hat in
theorem same_enterBranch (payload : Option String) (cond : InstId) :
    C.Same (enterBranch node payload cond scope) := by
  cases payload with
  | some name => exact C.rel_bind (same_emitGen rfl) fun _ => same_bindPayload _ _ hat _ _
  | none => exact C.rel_pure _

theorem same_newLoop (word : String) : C.Same (newLoop word) :=
  C.rel_bind (same_newBlock _) fun _ => C.rel_bind (same_newBlock _) fun _ =>
    C.rel_bind (same_newBlock _) fun _ => C.rel_bind (same_newBlock _) fun _ =>
      C.rel_bind (same_newBlock _) fun _ => C.rel_pure _

theorem same_enterLoop (label : Option String) (blocks : LoopBlocks) :
    C.Same (enterLoop scope label blocks loc) :=
  C.rel_bind (same_openScope _ _) fun _ =>
    rel_unit_bind (C.rel_step (innerStep_openSink _ _)) (C.rel_pure _)

theorem same_jumpUnlessTerminated (target : BlockId) (force : Bool) :
    C.Same (jumpUnlessTerminated target node scope force) := by
  refine C.rel_bind same_isTerminated fun terminated => ?_
  cases terminated with
  | true => exact C.rel_pure _
  | false => exact rel_unit_bind (same_emitWith rfl) (C.rel_pure _)

theorem same_stepIndex (ptr : InstId) : C.Same (stepIndex ptr node scope) :=
  C.rel_bind (same_emitGen rfl) fun _ => C.rel_bind (same_emitGen rfl) fun _ =>
    C.rel_bind (same_emitGen rfl) fun _ => rel_unit_bind (same_emitGen rfl) (C.rel_pure _)

/-! ### Jumps -/

include hat in
theorem same_failLeaving : C.Same (failLeaving node : LowerM α) := same_failAt hat rfl

theorem same_leavesStream (target : Option ScopeId) : C.Same (leavesStream scope target) :=
  C.rel_bind (same_scopesFrom _) fun _ => C.rel_get (fun _ _ _ => rfl) fun _ => C.rel_pure _

theorem same_lastInst : C.Same lastInst :=
  C.rel_get (fun _ _ _ => by simp) fun _ => C.rel_pure _

include hat in
theorem same_breakScope (label : Option String) : C.Same (breakScope node label scope) := by
  refine C.rel_bind (same_scopesFrom _) fun scopes => ?_
  split
  · exact C.rel_pure _
  all_goals exact same_failAt hat rfl

include hat in
theorem same_continueScope (label : Option String) : C.Same (continueScope node label scope) := by
  refine C.rel_bind (same_scopesFrom _) fun scopes => ?_
  split
  · exact C.rel_pure _
  all_goals exact same_failAt hat rfl

include hat in
theorem same_failMismatch (expected : String) : C.Same (failMismatch node expected : LowerM α) :=
  same_failAt hat rfl

include hat in
theorem same_checkFnExit (exit : FnExit) : C.Same (checkFnExit node scope exit) := by
  refine C.rel_bind (same_scopesFrom _) fun scopes => rel_ite (same_failAt hat rfl) ?_
  refine rel_ite (same_failAt hat rfl) <| C.rel_bind (same_leavesStream _ _) fun _ => ?_
  exact rel_ite (same_failLeaving _ hat) (C.rel_pure _)

/-- A way out of the function, unless control does not get that far. -/
theorem same_returnUnlessTerminated {x : LowerM α} {kind : InstKind} {gen : Bool} (hx : C.Same x)
    (h : kind.isInner = true) : C.Same (do
      if !(← isTerminated) then
        let _ ← emitWith kind scope location false gen
      x) := by
  refine C.rel_bind same_isTerminated fun terminated => ?_
  cases terminated with
  | true => exact hx
  | false => exact rel_unit_bind (same_emitWith h) hx

/-! ### Types and aggregates -/

theorem same_typeName (kind : String) : C.Same (typeName node scope kind) := by
  refine C.rel_bind (C.rel_step (innerStep_takeNameHint _)) fun name => ?_
  cases name with
  | some name => exact C.rel_bind (same_scopesFrom _) fun _ => C.rel_pure _
  | none =>
    refine C.rel_bind (same_scopesFrom _) fun scopes => ?_
    dsimp only
    split
    · exact C.rel_bind (same_scopeAt _) fun _ => C.rel_pure _
    · exact C.rel_pure _

theorem same_memberNames (seen : Seen) (decls : List Node)
    (h : ∀ decl ∈ decls, C.At decl.location) : C.Same (memberNames seen decls) := by
  induction decls generalizing seen with
  | nil => exact C.rel_pure _
  | cons decl rest ih =>
    obtain ⟨hat, hrest⟩ := List.forall_mem_cons.1 h
    replace ih := fun seen => ih seen hrest
    rw [memberNames]
    split
    · exact ih _
    refine rel_ite ?_ (C.rel_bind (ih _) fun _ => C.rel_pure _)
    split
    · exact same_failTaken hat
    · exact C.rel_bind (ih _) fun _ => C.rel_pure _

theorem same_checkOpaque (kind : ContainerKind) (fields : List Node)
    (h : ∀ field ∈ fields, C.At field.location) : C.Same (checkOpaque kind fields) := by
  cases fields with
  | nil => exact C.rel_pure _
  | cons field rest =>
    exact rel_ite (same_failAt (h field List.mem_cons_self) rfl) (C.rel_pure _)

theorem same_errorNames (seen : Seen) (members : List Node)
    (h : ∀ member ∈ members, C.At member.location) : C.Same (errorNames seen members) := by
  induction members generalizing seen with
  | nil => exact C.rel_pure _
  | cons member rest ih =>
    obtain ⟨hat, hrest⟩ := List.forall_mem_cons.1 h
    rw [errorNames]
    split
    · refine C.rel_bind (C.rel_step (innerStep_countMade _)) fun _ => ?_
      split
      · exact same_failTaken hat
      · exact C.rel_bind (ih _ hrest) fun _ => C.rel_pure _
    · exact same_failAt hat rfl

theorem same_lowerErrorSet (members : List Node) (h : ∀ member ∈ members, C.At member.location) :
    C.Same (lowerErrorSet node members scope loc) :=
  C.rel_bind (same_typeName _ _ _) fun _ => C.rel_bind (same_errorNames _ _ h) fun _ =>
    same_emitTo _ _ _ rfl

theorem same_fieldLoc (target : Option InstId) (field : FieldInit) :
    C.Same (fieldLoc target field scope) := by
  cases target with
  | some ptr => exact C.rel_bind (same_emitGen rfl) fun _ => C.rel_pure _
  | none => exact C.rel_pure _

theorem same_elementLoc (target : Option InstId) (index : Nat) (element : Node) :
    C.Same (elementLoc target index element scope) := by
  cases target with
  | some ptr =>
    exact C.rel_bind (same_emitGen rfl) fun _ => C.rel_bind (same_emitGen rfl) fun _ => C.rel_pure _
  | none => exact C.rel_pure _

/-! ### Calls, assembly and suspension -/

include hat in
theorem same_checkModifier (modifier : CallModifier) (forced : Bool) :
    C.Same (checkModifier node modifier forced) := by
  rw [checkModifier]
  split
  · exact same_failAt hat rfl
  · exact C.rel_pure _

theorem same_argAt (args : List Node) (i : Nat) : C.Same (argAt args i) := by
  rw [argAt]
  split
  · exact C.rel_pure _
  · exact C.rel_fault nofun

include hat in
theorem same_lowerAsm (template : String) (isVolatile : Bool) :
    C.Same (lowerAsm node template isVolatile scope loc) :=
  C.rel_bind (same_scopesFrom _) fun _ => rel_ite (same_failAt hat rfl) (same_emitTo _ _ _ rfl)

include hat in
theorem same_checkSuspend : C.Same (checkSuspend node scope) := by
  refine C.rel_bind (same_scopesFrom _) fun scopes => rel_ite (same_failAt hat rfl) ?_
  refine rel_ite (same_failAt hat rfl) <| C.rel_bind (same_isComptimeAt _) fun _ => ?_
  exact rel_ite (same_failAt hat rfl) (C.rel_pure _)

end Routines

end Outline

/-! ### Comparing lowerings -/

/-- A relation between the routines of two lowerings in which any node may be at fault. -/
structure Comparison extends Outline where
  At := fun _ => True
  at_all : ∀ location, At location := by exact fun _ => trivial
  /-- Whether a statement without effect is worth a warning is an option. -/
  rel_warnIdle : ∀ {x x' : LowerM PUnit} (effectful : Bool) (node : Node), Rel x x' →
    Rel (do
      if (← read).options.warnNoEffect && !effectful then
        warnAt .noEffect "statement has no effect" node
      x) (do
      if (← read).options.warnNoEffect && !effectful then
        warnAt .noEffect "statement has no effect" node
      x')
  /-- An expression is remembered for a scope that has just been opened for it. -/
  rel_defer : ∀ scope kind expr, Rel (do
      let after ← openScope scope (.deferred kind)
      remember after expr
      return after) (do
      let after ← openScope scope (.deferred kind)
      remember after expr
      return after)
  rel_orDeclareFailed : ∀ {α : Type} {x x' : LowerM α} (node name scope), Rel x x' →
    Rel (orDeclareFailed x node name scope) (orDeclareFailed x' node name scope)
  rel_withFrame : ∀ {α : Type} {x x' : LowerM α} (location description), Rel x x' →
    Rel (withFrame location description x) (withFrame location description x')
  rel_lowerStatements : ∀ {parts parts' : Parts},
    (∀ node scope, Rel (parts.statement node scope) (parts'.statement node scope)) →
    ∀ statements scope, Rel (lowerStatements parts scope false statements)
      (lowerStatements parts' scope false statements)

/-- A comparison that is kept where a stream is put inside another one. -/
structure NestedComparison extends Comparison where
  rel_plain : ∀ {α : Type} {x : LowerM α}, PlainStep x → Rel x x
  rel_step h := rel_plain h.toPlainStep
  /-- The stream of a compile-time block, after whose failure the block fails. -/
  rel_inChildStream : ∀ {α β : Type} {x x' : LowerM α} {f f' : Nat × Option α → LowerM β}
    (name root), Rel x x' → (∀ unit, f (unit, none) = throw .poisoned) →
    (∀ unit, f' (unit, none) = throw .poisoned) →
    (∀ unit a, Rel (f (unit, some a)) (f' (unit, some a))) →
    Rel (inChildStream name root x >>= f) (inChildStream name root x' >>= f')

namespace Comparison

/-- The routines for parts of the two lowerings are related. -/
structure RelParts (C : Comparison) (parts parts' : Parts) : Prop where
  expr : ∀ node scope loc, C.Rel (parts.expr node scope loc) (parts'.expr node scope loc)
  statement : ∀ node scope, C.Rel (parts.statement node scope) (parts'.statement node scope)

end Comparison

end SourceIr.Lower
