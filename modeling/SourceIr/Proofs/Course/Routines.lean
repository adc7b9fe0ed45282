import SourceIr.Proofs.Course.Basic

/-!
# Courses of routines without parts

Most of what is done for a construct besides its parts makes minor changes only.  The rest opens
scopes, declares variables and fails.

* `Mild`, the routines that do not fail and make minor changes;
* `steers_openScope_bind`, `tracks_declare`, `tracks_failAt` and those like them;
* `Winds`, what is done after a failure, with `steers_attempt_bind`;
* `Closes`, what is done while a sink is open, with `steers_openSink`;
* `tracks_lowerSymbol` and those like it, the routines that lower no parts.
-/

namespace SourceIr.Lower

variable {env : Env} {s s' s'' : State} {α β : Type} {l : Nat} {t : Task} {c p : ScopeId}
  {ins : List ScopeId} {x : LowerM α} {f : α → LowerM β} {inner : α → List ScopeId}
  {inner' : β → List ScopeId}

/-! ### Minor changes -/

theorem Flowed.refl (sinks : List (ScopeId × BreakSink)) : Flowed sinks sinks :=
  List.forall₂_same.2 fun _ _ => ⟨rfl, rfl, List.prefix_rfl⟩

theorem Flowed.trans {a b d : List (ScopeId × BreakSink)} (h : Flowed a b) (h' : Flowed b d) :
    Flowed a d := by
  induction h generalizing d with
  | nil => exact h'
  | cons hab _ ih =>
    cases h' with
    | cons hbd hrest =>
      obtain ⟨hk, hloc, hin⟩ := hab
      obtain ⟨hk', hloc', hin'⟩ := hbd
      exact .cons ⟨hk'.trans hk, hloc'.trans hloc, hin.trans hin'⟩ (ih hrest)

/-- The same scopes have open sinks. -/
theorem Flowed.map_fst {a b : List (ScopeId × BreakSink)} (h : Flowed a b) :
    b.map (·.1) = a.map (·.1) := by
  induction h with
  | nil => rfl
  | cons hab _ ih => rw [List.map_cons, List.map_cons, hab.1, ih]

namespace Minor

theorem refl (s : State) : Minor s s :=
  ⟨rfl, rfl, rfl, List.prefix_rfl, rfl, List.prefix_rfl, rfl, rfl, rfl, rfl, .refl _, rfl⟩

theorem trans (h : Minor s s') (h' : Minor s' s'') : Minor s s'' where
  scopes := h'.scopes.trans h.scopes
  name := h'.name.trans h.name
  isInline := h'.isInline.trans h.isInline
  insts := h.insts.trans h'.insts
  errors := h'.errors.trans h.errors
  warnings := h.warnings.trans h'.warnings
  children := h'.children.trans h.children
  calls := h'.calls.trans h.calls
  streamRoot := h'.streamRoot.trans h.streamRoot
  deferred := h'.deferred.trans h.deferred
  sinks := h.sinks.trans h'.sinks
  failedVars := h'.failedVars.trans h.failedVars

end Minor

/-- How a routine ends that makes minor changes. -/
def MildEnd (s : State) : Except Stop α × State → Prop
  | (.ok _, s') => Minor s s'
  | (.error .poisoned, _) => False
  | (.error (.fault _), _) => True

/-- A routine that does not fail and makes minor changes only. -/
structure Mild (x : LowerM α) : Prop where
  ends : ∀ env s, MildEnd s (outcome x env s)

theorem mild_pure (a : α) : Mild (pure a) := ⟨fun _ s => .refl s⟩

theorem mild_fault (e : Fault) : Mild (throw (.fault e) : LowerM α) := ⟨fun _ _ => trivial⟩

theorem mild_bind (hx : Mild x) (hf : ∀ a, Mild (f a)) : Mild (x >>= f) := by
  refine ⟨fun env s => ?_⟩
  have ho := hx.ends env s
  rw [outcome_bind]
  rcases h : outcome x env s with ⟨(_ | _) | a, s'⟩ <;> rw [h] at ho
  · exact ho
  · trivial
  · have ho' := (hf a).ends env s'
    dsimp only
    rcases h' : outcome (f a) env s' with ⟨(_ | _) | b, s''⟩ <;> rw [h'] at ho'
    · exact ho'
    · trivial
    · exact Minor.trans ho ho'

theorem mild_map {g : α → β} (hx : Mild x) : Mild (g <$> x) := by
  rw [map_eq_pure_bind]
  exact mild_bind hx fun _ => mild_pure _

theorem mild_ite {q : Prop} [Decidable q] {y : LowerM α} (hx : Mild x) (hy : Mild y) :
    Mild (if q then x else y) := by
  split
  · exact hx
  · exact hy

theorem mild_get_bind {f : State → LowerM α} (h : ∀ s, Mild (f s)) : Mild (get >>= f) :=
  ⟨fun env s => (h s).ends env s⟩

theorem mild_read_bind {f : Env → LowerM α} (h : ∀ env, Mild (f env)) : Mild (read >>= f) :=
  ⟨fun env s => (h env).ends env s⟩

theorem mild_modify {g : State → State} (h : ∀ s, Minor s (g s)) :
    Mild (modify g : LowerM PUnit) := ⟨fun _ s => h s⟩

theorem mild_stopAt (e : Option Fault) : Mild (stopAt e) := by
  cases e with
  | some e => exact mild_fault e
  | none => exact mild_pure _

theorem mild_scopesFrom (scope : ScopeId) : Mild (scopesFrom scope) :=
  mild_get_bind fun _ => mild_bind (mild_stopAt _) fun _ => mild_pure _

theorem mild_scopeAt (scope : ScopeId) : Mild (scopeAt scope) := by
  refine mild_get_bind fun s => ?_
  dsimp only
  split
  · exact mild_pure _
  · exact mild_fault _

theorem mild_isTerminated : Mild isTerminated :=
  mild_get_bind fun _ => mild_bind (mild_stopAt _) fun _ => mild_pure _

theorem mild_isComptimeAt (scope : ScopeId) : Mild (isComptimeAt scope) :=
  mild_bind (mild_scopesFrom scope) fun _ => mild_get_bind fun _ => mild_pure _

theorem mild_currentBlock : Mild currentBlock := mild_get_bind fun _ => mild_pure _

theorem mild_sink? (scope : ScopeId) : Mild (sink? scope) := mild_get_bind fun _ => mild_pure _

theorem mild_lastInst : Mild lastInst := mild_get_bind fun _ => mild_pure _

theorem mild_leavesStream (scope : ScopeId) (target : Option ScopeId) :
    Mild (leavesStream scope target) :=
  mild_bind (mild_scopesFrom scope) fun _ => mild_get_bind fun _ => mild_pure _

theorem minor_withNext (kind : InstKind) (scope : ScopeId) (location : Option Location)
    (force gen : Bool) : Minor s (s.withNext kind scope location force gen) :=
  ⟨rfl, rfl, rfl, by simp [State.withNext, Stream.withNext], rfl, List.prefix_rfl, rfl, rfl, rfl,
    rfl, .refl _, rfl⟩

theorem mild_emitWith (kind : InstKind) (scope : ScopeId) (location : Option Location)
    (force gen : Bool) : Mild (emitWith kind scope location force gen) := by
  refine ⟨fun env s => ?_⟩
  obtain ⟨e, -, h⟩ | h := outcome_emitWith_cases (s := s) kind scope location force gen <;> rw [h]
  · trivial
  · exact minor_withNext kind scope location force gen

section Emission

variable (kind : InstKind) (scope : ScopeId) (location : Option Location) (node : Node)
  (loc : ResultLoc) (value : InstId) (stop : BlockId)

theorem mild_emit : Mild (emit kind scope location) := mild_emitWith ..

theorem mild_emitGen : Mild (emitGen kind scope location) := mild_emitWith ..

theorem mild_emitVoid : Mild (emitVoid scope location) := mild_emitWith ..

theorem mild_newBlock (name : String) : Mild (newBlock name) := ⟨fun _ _ =>
  ⟨rfl, rfl, rfl, List.prefix_rfl, rfl, List.prefix_rfl, rfl, rfl, rfl, rfl, .refl _, rfl⟩⟩

theorem mild_goto (b : BlockId) : Mild (goto b) := mild_modify fun _ =>
  ⟨rfl, rfl, rfl, List.prefix_rfl, rfl, List.prefix_rfl, rfl, rfl, rfl, rfl, .refl _, rfl⟩

theorem mild_warnAt (kind : DiagnosticKind) (message : String) :
    Mild (warnAt kind message node) := ⟨fun _ _ =>
  ⟨rfl, rfl, rfl, List.prefix_rfl, rfl, by simp [Stream.addWarning], rfl, rfl, rfl, rfl, .refl _,
    rfl⟩⟩

theorem mild_flowInto : Mild (flowInto scope value) := mild_modify fun s =>
  ⟨rfl, rfl, rfl, List.prefix_rfl, rfl, List.prefix_rfl, rfl, rfl, rfl, rfl, by
    rw [Flowed, List.forall₂_map_right_iff, List.forall₂_same]
    intro sink _
    split
    next h => exact ⟨h.symm, rfl, List.prefix_append _ _⟩
    next => exact ⟨rfl, rfl, List.prefix_rfl⟩, rfl⟩

theorem mild_setNameHint (init : Node) (name : String) : Mild (setNameHint init name) :=
  mild_modify fun _ =>
    ⟨rfl, rfl, rfl, List.prefix_rfl, rfl, List.prefix_rfl, rfl, rfl, rfl, rfl, .refl _, rfl⟩

theorem mild_takeNameHint : Mild (takeNameHint node) := by
  refine ⟨fun env s => ?_⟩
  simp only [takeNameHint, outcome_bind, outcome_get]
  split
  · split
    · exact ⟨rfl, rfl, rfl, List.prefix_rfl, rfl, List.prefix_rfl, rfl, rfl, rfl, rfl, .refl _, rfl⟩
    · exact .refl s
  · exact .refl s

theorem mild_countMade (m : Node.MemberSymbol) : Mild (countMade m) := by
  cases m with
  | written => exact mild_pure _
  | made symbol =>
    exact mild_modify fun _ =>
      ⟨rfl, rfl, rfl, List.prefix_rfl, rfl, List.prefix_rfl, rfl, rfl, rfl, rfl, .refl _, rfl⟩

/-! ### Results -/

theorem mild_resultPtr : Mild (resultPtr loc scope location) := by
  cases loc with
  | ret | alloc => exact mild_map (mild_emitGen ..)
  | existing | none | discard => exact mild_pure _

theorem mild_settle : Mild (settle loc scope location) := by
  cases loc with
  | alloc =>
    refine mild_bind (mild_resultPtr ..) fun ptr => ?_
    cases ptr <;> exact mild_pure _
  | _ => exact mild_pure _

theorem mild_deliver : Mild (deliver value loc scope location) := by
  cases loc with
  | existing ptr => exact mild_bind (mild_emitGen ..) fun _ => mild_pure _
  | alloc =>
    refine mild_bind (mild_resultPtr ..) fun ptr => ?_
    cases ptr with
    | some ptr => exact mild_bind (mild_emitGen ..) fun _ => mild_pure _
    | none => exact mild_pure _
  | _ => exact mild_pure _

theorem mild_emitTo : Mild (emitTo kind scope location loc) :=
  mild_bind (mild_emit ..) fun _ => mild_deliver ..

/-- The value of a block: that of the instruction that ends it, or void. -/
theorem mild_blockValue : Mild (do
    let terminated ← isTerminated
    let stream := (← get).stream
    match if terminated then stream.last? else none with
    | some stop => return stop
    | none =>
      let void ← emitVoid scope node.location
      deliver void loc scope node.location) := by
  refine mild_bind mild_isTerminated fun _ => mild_get_bind fun s => ?_
  dsimp only
  split
  · exact mild_pure _
  · exact mild_bind (mild_emitVoid ..) fun _ => mild_deliver ..

theorem mild_hasEffectSince (start : Nat) : Mild (hasEffectSince start) :=
  mild_get_bind fun _ => mild_bind (mild_stopAt _) fun _ => mild_pure _

/-- The checks on an expression that stands as a statement. -/
theorem mild_checkStatement (start : Nat) : Mild (do
    if !(← isTerminated) then
      let effectful ← hasEffectSince start
      if (← read).options.warnNoEffect && !effectful then
        warnAt .noEffect "statement has no effect" node
      let _ ← emitGen (.checkStatementIsVoid value) scope node.location) := by
  refine mild_bind mild_isTerminated fun terminated => ?_
  cases terminated with
  | true => exact mild_pure _
  | false =>
    have check : Mild (do let _ ← emitGen (.checkStatementIsVoid value) scope node.location) :=
      mild_bind (mild_emitGen ..) fun _ => mild_pure _
    refine mild_bind (mild_hasEffectSince start) fun effectful => mild_read_bind fun env => ?_
    exact mild_ite (mild_bind (mild_warnAt ..) fun _ => check) check

/-! ### Branches, loops and jumps -/

theorem mild_joinAt (incoming : List (BlockId × InstId)) :
    Mild (joinAt stop incoming scope node) :=
  mild_bind (mild_goto stop) fun _ => mild_ite (mild_emitGen ..) (mild_emitGen ..)

theorem mild_branchInto (incoming : List (BlockId × InstId)) (force : Bool) :
    Mild (branchInto stop incoming value scope force) :=
  mild_bind mild_isTerminated fun _ => mild_ite (mild_pure _) <|
    mild_bind mild_currentBlock fun _ => mild_bind (mild_emitWith ..) fun _ => mild_pure _

/-- Behind the operand that stands in for a value, the value itself where it is there. -/
theorem mild_unwrapInto (okBlock : BlockId) (standIn : InstId) : Mild (do
      let incoming ← branchInto stop [] standIn scope false
      goto okBlock
      let payload ← emitGen kind scope node.location
      let payload ← deliver payload loc scope node.location
      let incoming ← branchInto stop incoming payload scope false
      joinAt stop incoming scope node) :=
  mild_bind (mild_branchInto ..) fun _ => mild_bind (mild_goto _) fun _ =>
    mild_bind (mild_emitGen ..) fun _ => mild_bind (mild_deliver ..) fun _ =>
      mild_bind (mild_branchInto ..) fun _ => mild_joinAt ..

theorem mild_emitTest (payload : Option String) : Mild (emitTest node payload value scope) := by
  cases payload with
  | some _ => exact mild_emitGen ..
  | none => exact mild_pure _

theorem mild_newLoop (word : String) : Mild (newLoop word) :=
  mild_bind (mild_newBlock _) fun _ => mild_bind (mild_newBlock _) fun _ =>
    mild_bind (mild_newBlock _) fun _ => mild_bind (mild_newBlock _) fun _ =>
      mild_bind (mild_newBlock _) fun _ => mild_pure _

theorem mild_jumpUnlessTerminated (force : Bool) :
    Mild (jumpUnlessTerminated stop node scope force) := by
  refine mild_bind mild_isTerminated fun terminated => ?_
  cases terminated with
  | true => exact mild_pure _
  | false => exact mild_bind (mild_emitWith ..) fun _ => mild_pure _

theorem mild_stepIndex : Mild (stepIndex value node scope) :=
  mild_bind (mild_emitGen ..) fun _ => mild_bind (mild_emitGen ..) fun _ =>
    mild_bind (mild_emitGen ..) fun _ => mild_bind (mild_emitGen ..) fun _ => mild_pure _

/-- A way out of the function, unless control does not get that far. -/
theorem mild_returnUnlessTerminated {x : LowerM α} (gen : Bool) (hx : Mild x) : Mild (do
      if !(← isTerminated) then
        let _ ← emitWith kind scope location false gen
      x) := by
  refine mild_bind mild_isTerminated fun terminated => ?_
  cases terminated with
  | true => exact hx
  | false => exact mild_bind (mild_emitWith ..) fun _ => hx

/-! ### Types and aggregates -/

theorem mild_typeName (word : String) : Mild (typeName node scope word) := by
  refine mild_bind (mild_takeNameHint node) fun name => ?_
  cases name with
  | some name => exact mild_bind (mild_scopesFrom scope) fun _ => mild_pure _
  | none =>
    refine mild_bind (mild_scopesFrom scope) fun scopes => ?_
    dsimp only
    split
    · exact mild_bind (mild_scopeAt _) fun _ => mild_pure _
    · exact mild_pure _

theorem mild_fieldLoc (target : Option InstId) (field : FieldInit) :
    Mild (fieldLoc target field scope) := by
  cases target with
  | some ptr => exact mild_bind (mild_emitGen ..) fun _ => mild_pure _
  | none => exact mild_pure _

theorem mild_elementLoc (target : Option InstId) (index : Nat) :
    Mild (elementLoc target index node scope) := by
  cases target with
  | some ptr =>
    exact mild_bind (mild_emitGen ..) fun _ => mild_bind (mild_emitGen ..) fun _ => mild_pure _
  | none => exact mild_pure _

end Emission

/-! ### Steps of a course -/

theorem tracks_mild (hx : Mild x) : Tracks env (l + 1) t c ins x := by
  refine ⟨fun s _ => ?_⟩
  have ho := hx.ends env s
  rcases h : outcome x env s with ⟨(_ | _) | a, s'⟩ <;> rw [h] at ho
  · exact ho.elim
  · trivial
  · exact ⟨.minor ho, List.forall_mem_nil _⟩

theorem steers_mild (hx : Mild x) (hf : ∀ a, Steers env (l + 1) t c ins (f a) inner') :
    Steers env (l + 1) t c ins (x >>= f) inner' := steers_then (tracks_mild hx) hf

/-- A scope is opened inside one that may be used. -/
theorem steers_openScope {kind : ScopeKind} (hp : p ∈ ins) (hk : kind ≠ .comptime) :
    Steers env (l + 1) t c ins (openScope p kind) fun q => [q] := by
  refine ⟨fun s hs => ?_⟩
  obtain ⟨e, -, h⟩ | ⟨hlt, h⟩ := outcome_openScope_cases (s := s) p kind <;> rw [h]
  · trivial
  · refine ⟨.opened kind hlt, fun q hq => ?_⟩
    rw [List.mem_singleton.1 hq]
    exact ((hs p hp).grows (ScopeTree.grows_openUnder p kind)).trans
      (ScopeTree.inside_opened hlt hk)

theorem steers_openScope_bind {f : ScopeId → LowerM β} {kind : ScopeKind} (hp : p ∈ ins)
    (hk : kind ≠ .comptime) (hf : ∀ q, Steers env (l + 1) t c (q :: ins) (f q) inner') :
    Steers env (l + 1) t c ins (openScope p kind >>= f) inner' :=
  steers_bind (steers_openScope hp hk) hf

/-! ### Failures -/

theorem tracks_fail {m : Message} (h : ∀ s, (∀ p ∈ ins, s.scopes.Inside c p) → Fails env s t c m) :
    Steers env (l + 1) t c ins (fail m : LowerM α) inner := by
  refine ⟨fun s hs => ?_⟩
  obtain ⟨log, ho⟩ := @outcome_fail α env s m
  rw [ho]
  exact .failed (h s hs)

section Failures

variable {n : Node} {kind : DiagnosticKind} {message issuer : String}

/-- A failure that is laid to the node of the task, or to one of the nodes right below. -/
theorem tracks_failWith {m : Message} (hm : IsError m) (hn : n ∈ t.blamed)
    (hl : m.location = n.location) (hi : m.issuer ≠ "create_local_var")
    (hname : m.kind ≠ .unresolvedName) : Steers env (l + 1) t c ins (fail m : LowerM α) inner :=
  tracks_fail fun _ _ => .other hm hn hl hi fun h => absurd h hname

theorem tracks_failAt (hn : n ∈ t.blamed) (hk : kind.level = .error)
    (hi : issuer ≠ "create_local_var") (hname : kind ≠ .unresolvedName) :
    Steers env (l + 1) t c ins (failAt kind message issuer n : LowerM α) inner :=
  tracks_failWith (isError_ofKind hk) hn rfl hi hname

/-- A failure to resolve something else than an identifier. -/
theorem tracks_failUnresolved (hn : n ∈ t.blamed)
    (hi : issuer ≠ "create_local_var") (hne : ∀ name, message ≠ undeclared name) :
    Steers env (l + 1) t c ins (failAt .unresolvedName message issuer n : LowerM α) inner :=
  tracks_fail fun _ _ => .other (isError_ofKind rfl) hn rfl hi fun _ => hne

theorem toList_undeclared (name : String) :
    (undeclared name).toList =
      'u' :: "se of undeclared identifier '".toList ++ name.toList ++ ['\''] := by
  change ("use of undeclared identifier '" ++ name ++ "'").toList = _
  rw [String.toList_append, String.toList_append]
  rfl

theorem tracks_failTaken {note : String} {previous : Option Location}
    (hn : n ∈ t.blamed) (hi : issuer ≠ "create_local_var") :
    Steers env (l + 1) t c ins (failTaken message issuer n previous note : LowerM α) inner :=
  tracks_failWith ((isError_ofKind rfl).withNote _) hn rfl hi nofun

end Failures

/-! ### Declarations -/

/-- How a declaration ends: a name is refused if something is in its way. -/
inductive BindingEnd (env : Env) (s : State) (p : ScopeId) (r : BindingRequest) :
    Except Stop (Except Message VarId) × State → Prop
  | fault {e : Fault} : BindingEnd env s p r (.error (.fault e), s)
  | declared {var : VarId} {log : Array Event} (hp : p.index < s.scopes.scopes.size)
    (h : s.scopes.bindingError? p r env.table = none) :
    BindingEnd env s p r (.ok (.ok var), { s.declaring p r with log })
  | refused {m : Message} (h : s.scopes.bindingError? p r env.table = some m) :
    BindingEnd env s p r (.ok (.error m), s)

theorem bindingEnd_declare? (env : Env) (s : State) (p : ScopeId) (r : BindingRequest) :
    BindingEnd env s p r (outcome (declare? p r) env s) := by
  rw [declare?, outcome_bind, outcome_read]
  dsimp only
  rw [outcome_bind, outcome_get]
  dsimp only
  rw [outcome_bind]
  cases hf : s.scopes.bindingFault? p r with
  | some e => exact .fault
  | none =>
    rw [outcome_stopAt_none]
    dsimp only [ScopeTree.declare]
    cases he : s.scopes.bindingError? p r env.table with
    | some m => exact .refused he
    | none => exact .declared (ScopeTree.lt_of_bindingFault?_eq_none hf) he

theorem tracks_declare {r : BindingRequest} (hr : t.Requests r) :
    Tracks env (l + 1) t c ins (declare p r) := by
  refine ⟨fun s hs => ?_⟩
  have h := bindingEnd_declare? env s p r
  rw [declare, outcome_bind]
  generalize outcome (declare? p r) env s = o at h
  cases h with
  | fault => trivial
  | declared hp h => exact ⟨.declared hr hp h, List.forall_mem_nil _⟩
  | @refused m h =>
    obtain ⟨log, ho⟩ := @outcome_fail VarId env s m
    dsimp only
    rw [ho]
    exact .failed (.taken hr h)

/-! ### After a failure -/

/-- What is done after a failure keeps to a course, and does not return. -/
structure Winds (env : Env) (l : Nat) (t : Task) (c : ScopeId) (ins : List ScopeId)
    (x : LowerM α) : Prop where
  ends : ∀ s, (∀ p ∈ ins, s.scopes.Inside c p) → match outcome x env s with
    | (.ok _, _) => False
    | (.error .poisoned, s') => ∃ ok, Course env ok l t c s s'
    | (.error (.fault _), _) => True

theorem winds_throw : Winds env l t c ins (throw .poisoned : LowerM α) := ⟨fun _ _ => ⟨_, .refl⟩⟩

theorem winds_bind {ins' : List ScopeId} (hx : Steers env l t c ins x fun _ => ins')
    (hf : ∀ a, Winds env l t c (ins' ++ ins) (f a)) : Winds env l t c ins (x >>= f) := by
  refine ⟨fun s hs => ?_⟩
  have ho := hx.ends s hs
  rw [outcome_bind]
  rcases h : outcome x env s with ⟨(_ | _) | a, s'⟩ <;> rw [h] at ho
  · exact ⟨_, ho⟩
  · trivial
  · have hb := (hf a).ends s' fun p hp => (List.mem_append.1 hp).elim (ho.2 p) fun hp =>
      (hs p hp).grows ho.1.grows
    dsimp only
    rcases h' : outcome (f a) env s' with ⟨(_ | _) | b, s''⟩ <;> rw [h'] at hb
    · exact hb.imp fun _ hb => .trans ho.1 hb
    · trivial
    · exact hb

theorem winds_then (hx : Tracks env l t c ins x) (hf : ∀ a, Winds env l t c ins (f a)) :
    Winds env l t c ins (x >>= f) := winds_bind hx hf

theorem winds_read_bind {f : Env → LowerM β} (h : Winds env l t c ins (f env)) :
    Winds env l t c ins (read >>= f) := ⟨h.ends⟩

/-- The failure of an attempt is made good by what fails in the end. -/
theorem steers_attempt_bind {f : Option α → LowerM β} (hx : Steers env l t c ins x inner)
    (hok : ∀ a, Steers env l t c (inner a ++ ins) (f (some a)) inner')
    (hfailed : Winds env l t c ins (f none)) :
    Steers env l t c ins (attempt x >>= f) inner' := by
  refine ⟨fun s hs => ?_⟩
  have ho := hx.ends s hs
  rw [outcome_bind, outcome_attempt]
  rcases h : outcome x env s with ⟨(_ | _) | a, s'⟩ <;> rw [h] at ho
  · have hb := hfailed.ends s' fun p hp => (hs p hp).grows (Course.grows ho)
    dsimp only
    rcases h' : outcome (f none) env s' with ⟨(_ | _) | b, s''⟩ <;> rw [h'] at hb
    · exact hb.elim fun _ hb => .resume ho hb
    · trivial
    · exact hb.elim
  · trivial
  · refine .before ho.1 ((hok a).ends s' fun p hp => ?_)
    exact (List.mem_append.1 hp).elim (ho.2 p) fun hp => (hs p hp).grows ho.1.grows

theorem winds_attempt_bind {f : Option α → LowerM β} (hx : Steers env l t c ins x inner)
    (hok : ∀ a, Winds env l t c (inner a ++ ins) (f (some a)))
    (hfailed : Winds env l t c ins (f none)) : Winds env l t c ins (attempt x >>= f) := by
  refine ⟨fun s hs => ?_⟩
  have ho := hx.ends s hs
  rw [outcome_bind, outcome_attempt]
  rcases h : outcome x env s with ⟨(_ | _) | a, s'⟩ <;> rw [h] at ho
  · have hb := hfailed.ends s' fun p hp => (hs p hp).grows (Course.grows ho)
    dsimp only
    rcases h' : outcome (f none) env s' with ⟨(_ | _) | b, s''⟩ <;> rw [h'] at hb
    · exact hb.elim fun _ hb => ⟨_, .resume ho hb⟩
    · trivial
    · exact hb
  · trivial
  · have hb := (hok a).ends s' fun p hp => (List.mem_append.1 hp).elim (ho.2 p) fun hp =>
      (hs p hp).grows ho.1.grows
    dsimp only
    rcases h' : outcome (f (some a)) env s' with ⟨(_ | _) | b, s''⟩ <;> rw [h'] at hb
    · exact hb.imp fun _ hb => .trans ho.1 hb
    · trivial
    · exact hb

theorem winds_declareFailed {node : Node} {name : String}
    (hr : t.Requests (.named name node.location)) :
    Winds env (l + 1) t c ins (declareFailed node name p : LowerM α) := by
  refine ⟨fun s _ => ?_⟩
  have h := bindingEnd_declare? env s p (.named name node.location)
  rw [declareFailed, outcome_bind]
  generalize outcome (declare? p (.named name node.location)) env s = o at h
  cases h with
  | fault => trivial
  | declared hp h => exact ⟨_, .trans (.declared hr hp h) .marked⟩
  | refused => exact ⟨true, .refl⟩

theorem tracks_orDeclareFailed {node : Node} {name : String}
    (hr : t.Requests (.named name node.location)) (hx : Tracks env (l + 1) t c ins x) :
    Tracks env (l + 1) t c ins (orDeclareFailed x node name p) :=
  steers_attempt_bind hx (fun _ => tracks_pure) (winds_declareFailed hr)

/-! ### Open sinks -/

/-- How what is done while the sink of a scope is open ends: it is closed at some point, unless
something fails before. -/
def ClosesEnd (env : Env) (l : Nat) (t : Task) (c : ScopeId) (q : ScopeId)
    (inner : α → List ScopeId) (s : State) (o : Except Stop α × State) : Prop :=
  (∃ s', Course env true l t c s s' ∧
    Course.Ends env l t c inner { s' with sinks := s'.sinks.filter (·.1 != q) } o) ∨
  Course.Ends env l t c inner s o ∧ ∀ a, o.1 ≠ .ok a

/-- While the sink of a scope is open, a routine keeps to a course and closes it. -/
structure Closes (env : Env) (l : Nat) (t : Task) (c : ScopeId) (ins : List ScopeId) (q : ScopeId)
    (x : LowerM α) (inner : α → List ScopeId) : Prop where
  ends : ∀ s, (∀ p ∈ ins, s.scopes.Inside c p) → ClosesEnd env l t c q inner s (outcome x env s)

section Closes

variable {q : ScopeId}

theorem closes_bind (hx : Steers env l t c ins x inner)
    (hf : ∀ a, Closes env l t c (inner a ++ ins) q (f a) inner') :
    Closes env l t c ins q (x >>= f) inner' := by
  refine ⟨fun s hs => ?_⟩
  have ho := hx.ends s hs
  rw [outcome_bind]
  rcases h : outcome x env s with ⟨(_ | _) | a, s'⟩ <;> rw [h] at ho
  · exact .inr ⟨ho, nofun⟩
  · exact .inr ⟨trivial, nofun⟩
  · obtain ⟨v, hv, hend⟩ | ⟨hend, hne⟩ := (hf a).ends s' fun p hp =>
      (List.mem_append.1 hp).elim (ho.2 p) fun hp => (hs p hp).grows ho.1.grows
    · exact .inl ⟨v, .trans ho.1 hv, hend⟩
    · exact .inr ⟨.before ho.1 hend, hne⟩

theorem closes_then (hx : Tracks env l t c ins x) (hf : ∀ a, Closes env l t c ins q (f a) inner') :
    Closes env l t c ins q (x >>= f) inner' := closes_bind hx hf

theorem closes_mild (hx : Mild x) (hf : ∀ a, Closes env (l + 1) t c ins q (f a) inner') :
    Closes env (l + 1) t c ins q (x >>= f) inner' := closes_then (tracks_mild hx) hf

/-- The sink is closed. -/
theorem closes_closeSink_bind {f : List (BlockId × InstId) → LowerM β}
    (hf : ∀ incoming, Steers env l t c ins (f incoming) inner') :
    Closes env l t c ins q (closeSink q >>= f) inner' := by
  refine ⟨fun s hs => .inl ⟨s, .refl, ?_⟩⟩
  exact (hf _).ends { s with sinks := s.sinks.filter (·.1 != q) } hs

end Closes

/-- A sink is opened with its scope, and closed in the end. -/
theorem steers_openSink {f : ScopeId → LowerM β} {kind : ScopeKind} {loc : ResultLoc}
    (hp : p ∈ ins) (hk : kind ≠ .comptime)
    (hf : ∀ q, Closes env (l + 1) t c (q :: ins) q (f q) inner') :
    Steers env (l + 1) t c ins (do
      let q ← openScope p kind
      openSink q loc
      f q) inner' := by
  refine ⟨fun s hs => ?_⟩
  rw [outcome_bind]
  obtain ⟨e, -, h⟩ | ⟨hlt, h⟩ := outcome_openScope_cases (s := s) p kind <;> rw [h]
  · trivial
  change Course.Ends env (l + 1) t c inner' s (outcome (f s.top) env
    { s.opening p kind with sinks := (s.top, ⟨loc, []⟩) :: s.sinks })
  obtain ⟨v, hv, hend⟩ | ⟨hend, hne⟩ := (hf s.top).ends
    { s.opening p kind with sinks := (s.top, ⟨loc, []⟩) :: s.sinks } fun q hq => by
      rcases List.mem_cons.1 hq with rfl | hq
      · exact ((hs p hp).grows (ScopeTree.grows_openUnder p kind)).trans
          (ScopeTree.inside_opened hlt hk)
      · exact (hs q hq).grows (ScopeTree.grows_openUnder p kind)
  · exact .before (.sink hlt hv) hend
  · revert hend hne
    generalize outcome (f s.top) env
      { s.opening p kind with sinks := (s.top, ⟨loc, []⟩) :: s.sinks } = o
    intro hend hne
    obtain ⟨(_ | _) | a, s'⟩ := o
    · exact .sinkLeft hlt hend
    · trivial
    · exact absurd rfl (hne a)

/-! ### Names -/

theorem tracks_lowerSymbol {name : String} (ht : t.node ∈ t.blamed)
    (hk : t.node.kind = .symbol name) (lval : Bool) :
    Tracks env (l + 1) t c ins (lowerSymbol t.node name c lval) := by
  rw [lowerSymbol]
  split
  · exact tracks_failAt (ht) rfl (by decide) (by decide)
  next hname =>
    split
    · refine steers_ite (tracks_failAt (ht) rfl (by decide) (by decide)) ?_
      exact tracks_mild (mild_emit ..)
    next hprimitive =>
      refine ⟨fun s hs => ?_⟩
      rw [outcome_bind]
      obtain ⟨e, -, h⟩ | h := outcome_scopesFrom_cases (s := s) c <;> rw [h]
      · trivial
      dsimp only
      rw [outcome_bind, outcome_read]
      dsimp only
      cases hl : s.scopes.lookup c name env.table with
      | none =>
        obtain ⟨log, ho⟩ := @outcome_fail InstId env s (.ofKind .unresolvedName (undeclared name)
          "lower_symbol" t.node.location t.node.span)
        change Course.Ends _ _ _ _ _ _ (outcome (fail (.ofKind .unresolvedName (undeclared name)
          "lower_symbol" t.node.location t.node.span)) env s)
        rw [ho]
        exact .failed (.undeclared ht hk hname (Bool.eq_false_iff.2 hprimitive) hl)
      | some r =>
        cases r with
        | decl d => exact (tracks_mild (mild_emit ..)).ends s hs
        | var v =>
          dsimp only
          rw [outcome_bind, outcome_get]
          dsimp only
          split
          next hlost => exact .lost (List.ne_nil_of_mem (List.contains_iff_mem.1 hlost))
          next =>
            refine (steers_mild (mild_emit ..) fun ptr => ?_).ends s hs
            exact steers_ite tracks_pure (tracks_mild (mild_emit ..))

theorem requests_named {name : String} {location : Option Location} {r : BindingRequest}
    (hb : t.Binds name location) (hn : r.name = some name) (hl : r.location = location) :
    t.Requests r := by
  intro name' hname'
  rw [hn] at hname'
  rw [← Option.some.inj hname', hl]
  exact hb

theorem steers_bindPayload {name : String} {value : InstId} (hp : p ∈ ins)
    (hb : name ≠ "_" → t.Binds name t.node.location) :
    Steers env (l + 1) t c ins (bindPayload p name value t.node) fun q => [q] := by
  refine steers_openScope_bind hp (by simp) fun q => ?_
  have returned : Steers env (l + 1) t c (q :: ins) (pure q) fun q => [q] := steers_pure (by simp)
  split
  · exact returned
  next hname =>
    refine steers_mild (mild_emitGen ..) fun _ => steers_mild (mild_emitGen ..) fun _ => ?_
    refine steers_then (tracks_declare (requests_named (hb hname) rfl rfl)) fun _ => ?_
    exact steers_mild (mild_emitGen ..) fun _ => returned

theorem steers_enterBranch {payload : Option String} {cond : InstId} (hp : p ∈ ins)
    (hb : ∀ name ∈ payload, name ≠ "_" → t.Binds name t.node.location) :
    Steers env (l + 1) t c ins (enterBranch t.node payload cond p) fun q => [q] := by
  cases payload with
  | some name => exact steers_mild (mild_emitGen ..) fun _ => steers_bindPayload hp (hb name rfl)
  | none => exact steers_pure (by simpa using hp)

/-! ### Jumps -/

theorem ne_undeclared_of_label (label name : String) :
    s!"label not found: '{label}'" ≠ undeclared name := by
  intro h
  have h := congrArg String.toList h
  rw [toList_undeclared, String.toList_append, String.toList_append] at h
  exact absurd (List.cons.inj h).1 (by decide)

theorem tracks_breakScope (ht : t.node ∈ t.blamed) (label : Option String) :
    Tracks env (l + 1) t c ins (breakScope t.node label p) := by
  refine steers_mild (mild_scopesFrom _) fun scopes => ?_
  split
  · exact tracks_pure
  · exact tracks_failAt (ht) rfl (by decide) (by decide)
  next label _ =>
    exact tracks_failUnresolved (ht) (by decide) (ne_undeclared_of_label label)
  next label _ =>
    exact tracks_failUnresolved (ht) (by decide) (ne_undeclared_of_label label)
  · exact tracks_failAt (ht) rfl (by decide) (by decide)

theorem tracks_continueScope (ht : t.node ∈ t.blamed) (label : Option String) :
    Tracks env (l + 1) t c ins (continueScope t.node label p) := by
  refine steers_mild (mild_scopesFrom _) fun scopes => ?_
  split
  · exact tracks_pure
  · exact tracks_failAt (ht) rfl (by decide) (by decide)
  · exact tracks_failAt (ht) rfl (by decide) (by decide)
  next label _ =>
    exact tracks_failUnresolved (ht) (by decide) (ne_undeclared_of_label label)
  · exact tracks_failAt (ht) rfl (by decide) (by decide)

theorem tracks_checkFnExit (ht : t.node ∈ t.blamed) (exit : FnExit) :
    Tracks env (l + 1) t c ins (checkFnExit t.node p exit) := by
  have failed : ∀ message, Tracks env (l + 1) t c ins
      (failAt .invalidConstruct message "lower_control" t.node : LowerM PUnit) := fun _ =>
    tracks_failAt (ht) rfl (by decide) (by decide)
  refine steers_mild (mild_scopesFrom _) fun scopes => steers_ite (failed _) ?_
  refine steers_ite (failed _) <| steers_mild (mild_leavesStream ..) fun _ => ?_
  exact steers_ite (failed _) tracks_pure

/-! ### Types and aggregates -/

theorem tracks_memberNames {decls : List Node} (h : decls ⊆ t.blamed) (seen : Seen) :
    Tracks env (l + 1) t c ins (memberNames seen decls) := by
  induction decls generalizing seen with
  | nil => exact tracks_pure
  | cons decl rest ih =>
    obtain ⟨hdecl, hrest⟩ := List.cons_subset.1 h
    have ih := ih hrest
    rw [memberNames]
    split
    · exact ih _
    refine steers_ite ?_ (steers_then (ih _) fun _ => tracks_pure)
    split
    · exact tracks_failTaken hdecl (by decide)
    · exact steers_then (ih _) fun _ => tracks_pure

theorem tracks_checkOpaque {fields : List Node} (h : fields ⊆ t.blamed)
    (kind : ContainerKind) : Tracks env (l + 1) t c ins (checkOpaque kind fields) := by
  cases fields with
  | nil => exact tracks_pure
  | cons field rest =>
    exact steers_ite (tracks_failAt (h List.mem_cons_self) rfl (by decide) (by decide)) tracks_pure

theorem tracks_errorNames {members : List Node} (h : members ⊆ t.blamed) (seen : Seen) :
    Tracks env (l + 1) t c ins (errorNames seen members) := by
  induction members generalizing seen with
  | nil => exact tracks_pure
  | cons member rest ih =>
    obtain ⟨hmember, hrest⟩ := List.cons_subset.1 h
    rw [errorNames]
    split
    · refine steers_mild (mild_countMade _) fun _ => ?_
      split
      · exact tracks_failTaken hmember (by decide)
      · exact steers_then (ih hrest _) fun _ => tracks_pure
    · exact tracks_failAt hmember rfl (by decide) (by decide)

theorem tracks_lowerErrorSet {members : List Node} (h : members ⊆ t.blamed)
    (loc : ResultLoc) : Tracks env (l + 1) t c ins (lowerErrorSet t.node members p loc) :=
  steers_mild (mild_typeName ..) fun _ => steers_then (tracks_errorNames h _) fun _ =>
    tracks_mild (mild_emitTo ..)

/-! ### Calls, assembly and suspension -/

theorem tracks_checkModifier (ht : t.node ∈ t.blamed) (modifier : CallModifier) (forced : Bool) :
    Tracks env (l + 1) t c ins (checkModifier t.node modifier forced) := by
  rw [checkModifier]
  split
  · exact tracks_failAt (ht) rfl (by decide) (by decide)
  · exact tracks_pure

theorem tracks_lowerAsm (ht : t.node ∈ t.blamed) (template : String) (isVolatile : Bool)
    (loc : ResultLoc) :
    Tracks env (l + 1) t c ins (lowerAsm t.node template isVolatile p loc) :=
  steers_mild (mild_scopesFrom _) fun _ =>
    steers_ite (tracks_failAt (ht) rfl (by decide) (by decide)) (tracks_mild (mild_emitTo ..))

theorem tracks_checkSuspend (ht : t.node ∈ t.blamed) :
    Tracks env (l + 1) t c ins (checkSuspend t.node p) := by
  refine steers_mild (mild_scopesFrom _) fun scopes =>
    steers_ite (tracks_failAt (ht) rfl (by decide) (by decide)) ?_
  refine steers_ite (tracks_failAt (ht) rfl (by decide) (by decide)) <|
    steers_mild (mild_isComptimeAt _) fun _ => ?_
  exact steers_ite (tracks_failAt (ht) rfl (by decide) (by decide)) tracks_pure

end SourceIr.Lower
