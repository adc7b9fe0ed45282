import SourceIr.Proofs.Joins.State

/-!
# Routines that start the joins they make

A routine that starts where every join so far has its values collected, and returns, leads to such a
state again.  Between the blocks of one construct its join is still open; the rules for going from
one block to the next say what is collected for it there.

* `Joins`, the routines that lead from one such state to another, with the rules for what they are
  made of;
* `joins_newJoin`, `joins_branchInto`, `joins_openTarget_bind`, `joins_flowInto`, `joins_closeSink`,
  `joins_joinAt`, the life of a join;
* `joining`, the logic of the routines that start every join that they make.
-/

namespace SourceIr.Lower

open SourceIr.Stream Join

/-- A routine that leads from a state in which the values of joins are collected to such a state, if
it returns. -/
def Joins {α : Type} (env : Env) (s : State) (x : LowerM α) (Q : State → α → Prop) : Prop :=
  Joined s → ∀ a s', Returns x env s a s' → Joined s' ∧ Q s' a

variable {env : Env} {s₀ s s' : State} {scope : ScopeId} {stop b : BlockId}
  {incoming : List (BlockId × InstId)} {α β : Type} {x : LowerM α} {f : α → LowerM β}
  {Q R : State → α → Prop}

theorem joins_pure {a : α} (h : Q s a) : Joins env s (pure a) Q := by
  intro hs b s' hr
  obtain ⟨rfl, rfl⟩ := returns_pure.1 hr
  exact ⟨hs, h⟩

theorem joins_bind {Q : State → β → Prop} (hx : Joins env s x R)
    (hf : ∀ s' a, R s' a → Joins env s' (f a) Q) : Joins env s (x >>= f) Q := by
  intro hs b s'' hr
  obtain ⟨a, s', hra, hrb⟩ := returns_bind.1 hr
  obtain ⟨hs', hR⟩ := hx hs a s' hra
  exact hf s' a hR hs' b s'' hrb

theorem joins_mono (h : Joins env s x R) (hQ : ∀ s' a, R s' a → Q s' a) : Joins env s x Q := by
  intro hs a s' hr
  obtain ⟨hs', hR⟩ := h hs a s' hr
  exact ⟨hs', hQ s' a hR⟩

/-- What is known of the state at the start may be used. -/
theorem joins_of_joined (h : Joined s → Joins env s x Q) : Joins env s x Q := fun hs => h hs hs

/-- A routine returns only where another one does. -/
theorem joins_of_imp {y : LowerM α} (hy : Joins env s y Q)
    (h : ∀ a s', Returns x env s a s' → Returns y env s a s') : Joins env s x Q :=
  fun hs a s' hr => hy hs a s' (h a s' hr)

/-- A routine that only goes to another state. -/
theorem joins_step {a : α} {t : State} (hr : outcome x env s = (.ok a, t))
    (h : Joined s → Joined t ∧ Q t a) : Joins env s x Q := by
  intro hs b s' ht
  rw [Returns, hr] at ht
  obtain ⟨ha, rfl⟩ := Prod.mk.inj ht
  cases ha
  exact h hs

/-- A routine that fails leads nowhere. -/
theorem joins_of_fails (h : ∀ a s', ¬ Returns x env s a s') : Joins env s x Q :=
  fun _ a s' hr => absurd hr (h a s')

theorem joins_throw {e : Stop} : Joins env s (throw e) Q :=
  joins_of_fails fun _ _ => not_returns_throw

theorem joins_fail {m : Message} : Joins env s (fail m) Q :=
  joins_of_fails fun _ _ => not_returns_fail

/-- An attempt, if what follows a failure never returns. -/
theorem joins_attempt_bind {f : Option α → LowerM β} {Q : State → β → Prop} (hx : Joins env s x R)
    (hsome : ∀ s' a, R s' a → Joins env s' (f (some a)) Q)
    (hnone : ∀ t b s', ¬ Returns (f none) env t b s') : Joins env s (attempt x >>= f) Q := by
  intro hs b s'' hr
  obtain ⟨r, s', hra, hrb⟩ := returns_bind.1 hr
  cases r with
  | none => exact absurd hrb (hnone s' b s'')
  | some a =>
    obtain ⟨hs', hR⟩ := hx hs a s' (returns_attempt_some.1 hra)
    exact hsome s' a hR hs' b s'' hrb

theorem joins_orDeclareFailed {node : Node} {name : String} (h : Joins env s x Q) :
    Joins env s (orDeclareFailed x node name scope) Q :=
  fun hs a s' hr => h hs a s' hr.of_orDeclareFailed

/-! ### Reading the state -/

theorem joins_get_bind {f : State → LowerM α} (h : Joins env s (f s) Q) :
    Joins env s (get >>= f) Q :=
  joins_of_imp h fun _ _ => returns_get_bind.1

theorem joins_read_bind {f : Env → LowerM α} (h : Joins env s (f env) Q) :
    Joins env s (read >>= f) Q :=
  joins_of_imp h fun _ _ => returns_read_bind.1

theorem joins_scopesFrom_bind {f : ScopeTree → LowerM α} (h : Joins env s (f s.scopes) Q) :
    Joins env s (scopesFrom scope >>= f) Q :=
  joins_of_imp h fun _ _ => returns_scopesFrom_bind

theorem joins_scopeAt_bind {f : Scope → LowerM α}
    (h : ∀ x, s.scopes.scope? scope = some x → Joins env s (f x) Q) :
    Joins env s (scopeAt scope >>= f) Q := by
  intro hs a s' hr
  obtain ⟨x, hx, hf⟩ := returns_scopeAt_bind hr
  exact h x hx hs a s' hf

theorem joins_isTerminated_bind {f : Bool → LowerM α}
    (h : ∀ terminated, Joins env s (f terminated) Q) : Joins env s (isTerminated >>= f) Q :=
  joins_of_imp (h _) fun _ _ => returns_isTerminated_bind

theorem joins_currentBlock_bind {f : BlockId → LowerM α}
    (h : Joins env s (f s.stream.currentBlock) Q) : Joins env s (currentBlock >>= f) Q := by
  refine joins_bind (R := fun s' b => s' = s ∧ b = s.stream.currentBlock)
    (joins_get_bind (joins_pure ⟨rfl, rfl⟩)) ?_
  rintro s' b ⟨rfl, rfl⟩
  exact h

theorem joins_hasEffectSince_bind {start : Nat} {f : Bool → LowerM α}
    (h : ∀ effectful, Joins env s (f effectful) Q) :
    Joins env s (hasEffectSince start >>= f) Q := by
  intro hs a s' hr
  obtain ⟨effectful, hf⟩ := returns_hasEffectSince_bind hr
  exact h effectful hs a s' hf

theorem joins_lastInst : Joins env s lastInst fun s' _ => Le s s' :=
  joins_get_bind (joins_pure (.refl s))

/-! ### Steps without a branch -/

theorem joins_quiet {u : LowerM PUnit} (hu : outcome u env s = (.ok ⟨⟩, s')) (h : Quiet s s') :
    Joins env s u fun s' _ => Le s s' :=
  joins_step hu (·.quiet h)

theorem joins_warnAt {kind : DiagnosticKind} {message : String} {node : Node} :
    Joins env s (warnAt kind message node) fun s' _ => Le s s' := by
  refine joins_get_bind ?_
  refine joins_bind (joins_quiet outcome_note ⟨rfl, rfl, rfl, rfl, rfl, rfl⟩) fun s₁ _ le₁ => ?_
  exact joins_step (outcome_modify _) fun hs₁ =>
    ⟨(hs₁.addWarning _).1, le₁.le (hs₁.addWarning _).2⟩

theorem joins_goto (hb : Plain s b) : Joins env s (goto b) fun s' _ => Le s s' :=
  joins_step (outcome_modify _) (·.goto hb)

theorem joins_remember {expr : Node} : Joins env s (remember scope expr) fun s' _ => Le s s' :=
  joins_step (outcome_modify _) (·.withDeferred _)

theorem joins_declare? {r : BindingRequest} :
    Joins env s (declare? scope r) fun s' _ => Le s s' := by
  refine joins_read_bind (joins_get_bind (joins_of_imp ?_ fun _ _ hr => (returns_stopAt_bind hr).2))
  split
  next id scopes hd =>
    obtain ⟨rfl, rfl⟩ := Prod.mk.inj (ScopeTree.declare_eq_ok hd)
    refine joins_bind (R := fun s' _ => Le s s') (joins_step outcome_set fun hs => ?_)
      fun _ _ le => joins_pure le
    have hg := ScopeTree.grows_addVar (t := s.scopes) scope r
    obtain ⟨h₁, le₁⟩ := hs.withScopes hg (hs.scopes.addVar r)
    have hquiet : Quiet { s with scopes := (s.scopes.addVar scope r).2 }
        { s with
          scopes := (s.scopes.addVar scope r).2
          log := s.log.push (.declared (s.scopes.addVar scope r).1 scope) } :=
      ⟨rfl, rfl, rfl, rfl, rfl, rfl⟩
    obtain ⟨h₂, le₂⟩ := h₁.quiet hquiet
    exact ⟨h₂, le₁.le le₂⟩
  next => exact joins_pure (.refl s)

theorem joins_declare {r : BindingRequest} :
    Joins env s (declare scope r) fun s' _ => Le s s' := by
  refine joins_bind joins_declare? fun s₁ result le => ?_
  cases result with
  | ok id => exact joins_pure le
  | error m => exact joins_fail

/-- One scope lies inside another one, without the root of the stream between them. -/
def Join.Under (s : State) (scope inner : ScopeId) : Prop :=
  s.scopes.Under s.streamRoot scope inner

theorem Join.Under.le {inner : ScopeId} (h : Under s scope inner) (hs : In s scope)
    (hi : In s inner) (le : Le s s') : Under s' scope inner := by
  rw [Under, le.root]
  exact h.grows hs.index hi.index le.scopes

/-- A scope without jumps of its own. -/
theorem joins_openScope {kind : ScopeKind} (h : In s scope) (hk : exits kind = []) :
    Joins env s (openScope scope kind) fun s' inner =>
      Le s s' ∧ In s' inner ∧ Under s' scope inner ∧
        ∃ x, s'.scopes.scope? inner = some x ∧ x.kind = kind := by
  refine joins_step (outcome_openScope h.index) fun hs => ?_
  obtain ⟨hs', le⟩ := hs.withScopes (ScopeTree.grows_openUnder scope kind)
    (hs.scopes.openUnder h.index)
  exact ⟨hs', le, h.openUnder hs hk, ScopeTree.under_openUnder h.index hs.root_lt kind, _,
    ScopeTree.scope?_openUnder scope kind, rfl⟩

theorem joins_withFrame {location : Option Location} {description : String}
    (hx : ∀ s', Le s s' → Joins env s' x fun s'' a => Le s' s'' ∧ Q s'' a)
    (hQ : ∀ s' s'' a, Le s' s'' → Q s' a → Q s'' a) :
    Joins env s (withFrame location description x) fun s' a => Le s s' ∧ Q s' a := by
  refine joins_bind (joins_quiet (outcome_modify _) ⟨rfl, rfl, rfl, rfl, rfl, rfl⟩)
    fun s₁ _ le₁ => ?_
  refine joins_attempt_bind (hx s₁ le₁) (fun s₂ a ⟨le₂, ha⟩ => ?_) fun t b s' => ?_
  · refine joins_bind (joins_quiet (outcome_modify _) ⟨rfl, rfl, rfl, rfl, rfl, rfl⟩)
      fun s₃ _ le₃ => ?_
    exact joins_pure ⟨(le₁.le le₂).le le₃, hQ s₂ s₃ a le₃ ha⟩
  · exact not_returns_bind fun _ _ => not_returns_throw

/-! ### Instructions -/

section Emit

variable {kind : InstKind} {location : Option Location} {force gen : Bool}

/-- An instruction that joins no values and leads to no join. -/
theorem joins_emitWith (hphi : kind.isPhi = false) (ht : ∀ t ∈ kind.targets, Plain s t) :
    Joins env s (emitWith kind scope location force gen) fun s' _ => Le s s' :=
  fun hs _ _ hr => hs.appendPlain (returns_emitWith hr).2 hphi ht

/-- An instruction that has no say in where control goes. -/
theorem joins_emitPlain (hk : kind.isPlain) :
    Joins env s (emitWith kind scope location force gen) fun s' _ => Le s s' := by
  have ht : kind.targets = [] := by cases kind <;> first | rfl | cases hk
  have hphi : kind.isPhi = false := by cases kind <;> first | rfl | cases hk
  exact joins_emitWith hphi (by simp [ht])

theorem joins_emitVoid : Joins env s (emitVoid scope location) fun s' _ => Le s s' :=
  joins_emitPlain rfl

theorem joins_ret {operand : Option InstId} :
    Joins env s (emitWith (.ret operand) scope location force gen) fun s' _ => Le s s' :=
  joins_emitWith rfl nofun

theorem joins_br (hb : Plain s b) :
    Joins env s (emitWith (.br b) scope location force gen) fun s' _ => Le s s' :=
  joins_emitWith rfl fun _ ht => List.mem_singleton.1 ht ▸ hb

theorem joins_condBr {test : InstId} {thenBlock elseBlock : BlockId} (ht : Plain s thenBlock)
    (he : Plain s elseBlock) :
    Joins env s (emitWith (.condBr test thenBlock elseBlock) scope location force gen)
      fun s' _ => Le s s' := by
  refine joins_emitWith rfl fun t h => ?_
  obtain rfl | rfl : t = thenBlock ∨ t = elseBlock := by simpa [InstKind.targets] using h
  · exact ht
  · exact he

/-- An instruction that leads to the join of the construct, with a value from the current block. -/
theorem joins_arrive (o : Open s₀ stop incoming s) (value : InstId) (hphi : kind.isPhi = false)
    (hmem : stop ∈ kind.targets) (ht : ∀ t ∈ kind.targets, t ≠ stop → Plain s t) :
    Joins env s (emitWith kind scope location force gen) fun s' _ =>
      Open s₀ stop (incoming ++ [(s.stream.currentBlock, value)]) s' :=
  fun hs _ _ hr => hs.appendOpen o (returns_emitWith hr).2 hphi hmem ht value

end Emit

/-! ### The life of a join -/

section Join

variable {name : String} {kind : ScopeKind} {loc : ResultLoc} {location : Option Location}
  {force gen : Bool} {value : InstId} {node : Node}

/-- A block is made that is no join. -/
theorem joins_newBlock (hname : isJoinName name = false) :
    Joins env s (newBlock name) fun s' b => Le s s' ∧ Plain s' b :=
  joins_step (t := { s with stream := (s.stream.newBlock name).2 }) (a := ⟨s.stream.blocks.size⟩)
    rfl fun hs => ⟨hs.newBlock name, le_newBlock s hname⟩

/-- A join is made. -/
theorem joins_newJoin (hname : isJoinName name) :
    Joins env s (newBlock name) fun s' stop => Open s stop [] s' :=
  joins_step (t := { s with stream := (s.stream.newBlock name).2 }) (a := ⟨s.stream.blocks.size⟩)
    rfl fun hs => ⟨hs.newBlock name, hs.newJoin hname⟩

theorem joins_branchInto (o : Open s₀ stop incoming s) :
    Joins env s (branchInto stop incoming value scope force) fun s' incoming =>
      Open s₀ stop incoming s' := by
  refine joins_isTerminated_bind fun terminated => ?_
  split
  · exact joins_pure o
  · refine joins_currentBlock_bind
      (joins_bind (joins_arrive o value rfl (by simp [InstKind.targets])
      fun t ht hne => absurd (List.mem_singleton.1 ht) hne) fun s' _ o => joins_pure o)

/-- A scope is opened whose sink collects what arrives at a join. -/
theorem joins_openTarget_bind {f : ScopeId → LowerM α} (o : Open s₀ stop [] s) (hs : In s scope)
    (hstop : breakBlock? kind = some stop)
    (hstep : ∀ step, continueBlock? kind = some step → Plain s step)
    (h : ∀ s' inner, Sunk s₀ stop inner s' → In s' inner → Joins env s' (f inner) Q) :
    Joins env s (do
      let inner ← openScope scope kind
      openSink inner loc
      f inner) Q := by
  have hopen : Joins env s (do
      let inner ← openScope scope kind
      openSink inner loc
      return inner) fun s' inner => Sunk s₀ stop inner s' ∧ In s' inner :=
    joins_step (by rw [outcome_bind, outcome_openScope hs.index]; rfl) fun hj =>
      hj.withTarget o hs hstop hstep loc
  have := joins_bind hopen fun s' inner ⟨hsunk, hin⟩ => h s' inner hsunk hin
  simpa only [bind_assoc, pure_bind] using this

/-- A value flows into the sink of a scope, and control goes to where it arrives. -/
theorem joins_flowInto {scope' : ScopeId} (h : Feeds s scope stop) :
    Joins env s (do
      flowInto scope value
      emitWith (.br stop) scope' location force gen) fun s' _ => Le s s' := by
  intro hs v s' hr
  obtain ⟨_, s₁, h₁, hr⟩ := returns_bind.1 hr
  obtain rfl := returns_modify.1 h₁
  exact hs.appendSunk h value (returns_emitWith hr).2

theorem joins_flowInto_bind {scope' : ScopeId} {f : InstId → LowerM α} (h : Feeds s scope stop)
    (hf : ∀ s' v, Le s s' → Joins env s' (f v) Q) :
    Joins env s (do
      flowInto scope value
      let v ← emitWith (.br stop) scope' location force gen
      f v) Q := by
  rw [← bind_assoc]
  exact joins_bind (joins_flowInto h) hf

theorem joins_closeSink (h : Sunk s₀ stop scope s) :
    Joins env s (closeSink scope) fun s' incoming => Open s₀ stop incoming s' :=
  joins_step (t := { s with sinks := s.sinks.filter (·.1 != scope) }) rfl (·.closeSink h)

/-- A join is started with what has been collected for it. -/
theorem joins_joinAt (o : Open s₀ stop incoming s) :
    Joins env s (joinAt stop incoming scope node) fun s' _ => Le s₀ s' := by
  intro hs v s' hr
  obtain ⟨_, s₁, h₁, hr⟩ := returns_bind.1 hr
  obtain rfl := returns_modify.1 h₁
  have harr := o.awaits.arrivals
  split at hr
  next hnil =>
    obtain rfl := List.isEmpty_iff.1 hnil
    exact hs.start o (returns_emitWith hr).2 (.inr ⟨rfl, harr.symm⟩)
  next hne =>
    exact hs.start o (returns_emitWith hr).2
      (.inl ⟨incoming, fun h => hne (by simp [h]), rfl, harr⟩)

end Join

/-- The logic of the routines that start every join that they make. -/
def joining (env : Env) : Logic env := FreeLogic.toLogic {
  Point := State
  state := id
  Le := Le
  Val _ _ := True
  In := In
  Fit _ := True
  mayCall := true
  mayStore := true
  Holds s x Q := Joins env s x fun s' a => Le s s' ∧ Q s' a
  le_refl := .refl
  le_trans h h' := h.le h'
  val_mono _ _ := trivial
  in_mono le hs := hs.since le
  fit_used _ _ _ := trivial
  holds_pure h := joins_pure ⟨.refl _, h⟩
  holds_bind hx hf := joins_bind hx fun s' a ⟨le, ha⟩ =>
    joins_mono (hf s' a le ha) fun _ _ ⟨le', hb⟩ => ⟨le.le le', hb⟩
  holds_get := joins_step rfl fun hs => ⟨hs, .refl _, rfl, rfl⟩
  holds_read := joins_step rfl fun hs => ⟨hs, .refl _, rfl, rfl⟩
  holds_set h := joins_mono (joins_quiet outcome_set h) fun _ _ le => ⟨le, trivial⟩
  holds_scopesFrom _ := by
    intro hs t s' hr
    obtain ⟨rfl, rfl⟩ := returns_scopesFrom hr
    exact ⟨hs, .refl _, rfl, rfl, hs.scopes⟩
  holds_fail := joins_fail
  holds_throw _ := joins_throw
  holds_warnAt := joins_mono joins_warnAt fun _ _ le => ⟨le, trivial⟩
  holds_emitWith _ hk _ := joins_mono (joins_emitPlain (Bool.and_eq_true_iff.1 hk).1)
    fun _ _ le => ⟨le, trivial⟩
  holds_openScope h hk := joins_mono (joins_openScope h hk) fun _ _ ⟨le, hs, _⟩ => ⟨le, hs⟩
  holds_declare? _ _ := joins_mono joins_declare? fun _ _ le => ⟨le, trivial⟩
  holds_orDeclareFailed _ h := joins_orDeclareFailed h
  holds_withFrame := joins_withFrame }

end SourceIr.Lower
