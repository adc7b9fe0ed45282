import SourceIr.Lower.Function
import SourceIr.Proofs.Stream.Coherent

/-!
# Running a routine

A routine ends in one of three ways: it returns a value, it fails with its diagnostic on record, or
it breaks a rule towards a stream.  In each case it leaves a state.

* `outcome`, how a routine ends; the equations for what routines are made of;
* `Returns`, the runs that return, with `returns_bind` to take one apart.
-/

namespace SourceIr.Lower

variable {α β : Type} {env : Env} {s s' : State}

/-- How a routine ends from a state, with the state that it leaves. -/
def outcome (x : LowerM α) (env : Env) (s : State) : Except Stop α × State :=
  ((x.run env).run).run s

@[simp] theorem outcome_pure (a : α) : outcome (pure a) env s = (.ok a, s) := rfl

@[simp] theorem outcome_get : outcome (get : LowerM State) env s = (.ok s, s) := rfl

@[simp] theorem outcome_set : outcome (set s' : LowerM PUnit) env s = (.ok ⟨⟩, s') := rfl

@[simp] theorem outcome_modify (f : State → State) :
    outcome (modify f : LowerM PUnit) env s = (.ok ⟨⟩, f s) := rfl

@[simp] theorem outcome_read : outcome (read : LowerM Env) env s = (.ok env, s) := rfl

@[simp] theorem outcome_throw (e : Stop) :
    outcome (throw e : LowerM α) env s = (.error e, s) := rfl

/-- One routine after another: the second runs only if the first returns. -/
theorem outcome_bind (x : LowerM α) (f : α → LowerM β) :
    outcome (x >>= f) env s =
      match outcome x env s with
      | (.ok a, s') => outcome (f a) env s'
      | (.error e, s') => (.error e, s') := by
  simp only [outcome, ReaderT.run_bind, ExceptT.run_bind, StateT.run_bind]
  rcases StateT.run (ReaderT.run x env).run s with ⟨_ | _, _⟩ <;> rfl

theorem outcome_tryCatch (x : LowerM α) (handle : Stop → LowerM α) :
    outcome (tryCatch x handle) env s =
      match outcome x env s with
      | (.ok a, s') => (.ok a, s')
      | (.error e, s') => outcome (handle e) env s' := by
  simp only [outcome]
  change StateT.run (tryCatch (x.run env) fun e => (handle e).run env).run s = _
  simp only [ExceptT.run_tryCatch, StateT.run_bind]
  rcases StateT.run (ReaderT.run x env).run s with ⟨_ | _, _⟩ <;> rfl

/-- An attempt always returns, unless a rule is broken. -/
theorem outcome_attempt (x : LowerM α) :
    outcome (attempt x) env s =
      match outcome x env s with
      | (.ok a, s') => (.ok (some a), s')
      | (.error .poisoned, s') => (.ok none, s')
      | (.error (.fault f), s') => (.error (.fault f), s') := by
  rw [attempt, outcome_tryCatch, map_eq_pure_bind, outcome_bind]
  rcases outcome x env s with ⟨(_ | _) | _, _⟩ <;> rfl

/-! ### Handles without an entry -/

@[simp] theorem outcome_stopAt_none : outcome (stopAt none) env s = (.ok ⟨⟩, s) := rfl

theorem outcome_scopesFrom {scope : ScopeId} (h : s.scopes.fault? scope = none) :
    outcome (scopesFrom scope) env s = (.ok s.scopes, s) := by
  rw [scopesFrom, outcome_bind, outcome_get]
  simp only [h, outcome_bind, outcome_stopAt_none, outcome_pure]

theorem outcome_scopeAt {scope : ScopeId} {x : Scope} (h : s.scopes.scope? scope = some x) :
    outcome (scopeAt scope) env s = (.ok x, s) := by
  rw [scopeAt, outcome_bind, outcome_get]
  simp only [h, outcome_pure]

theorem outcome_openScope {parent : ScopeId} {kind : ScopeKind}
    (h : parent.index < s.scopes.scopes.size) :
    outcome (openScope parent kind) env s =
      (.ok ⟨s.scopes.scopes.size⟩, { s with scopes := (s.scopes.openUnder parent kind).2 }) := by
  rw [openScope, outcome_bind, outcome_scopeAt (Array.getElem?_eq_getElem h)]
  rfl

theorem outcome_isTerminated (h : s.stream.endFault? = none) :
    outcome isTerminated env s = (.ok s.stream.isTerminated, s) := by
  rw [isTerminated, outcome_bind, outcome_get]
  simp only [h, outcome_bind, outcome_stopAt_none, outcome_pure]

theorem outcome_note {e : Event} :
    outcome (note e) env s = (.ok ⟨⟩, { s with log := s.log.push e }) := rfl

/-- The state after an instruction was appended. -/
def State.withNext (s : State) (kind : InstKind) (scope : ScopeId) (location : Option Location)
    (force gen : Bool) : State :=
  { s with
    stream := s.stream.withNext kind scope location
      (force || isComptimeIn s.stream s.scopes scope) gen
    log := s.log.push (.appended s.stream.name s.stream.next kind) }

/-- An instruction that reads earlier ones is appended. -/
theorem outcome_emitWith {kind : InstKind} {scope : ScopeId} {location : Option Location}
    {force gen : Bool} (hs : s.scopes.fault? scope = none)
    (hd : ∀ d ∈ kind.operands, d.index < s.stream.insts.size)
    (hc : s.stream.currentBlock.index < s.stream.blocks.size) :
    outcome (emitWith kind scope location force gen) env s =
      (.ok s.stream.next, s.withNext kind scope location force gen) := by
  have happ : s.stream.append kind scope location
      (force || isComptimeIn s.stream s.scopes scope) gen = .ok (s.stream.next, _) :=
    Stream.append_eq_ok.2 ⟨hd, hc, rfl⟩
  rw [emitWith, outcome_bind, outcome_scopesFrom hs]
  dsimp only
  rw [outcome_bind, outcome_get]
  simp only [happ]
  rfl

/-- The state in which a stream inside the current one is started. -/
def State.inChild (s : State) (name : String) (root : ScopeId) : State :=
  { s with stream := Stream.new name true, streamRoot := root, sinks := [] }

/-- The state in which the stream of `s` takes in the one of `inner`. -/
def State.around (s inner : State) : State :=
  { inner with
    stream := (s.stream.addChild inner.stream).2
    streamRoot := s.streamRoot
    sinks := s.sinks
    log :=
      match inner.stream.terminalDiagnostic? with
      | some m =>
        if inner.stream.isPoisoned && !s.stream.isPoisoned then
          inner.log.push (.poisoned s.stream.name m)
        else inner.log
      | none => inner.log }

/-- A routine over a stream of its own returns, unless a rule is broken. -/
theorem outcome_inChildStream (x : LowerM α) {name : String} {root : ScopeId} :
    outcome (inChildStream name root x) env s =
      match outcome x env (s.inChild name root) with
      | (.ok a, t) => (.ok (s.stream.children.length, some a), s.around t)
      | (.error .poisoned, t) => (.ok (s.stream.children.length, none), s.around t)
      | (.error (.fault f), t) => (.error (.fault f), t) := by
  rw [inChildStream, outcome_bind, outcome_get]
  dsimp only
  rw [outcome_bind, outcome_set]
  dsimp only
  rw [outcome_bind, outcome_attempt, State.inChild]
  rcases outcome x env { s with
    stream := Stream.new name true, streamRoot := root, sinks := [] } with ⟨(_ | _) | _, t⟩
  · rfl
  · rfl
  · rfl

/-- A diagnostic as it goes on record: a fatal one names the open evaluations. -/
def State.recorded (s : State) (limit : Nat) (m : Message) : Message :=
  if m.isFatal then m.withCallers s.calls limit else m

theorem outcome_invalidate (env : Env) (s : State) (m : Message) :
    ∃ log, outcome (invalidate m) env s =
      (.ok ⟨⟩, { s with stream := s.stream.invalidate m, log }) := by
  rw [invalidate, outcome_bind, outcome_get]
  dsimp only
  split
  · exact ⟨_, rfl⟩
  · exact ⟨_, rfl⟩

/-- A failure records its diagnostic and nothing else. -/
theorem outcome_fail (env : Env) (s : State) (m : Message) :
    ∃ log, outcome (fail m : LowerM α) env s =
      (.error .poisoned, { s with
        stream := s.stream.invalidate (s.recorded env.options.callStackLimit m), log }) := by
  have stop : ∀ (m : Message) (t : State), ∃ log,
      outcome (do invalidate m; throw .poisoned : LowerM α) env t =
        (.error .poisoned, { t with stream := t.stream.invalidate m, log }) := by
    intro m t
    obtain ⟨log, h⟩ := outcome_invalidate env t m
    exact ⟨log, by rw [outcome_bind, h]; rfl⟩
  rw [fail, outcome_bind, outcome_read, State.recorded]
  dsimp only
  rw [outcome_bind, outcome_get]
  dsimp only
  split
  · split
    · rw [outcome_bind, outcome_note]
      exact stop _ _
    · exact stop _ _
  · exact stop _ _

/-! ### Runs that return -/

/-- A routine returns a value and leaves a state. -/
def Returns (x : LowerM α) (env : Env) (s : State) (a : α) (s' : State) : Prop :=
  outcome x env s = (.ok a, s')

theorem returns_of_toOption {x : LowerM α} {a : α}
    (h : (outcome x env s).1.toOption = some a) : Returns x env s a (outcome x env s).2 := by
  rcases ho : outcome x env s with ⟨e | b, t⟩ <;> rw [ho] at h
  · cases h
  · obtain rfl := Option.some.inj h
    exact ho

@[simp] theorem returns_pure {a b : α} : Returns (pure a) env s b s' ↔ b = a ∧ s' = s := by
  simp [Returns, eq_comm]

@[simp] theorem returns_get {t : State} :
    Returns (get : LowerM State) env s t s' ↔ t = s ∧ s' = s := by
  simp [Returns, eq_comm]

@[simp] theorem returns_set {t : State} {u : PUnit} :
    Returns (set t : LowerM PUnit) env s u s' ↔ s' = t := by
  simp [Returns, eq_comm]

@[simp] theorem returns_modify {f : State → State} {u : PUnit} :
    Returns (modify f : LowerM PUnit) env s u s' ↔ s' = f s := by
  simp [Returns, eq_comm]

@[simp] theorem returns_read {e : Env} :
    Returns (read : LowerM Env) env s e s' ↔ e = env ∧ s' = s := by
  simp [Returns, eq_comm]

@[simp] theorem not_returns_throw {e : Stop} {a : α} :
    ¬ Returns (throw e : LowerM α) env s a s' := by
  simp [Returns]

/-- A sequence returns when both parts do, one after the other. -/
theorem returns_bind {x : LowerM α} {f : α → LowerM β} {b : β} :
    Returns (x >>= f) env s b s' ↔ ∃ a t, Returns x env s a t ∧ Returns (f a) env t b s' := by
  simp only [Returns, outcome_bind]
  rcases outcome x env s with ⟨_ | a, t⟩
  · simp
  · constructor
    · exact fun h => ⟨a, t, rfl, h⟩
    · rintro ⟨_, _, h, hf⟩
      cases h
      exact hf

/-- A routine that reads the state goes on with what it finds. -/
theorem returns_get_bind {f : State → LowerM β} {b : β} :
    Returns (get >>= f) env s b s' ↔ Returns (f s) env s b s' := by
  simp [Returns, outcome_bind]

theorem returns_read_bind {f : Env → LowerM β} {b : β} :
    Returns (read >>= f) env s b s' ↔ Returns (f env) env s b s' := by
  simp [Returns, outcome_bind]

theorem returns_modify_bind {g : State → State} {f : PUnit → LowerM β} {b : β} :
    Returns (modify g >>= f) env s b s' ↔ Returns (f ⟨⟩) env (g s) b s' := by
  simp [Returns, outcome_bind]

/-- A routine that may stop at a breach goes on only if there is none. -/
theorem returns_stopAt_bind {e : Option Fault} {f : PUnit → LowerM β} {b : β}
    (h : Returns (stopAt e >>= f) env s b s') : e = none ∧ Returns (f ⟨⟩) env s b s' := by
  cases e with
  | none => exact ⟨rfl, h⟩
  | some e => cases h

/-- A routine that walks outward from a scope goes on with the scopes as they are. -/
theorem returns_scopesFrom {scope : ScopeId} {t : ScopeTree}
    (h : Returns (scopesFrom scope) env s t s') : t = s.scopes ∧ s' = s := by
  rw [scopesFrom, returns_get_bind] at h
  exact returns_pure.1 (returns_stopAt_bind h).2

/-- Nothing was missing on the walk outward, if the routine returns. -/
theorem Returns.fault?_eq_none {scope : ScopeId} {f : ScopeTree → LowerM β} {b : β}
    (h : Returns (scopesFrom scope >>= f) env s b s') : s.scopes.fault? scope = none := by
  obtain ⟨t, u, ht, -⟩ := returns_bind.1 h
  rw [scopesFrom, returns_get_bind] at ht
  exact (returns_stopAt_bind ht).1

theorem returns_scopesFrom_bind {scope : ScopeId} {f : ScopeTree → LowerM β} {b : β}
    (h : Returns (scopesFrom scope >>= f) env s b s') : Returns (f s.scopes) env s b s' := by
  obtain ⟨t, u, ht, h⟩ := returns_bind.1 h
  obtain ⟨rfl, rfl⟩ := returns_scopesFrom ht
  exact h

theorem returns_scopeAt_bind {scope : ScopeId} {f : Scope → LowerM β} {b : β}
    (h : Returns (scopeAt scope >>= f) env s b s') :
    ∃ x, s.scopes.scope? scope = some x ∧ Returns (f x) env s b s' := by
  obtain ⟨x, u, hx, hf⟩ := returns_bind.1 h
  rw [scopeAt, returns_get_bind] at hx
  dsimp only at hx
  cases hs : s.scopes.scope? scope with
  | none =>
    rw [hs] at hx
    cases hx
  | some y =>
    rw [hs] at hx
    obtain ⟨rfl, rfl⟩ := returns_pure.1 hx
    exact ⟨_, rfl, hf⟩

/-- An instruction is appended. -/
def Appends (kind : InstKind) (s s' : State) : Prop :=
  (∀ d ∈ kind.operands, d.index < s.stream.insts.size) ∧
    ∃ scope location force gen, s' = s.withNext kind scope location force gen

/-- What is appended is known. -/
theorem returns_emitWith_eq {kind : InstKind} {scope : ScopeId}
    {location : Option Location} {force gen : Bool} {v : InstId}
    (h : Returns (emitWith kind scope location force gen) env s v s') :
    v = s.stream.next ∧ (∀ d ∈ kind.operands, d.index < s.stream.insts.size) ∧
      s' = s.withNext kind scope location force gen := by
  rw [emitWith] at h
  replace h := returns_scopesFrom_bind h
  rw [returns_get_bind] at h
  split at h
  next id stream happ =>
    obtain ⟨hd, -, he⟩ := Stream.append_eq_ok.1 happ
    obtain ⟨rfl, rfl⟩ := Prod.mk.inj he
    obtain ⟨_, s₂, h₂, h⟩ := returns_bind.1 h
    obtain rfl := returns_set.1 h₂
    obtain ⟨rfl, rfl⟩ := returns_pure.1 h
    exact ⟨rfl, hd, rfl⟩
  next => exact absurd h not_returns_throw

theorem returns_emitWith {kind : InstKind} {scope : ScopeId}
    {location : Option Location} {force gen : Bool} {v : InstId}
    (h : Returns (emitWith kind scope location force gen) env s v s') :
    v = s.stream.next ∧ Appends kind s s' := by
  obtain ⟨hv, hd, hs'⟩ := returns_emitWith_eq h
  exact ⟨hv, hd, scope, location, force, gen, hs'⟩

/-- A test of whether control goes on leaves the state as it is. -/
theorem returns_isTerminated_bind {f : Bool → LowerM β} {b : β}
    (h : Returns (isTerminated >>= f) env s b s') :
    Returns (f s.stream.isTerminated) env s b s' := by
  obtain ⟨t, u, ht, h⟩ := returns_bind.1 h
  rw [isTerminated, returns_get_bind] at ht
  obtain ⟨rfl, rfl⟩ := returns_pure.1 (returns_stopAt_bind ht).2
  exact h

/-- Looking for effects leaves the state as it is. -/
theorem returns_hasEffectSince_bind {start : Nat} {f : Bool → LowerM β} {b : β}
    (h : Returns (hasEffectSince start >>= f) env s b s') :
    ∃ effectful, Returns (f effectful) env s b s' := by
  obtain ⟨effectful, t, ht, hf⟩ := returns_bind.1 h
  rw [hasEffectSince, returns_get_bind] at ht
  obtain ⟨-, rfl⟩ := returns_pure.1 (returns_stopAt_bind ht).2
  exact ⟨effectful, hf⟩

/-- A sequence does not return if its second part never does. -/
theorem not_returns_bind {x : LowerM α} {f : α → LowerM β} {b : β}
    (h : ∀ a t, ¬ Returns (f a) env t b s') : ¬ Returns (x >>= f) env s b s' := by
  intro hr
  obtain ⟨a, t, -, hf⟩ := returns_bind.1 hr
  exact h a t hf

theorem not_returns_fail {m : Message} {a : α} : ¬ Returns (fail m) env s a s' := by
  have stop : ∀ t m, ¬ Returns (do invalidate m; throw .poisoned : LowerM α) env t a s' :=
    fun t m => not_returns_bind fun _ _ => not_returns_throw
  rw [fail]
  refine not_returns_bind fun e _ => not_returns_bind fun t _ => ?_
  split
  · dsimp only
    split
    · exact not_returns_bind fun _ _ => stop _ _
    · exact stop _ _
  · exact stop _ _

theorem returns_map {x : LowerM α} {f : α → β} {b : β} :
    Returns (f <$> x) env s b s' ↔ ∃ a, b = f a ∧ Returns x env s a s' := by
  rw [map_eq_pure_bind, returns_bind]
  simp only [returns_pure]
  constructor
  · rintro ⟨a, _, h, rfl, rfl⟩
    exact ⟨a, rfl, h⟩
  · rintro ⟨a, rfl, h⟩
    exact ⟨a, s', h, rfl, rfl⟩

/-- What an attempt returns when the routine returns. -/
theorem returns_attempt_some {x : LowerM α} {a : α} :
    Returns (attempt x) env s (some a) s' ↔ Returns x env s a s' := by
  simp only [Returns, outcome_attempt]
  rcases outcome x env s with ⟨(_ | _) | _, _⟩ <;> simp

/-- What comes after a routine over a stream of its own, if nothing comes of its failure. -/
theorem returns_inChildStream_bind {name : String} {root : ScopeId} {x : LowerM α}
    {f : Nat × Option α → LowerM β} {b : β}
    (h : Returns (inChildStream name root x >>= f) env s b s')
    (hnone : ∀ t index, ¬ Returns (f (index, none)) env t b s') :
    ∃ a t, Returns x env (s.inChild name root) a t ∧
      Returns (f (s.stream.children.length, some a)) env (s.around t) b s' := by
  obtain ⟨⟨index, r⟩, u, hchild, h⟩ := returns_bind.1 h
  rw [Returns, outcome_inChildStream] at hchild
  rcases hx : outcome x env (s.inChild name root) with ⟨(_ | _) | a, t⟩ <;> rw [hx] at hchild <;>
    cases hchild
  · exact absurd h (hnone _ _)
  · exact ⟨a, t, hx, h⟩

/-- A declaration that fails with one of its parts returns only if the part does. -/
theorem Returns.of_orDeclareFailed {x : LowerM α} {node : Node} {name : String}
    {scope : ScopeId} {a : α} (h : Returns (orDeclareFailed x node name scope) env s a s') :
    Returns x env s a s' := by
  obtain ⟨r, t, hx, hr⟩ := returns_bind.1 h
  cases r with
  | some b =>
    obtain ⟨rfl, rfl⟩ := returns_pure.1 hr
    exact returns_attempt_some.1 hx
  | none =>
    refine absurd hr (not_returns_bind fun r _ => ?_)
    split
    · exact not_returns_bind fun _ _ => not_returns_throw
    · exact not_returns_throw

/-- A routine that runs while an evaluation is open, if it returns. -/
theorem returns_withFrame {x : LowerM α} {location : Option Location} {description : String}
    {a : α} (h : Returns (withFrame location description x) env s a s') :
    ∃ t, Returns x env { s with calls := s.calls.push ⟨location, description⟩ } a t ∧
      s' = { t with calls := t.calls.pop.2 } := by
  obtain ⟨_, t₁, h₁, h⟩ := returns_bind.1 h
  obtain ⟨r, t₂, h₂, h⟩ := returns_bind.1 h
  obtain ⟨_, t₃, h₃, h⟩ := returns_bind.1 h
  obtain rfl := returns_modify.1 h₁
  obtain rfl := returns_modify.1 h₃
  cases r with
  | some b =>
    obtain ⟨rfl, rfl⟩ := returns_pure.1 h
    exact ⟨t₂, returns_attempt_some.1 h₂, rfl⟩
  | none => exact absurd h not_returns_throw

/-- Once a statement has failed, the block fails. -/
theorem not_returns_lowerStatements {parts : Parts} {scope last : ScopeId}
    {statements : List Node} :
    ¬ Returns (lowerStatements parts scope true statements) env s last s' := by
  induction statements generalizing s scope with
  | nil => exact not_returns_throw
  | cons statement rest ih =>
    rw [lowerStatements]
    refine not_returns_bind fun terminated _ => ?_
    split
    · exact not_returns_bind fun _ _ => not_returns_throw
    refine not_returns_bind fun r _ => ?_
    cases r with
    | some next => exact ih
    | none =>
      refine not_returns_bind fun _ _ => ?_
      split
      · exact not_returns_throw
      · exact ih

/-! ### Break sinks -/

section Sinks

variable {sinks : List (ScopeId × BreakSink)} {scope x : ScopeId}

/-- The sink of a scope after a value has flowed into one. -/
theorem lookup_flowInto {block : BlockId} {value : InstId} :
    (sinks.map fun entry : ScopeId × BreakSink =>
      if entry.1 = scope then (scope, entry.2.push block value) else entry).lookup x =
      (sinks.lookup x).map fun sink => if x = scope then sink.push block value else sink := by
  induction sinks with
  | nil => rfl
  | cons entry rest ih =>
    obtain ⟨y, sink⟩ := entry
    rw [List.map_cons, List.lookup_cons, List.lookup_cons]
    by_cases hx : x = y
    · subst hx
      by_cases hy : x = scope <;> simp [hy]
    · have hxy : (x == y) = false := beq_eq_false_iff_ne.2 hx
      by_cases hy : y = scope
      · subst hy
        simpa [hxy] using ih
      · simpa [hxy, hy] using ih

/-- The sink of a scope after one was closed. -/
theorem lookup_closeSink :
    (sinks.filter fun entry : ScopeId × BreakSink => entry.1 != scope).lookup x =
      if x = scope then none else sinks.lookup x := by
  induction sinks with
  | nil => simp
  | cons entry rest ih =>
    obtain ⟨y, sink⟩ := entry
    by_cases hy : y = scope
    · subst hy
      rw [List.filter_cons_of_neg (by simp), ih]
      split
      · rfl
      · rw [List.lookup_cons, beq_eq_false_iff_ne.2 ‹_›]
    · rw [List.filter_cons_of_pos (by simpa using hy), List.lookup_cons, List.lookup_cons, ih]
      by_cases hx : x = y
      · subst hx
        simp [hy]
      · rw [beq_eq_false_iff_ne.2 hx]

end Sinks

end SourceIr.Lower
