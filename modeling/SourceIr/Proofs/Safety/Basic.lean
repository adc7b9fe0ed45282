import SourceIr.Proofs.Logic.Basic
import SourceIr.Proofs.Run
import SourceIr.Proofs.Scope.Growth
import SourceIr.Proofs.Stream.Coherent

/-!
# Safety

No routine breaks a rule towards its stream, and none fails without a diagnostic on record, also
when the lowering goes on after a failure.

* `Safe`, what is kept of a state whatever happens, and `Kept`, how states change;
* `Failing`, the states in which a routine may fail;
* `Secure`, the routines that keep to all that, and `safety`, the logic of them.
-/

namespace SourceIr.Lower

variable {s s' s'' : State}

/-- The instructions that a sink names. -/
def BreakSink.values (b : BreakSink) : List InstId :=
  b.resultLoc.ptr?.toList ++ b.incoming.map (·.2)

/-- An instruction of the current stream. -/
@[grind]
def IsInst (s : State) (v : InstId) : Prop := v.index < s.stream.insts.size

/-- A block of the current stream. -/
@[grind]
def IsBlock (s : State) (b : BlockId) : Prop := b.index < s.stream.blocks.size

/-- A scope of the unit. -/
@[grind]
def IsScope (s : State) (scope : ScopeId) : Prop := scope.index < s.scopes.scopes.size

/-- What is kept of a state whatever happens. -/
structure Safe (s : State) : Prop where
  stream : s.stream.Coherent
  recorded : s.stream.isPoisoned → s.stream.errors.isEmpty = false
  scopes : s.scopes.WellFormed
  sinks : ∀ entry ∈ s.sinks, ∀ v ∈ entry.2.values, IsInst s v

/-- A diagnostic that stops the unit is on record, or was when a declaration failed. -/
def Failing (s : State) : Prop := s.stream.isPoisoned ∨ s.failedVars ≠ []

/-- How states change: nothing is taken back, and a declaration fails only for a reason that is on
record. -/
structure Kept (s s' : State) : Prop where
  insts : s.stream.insts.size ≤ s'.stream.insts.size
  blocks : s.stream.blocks.size ≤ s'.stream.blocks.size
  scopes : s.scopes.Grows s'.scopes
  poisoned : s.stream.isPoisoned → s'.stream.isPoisoned
  remembered : s.failedVars ≠ [] → s'.failedVars ≠ []
  failed : s'.failedVars ≠ [] → s.failedVars ≠ [] ∨ s'.stream.isPoisoned

attribute [grind →] Kept.insts Kept.blocks

namespace Kept

@[grind →]
theorem size_scopes (h : Kept s s') : s.scopes.scopes.size ≤ s'.scopes.scopes.size :=
  h.scopes.size_le

theorem refl (s : State) : Kept s s :=
  ⟨Nat.le_refl _, Nat.le_refl _, .refl _, id, id, .inl⟩

theorem trans (h : Kept s s') (h' : Kept s' s'') : Kept s s'' where
  insts := Nat.le_trans h.insts h'.insts
  blocks := Nat.le_trans h.blocks h'.blocks
  scopes := h.scopes.trans h'.scopes
  poisoned hp := h'.poisoned (h.poisoned hp)
  remembered hf := h'.remembered (h.remembered hf)
  failed hf := by
    rcases h'.failed hf with hf | hp
    · exact (h.failed hf).imp id h'.poisoned
    · exact .inr hp

end Kept

theorem IsInst.mono {v : InstId} (hv : IsInst s v) (h : Kept s s') : IsInst s' v :=
  Nat.lt_of_lt_of_le hv h.insts

theorem IsBlock.mono {b : BlockId} (hb : IsBlock s b) (h : Kept s s') : IsBlock s' b :=
  Nat.lt_of_lt_of_le hb h.blocks

theorem IsScope.mono {scope : ScopeId} (hs : IsScope s scope) (h : Kept s s') :
    IsScope s' scope :=
  Nat.lt_of_lt_of_le hs h.size_scopes

theorem Failing.mono (hf : Failing s) (h : Kept s s') : Failing s' :=
  hf.imp h.poisoned h.remembered

theorem Safe.quiet (hs : Safe s) (h : Quiet s s') : Safe s' := by
  obtain ⟨hscopes, hstream, -, -, hsinks, -⟩ := h
  constructor
  · exact hstream ▸ hs.stream
  · exact hstream ▸ hs.recorded
  · exact hscopes ▸ hs.scopes
  · intro entry he v hv
    rw [IsInst, hstream]
    exact hs.sinks entry (hsinks ▸ he) v hv

/-- A change that concerns neither the stream, the scopes nor the failed declarations. -/
theorem Kept.of_eq (hstream : s'.stream = s.stream) (hscopes : s'.scopes = s.scopes)
    (hfailed : s'.failedVars = s.failedVars) : Kept s s' where
  insts := hstream ▸ Nat.le_refl _
  blocks := hstream ▸ Nat.le_refl _
  scopes := hscopes ▸ .refl _
  poisoned := hstream ▸ id
  remembered := hfailed ▸ id
  failed := hfailed ▸ .inl

theorem Kept.quiet (h : Quiet s s') : Kept s s' := .of_eq h.stream h.scopes h.failedVars

/-! ### Secure routines -/

variable {env : Env} {α β : Type}

/-- What a routine may leave behind, from a state on. -/
def Leaves (s : State) (Q : State → α → Prop) : Except Stop α × State → Prop
  | (.ok a, s') => Safe s' ∧ Kept s s' ∧ Q s' a
  | (.error .poisoned, s') => Safe s' ∧ Kept s s' ∧ Failing s'
  | (.error (.fault _), _) => False

theorem Leaves.of_kept {Q : State → α → Prop} {r : Except Stop α × State} (hk : Kept s s')
    (h : Leaves s' Q r) : Leaves s Q r := by
  obtain ⟨(_ | _) | _, s''⟩ := r
  · exact ⟨h.1, hk.trans h.2.1, h.2.2⟩
  · exact h
  · exact ⟨h.1, hk.trans h.2.1, h.2.2⟩

/-- A routine that keeps a state safe, breaks no rule, and fails only where there is a reason on
record. -/
def Secure (env : Env) (s : State) (x : LowerM α) (Q : State → α → Prop) : Prop :=
  Safe s → Leaves s Q (outcome x env s)

variable {x : LowerM α} {f : α → LowerM β} {Q R : State → α → Prop}

theorem secure_pure {a : α} (h : Q s a) : Secure env s (pure a) Q := fun hs =>
  ⟨hs, .refl s, h⟩

theorem Secure.of_returns {x : LowerM α} {Q : State → α → Prop} {a : α} (h : Secure env s x Q)
    (hs : Safe s) (hr : Returns x env s a s') : Safe s' ∧ Kept s s' ∧ Q s' a := by
  have h := h hs
  rwa [hr] at h

theorem secure_bind {Q : State → β → Prop} (hx : Secure env s x R)
    (hf : ∀ s' a, Kept s s' → R s' a → Secure env s' (f a) Q) : Secure env s (x >>= f) Q := by
  intro hs
  have h := hx hs
  rw [outcome_bind]
  rcases he : outcome x env s with ⟨(_ | e) | a, s'⟩ <;> rw [he] at h
  · exact h
  · exact h
  · obtain ⟨hs', hk, hR⟩ := h
    exact (hf s' a hk hR hs').of_kept hk

theorem secure_get : Secure env s get fun s' t => s' = s ∧ t = s := fun hs =>
  ⟨hs, .refl s, rfl, rfl⟩

theorem secure_read : Secure env s read fun s' e => s' = s ∧ e = env := fun hs =>
  ⟨hs, .refl s, rfl, rfl⟩

/-- A routine that only replaces the state. -/
theorem secure_set {u : LowerM PUnit} {P : State → PUnit → Prop}
    (hu : outcome u env s = (.ok ⟨⟩, s')) (hs' : Safe s → Safe s') (hk : Kept s s')
    (hP : P s' ⟨⟩) : Secure env s u P := by
  intro hs
  rw [hu]
  exact ⟨hs' hs, hk, hP⟩

/-- An attempt returns; where there is no result, the unit is failing. -/
theorem secure_attempt (h : Secure env s x Q) :
    Secure env s (attempt x) fun s' r =>
      match r with
      | some a => Q s' a
      | none => Failing s' := by
  intro hs
  have h := h hs
  rw [outcome_attempt]
  rcases he : outcome x env s with ⟨(_ | e) | a, s'⟩ <;> rw [he] at h <;> exact h

theorem secure_throw (h : Failing s) : Secure env s (throw .poisoned) Q := fun hs =>
  ⟨hs, .refl s, h⟩

/-! ### Handles -/

theorem secure_stopAt {f : Option Fault} (h : Safe s → f = none) :
    Secure env s (stopAt f) fun s' _ => s' = s := by
  intro hs
  rw [h hs]
  exact ⟨hs, .refl s, rfl⟩

theorem secure_scopesFrom {scope : ScopeId} (h : IsScope s scope) :
    Secure env s (scopesFrom scope) fun s' t =>
      s' = s ∧ t = s.scopes ∧ t.WellFormed := by
  intro hs
  rw [outcome_scopesFrom (hs.scopes.fault?_eq_none h)]
  exact ⟨hs, .refl s, rfl, rfl, hs.scopes⟩

/-- A scope that is there may be looked at. -/
theorem secure_scopeAt_bind {scope : ScopeId} {f : Scope → LowerM β} {Q : State → β → Prop}
    (h : IsScope s scope)
    (hf : ∀ x, s.scopes.scope? scope = some x → Secure env s (f x) Q) :
    Secure env s (scopeAt scope >>= f) Q := by
  intro hs
  obtain ⟨x, hx⟩ : ∃ x, s.scopes.scope? scope = some x := ⟨_, Array.getElem?_eq_getElem h⟩
  rw [outcome_bind, outcome_scopeAt hx]
  exact hf _ hx hs

/-! ### Diagnostics -/

theorem secure_note {e : Event} : Secure env s (note e) fun _ _ => True :=
  secure_set outcome_note (·.quiet ⟨rfl, rfl, rfl, rfl, rfl, rfl⟩)
    (.quiet ⟨rfl, rfl, rfl, rfl, rfl, rfl⟩) trivial

theorem safe_invalidate (hs : Safe s) (m : Message) :
    Safe { s with stream := s.stream.invalidate m } :=
  ⟨hs.stream.invalidate m, fun _ => by simp [Stream.invalidate], hs.scopes, hs.sinks⟩

theorem kept_invalidate (m : Message) : Kept s { s with stream := s.stream.invalidate m } :=
  ⟨Nat.le_refl _, Nat.le_refl _, .refl _, fun _ => rfl, id, .inl⟩

theorem secure_invalidate {m : Message} :
    Secure env s (invalidate m) fun s' _ => s'.stream.isPoisoned = true := by
  have poison : ∀ t, Secure env t
      (modify fun s : State => { s with stream := s.stream.invalidate m })
      fun s' _ => s'.stream.isPoisoned = true := fun t =>
    secure_set (outcome_modify _) (safe_invalidate · m) (kept_invalidate m) rfl
  refine secure_bind secure_get ?_
  rintro s' t - ⟨rfl, rfl⟩
  split
  · exact secure_bind secure_note fun t _ _ _ => poison t
  · exact poison _

theorem secure_fail {m : Message} : Secure env s (fail m) Q := by
  have stop : ∀ t m', Secure env t (do invalidate m'; throw .poisoned) Q := fun t m' =>
    secure_bind secure_invalidate fun _ _ _ h => secure_throw (.inl h)
  refine secure_bind secure_read ?_
  rintro s' e - ⟨rfl, rfl⟩
  refine secure_bind secure_get ?_
  rintro s' t - ⟨rfl, rfl⟩
  split
  · dsimp only
    split
    · exact secure_bind secure_note fun t _ _ _ => stop t _
    · exact stop _ _
  · exact stop _ _

theorem secure_warnAt {kind : DiagnosticKind} {message : String} {node : Node} :
    Secure env s (warnAt kind message node) fun _ _ => True := by
  refine secure_bind secure_get ?_
  rintro s' t - ⟨rfl, rfl⟩
  refine secure_bind secure_note fun t _ _ _ => ?_
  refine secure_set (outcome_modify _) (fun hs => ?_) ?_ trivial
  · exact ⟨hs.stream.addWarning _, hs.recorded, hs.scopes, hs.sinks⟩
  · exact ⟨Nat.le_refl _, Nat.le_refl _, .refl _, id, id, .inl⟩

/-! ### Emission, scopes and variables -/

/-- Any instruction may be appended that reads earlier ones. -/
theorem secure_append {kind : InstKind} {scope : ScopeId} {location : Option Location}
    {force gen : Bool} (hscope : IsScope s scope) (h : ∀ v ∈ kind.operands, IsInst s v) :
    Secure env s (emitWith kind scope location force gen) IsInst := by
  intro hs
  rw [outcome_emitWith (hs.scopes.fault?_eq_none hscope) h hs.stream.current]
  refine ⟨⟨hs.stream.withNext h, hs.recorded, hs.scopes, ?_⟩, ⟨?_, ?_, .refl _, id, id, .inl⟩, ?_⟩
  · intro entry he v hv
    have := hs.sinks entry he v hv
    simp only [IsInst, State.withNext, Stream.withNext_size_insts] at this ⊢
    omega
  · simp [State.withNext]
  · simp [State.withNext]
  · simp [IsInst, State.withNext, Stream.next]

theorem secure_openScope {parent : ScopeId} {kind : ScopeKind} (h : IsScope s parent) :
    Secure env s (openScope parent kind) IsScope := by
  intro hs
  rw [outcome_openScope h]
  exact ⟨⟨hs.stream, hs.recorded, hs.scopes.openUnder h, hs.sinks⟩,
    ⟨Nat.le_refl _, Nat.le_refl _, ScopeTree.grows_openUnder parent kind, id, id, .inl⟩,
    by simp [IsScope]⟩

theorem secure_declare? {scope : ScopeId} {r : BindingRequest} (h : IsScope s scope) :
    Secure env s (declare? scope r) fun _ _ => True := by
  refine secure_bind secure_read ?_
  rintro s' e - ⟨rfl, rfl⟩
  refine secure_bind secure_get ?_
  rintro s' t - ⟨rfl, rfl⟩
  refine secure_bind (secure_stopAt fun hs => hs.scopes.bindingFault?_eq_none h _) ?_
  rintro s' - - rfl
  split
  next id scopes hd =>
    obtain ⟨rfl, rfl⟩ := Prod.mk.inj (ScopeTree.declare_eq_ok hd)
    refine secure_bind (secure_set outcome_set (fun hs => ?_) ?_ trivial (P := fun _ _ => True))
      fun _ _ _ _ => secure_pure trivial
    · exact ⟨hs.stream, hs.recorded, hs.scopes.addVar r, hs.sinks⟩
    · exact ⟨Nat.le_refl _, Nat.le_refl _, ScopeTree.grows_addVar scope r, id, id, .inl⟩
  next => exact secure_pure trivial

/-- A declaration that has failed may be remembered where there is a reason on record. -/
theorem secure_declareFailed {node : Node} {name : String} {scope : ScopeId} (hs : IsScope s scope)
    (h : Failing s) : Secure env s (declareFailed node name scope) Q := by
  refine secure_bind (secure_declare? hs) fun t r hk _ => ?_
  have ht := h.mono hk
  split
  next var =>
    refine secure_bind (secure_set (outcome_modify _) (fun hs => ?_) ?_ trivial
      (P := fun _ _ => True)) fun t' _ hk' _ => secure_throw (ht.mono hk')
    · exact ⟨hs.stream, hs.recorded, hs.scopes, hs.sinks⟩
    · exact ⟨Nat.le_refl _, Nat.le_refl _, .refl _, id, fun _ => nofun, fun _ => ht.symm⟩
  next => exact secure_throw ht

theorem secure_orDeclareFailed {node : Node} {name : String} {scope : ScopeId}
    (hs : IsScope s scope) (h : Secure env s x Q) :
    Secure env s (orDeclareFailed x node name scope) Q := by
  refine secure_bind (secure_attempt h) fun t r k hr => ?_
  cases r with
  | some a => exact secure_pure hr
  | none => exact secure_declareFailed (hs.mono k) hr

theorem secure_withFrame {location : Option Location} {description : String}
    (hx : ∀ t, Kept s t → Secure env t x Q)
    (hQ : ∀ t t' a, Kept t t' → Q t a → Q t' a) :
    Secure env s (withFrame location description x) Q := by
  have quiet : ∀ (t : State) (calls : CallStack), Quiet t { t with calls } :=
    fun t calls => ⟨rfl, rfl, rfl, rfl, rfl, rfl⟩
  refine secure_bind (secure_set (outcome_modify _) (·.quiet (quiet s _)) (.quiet (quiet s _))
    trivial (P := fun _ _ => True)) fun t _ hk _ => ?_
  refine secure_bind (secure_attempt (hx t hk)) fun t' r _ hr => ?_
  refine secure_bind (secure_set (outcome_modify _) (·.quiet (quiet t' _)) (.quiet (quiet t' _))
    trivial (P := fun _ _ => True)) fun t'' _ hk' _ => ?_
  cases r with
  | some a => exact secure_pure (hQ t' t'' a hk' hr)
  | none => exact secure_throw (hr.mono hk')

/-- The logic of the routines that keep to the rules whatever happens. -/
def safety (env : Env) : Logic env := FreeLogic.toLogic {
  Point := State
  state := id
  Le := Kept
  Val := IsInst
  In := IsScope
  Fit _ := True
  mayCall := true
  mayStore := true
  Holds := Secure env
  le_refl := .refl
  le_trans := .trans
  val_mono h hv := hv.mono h
  in_mono h hs := hs.mono h
  fit_used _ _ _ := trivial
  holds_pure := secure_pure
  holds_bind := secure_bind
  holds_get := secure_get
  holds_read := secure_read
  holds_set h := secure_set (outcome_set) (·.quiet h) (.quiet h) trivial
  holds_scopesFrom := secure_scopesFrom
  holds_fail := secure_fail
  holds_throw h := secure_throw (.inr (List.ne_nil_of_mem h))
  holds_warnAt := secure_warnAt
  holds_emitWith hs _ h := secure_append hs h
  holds_openScope h _ := secure_openScope h
  holds_declare? hs _ := secure_declare? hs
  holds_orDeclareFailed := secure_orDeclareFailed
  holds_withFrame := secure_withFrame }

end SourceIr.Lower
