import SourceIr.Proofs.Run
import SourceIr.Proofs.Scope.Growth

/-!
# Small steps

The steps that routines are made of touch little of the state, and the options have no say in
them.

* `Small`, what a small step may change;
* `Step`, the routines that are one small step or break a rule;
* `step_emitWith` and those like it, the small steps;
* `Succeeds`, the routines that do not fail, which small steps do not;
* `IsError`, the diagnostics that routines fail with, and `outcome_declare?`, how a declaration
  ends.
-/

namespace SourceIr.Lower

/-- A fault that no routine meets: nothing is not too much to drop from nothing. -/
def alarmFault : Fault := .startOutOfRange 0 0

/-- A diagnostic that a routine may fail with: an error that names no evaluation yet. -/
structure IsError (m : Message) : Prop where
  kind : m.kind.level = .error
  level : m.level = .error
  callStack : m.callStack = []

theorem isError_ofKind {kind : DiagnosticKind} {message issuer : String}
    {location : Option Location} {span : Option Span} (h : kind.level = .error) :
    IsError (.ofKind kind message issuer location span) := ⟨h, h, rfl⟩

namespace IsError

variable {m : Message}

theorem isFatal (h : IsError m) : m.isFatal = true := by
  rw [Message.isFatal, h.level]
  rfl

theorem kind_ne (h : IsError m) : m.kind ≠ .recursionLimitExceeded := by
  intro hk
  have hlevel := h.kind
  rw [hk] at hlevel
  cases hlevel

theorem withNote (h : IsError m) (note : Message) : IsError (m.withNote note) :=
  ⟨h.kind, h.level, h.callStack⟩

end IsError

/-- What a small step may change: nothing fails, and what is on record stays as it is but for
instructions at the end. -/
structure Small (s s' : State) : Prop where
  insts : s.stream.insts.toList <+: s'.stream.insts.toList
  errors : s'.stream.errors = s.stream.errors
  isPoisoned : s'.stream.isPoisoned = s.stream.isPoisoned
  warnings : s'.stream.warnings = s.stream.warnings
  children : s'.stream.children = s.stream.children
  isInline : s'.stream.isInline = s.stream.isInline
  change : s.scopes.Change s'.scopes
  failedVars : s'.failedVars = s.failedVars
  deferred : s'.deferred = s.deferred
  calls : s'.calls = s.calls

/-- How a small step ends. -/
def StepEnd {α : Type} (s : State) : Except Stop α × State → Prop
  | (.ok _, s') => Small s s'
  | (.error .poisoned, _) => False
  | (.error (.fault f), s') => f ≠ alarmFault ∧ s' = s

/-- A routine that is one small step, or breaks a rule. -/
structure Step {α : Type} (x : LowerM α) : Prop where
  same : ∀ env env' s, outcome x env s = outcome x env' s
  ends : ∀ env s, StepEnd s (outcome x env s)

variable {env : Env} {s s' s'' : State} {α : Type} {x : LowerM α}

namespace Small

theorem scopes (h : Small s s') : s.scopes.Grows s'.scopes := h.change.grows

theorem wellFormed (h : Small s s') : s.scopes.WellFormed → s'.scopes.WellFormed :=
  h.change.wellFormed

theorem refl (s : State) : Small s s :=
  ⟨List.prefix_rfl, rfl, rfl, rfl, rfl, rfl, .same, rfl, rfl, rfl⟩

/-- A change that concerns neither the stream, the scopes, what was deferred nor the open
evaluations. -/
theorem of_eq (hstream : s'.stream = s.stream) (hscopes : s'.scopes = s.scopes)
    (hfailed : s'.failedVars = s.failedVars) (hdeferred : s'.deferred = s.deferred)
    (hcalls : s'.calls = s.calls) : Small s s' := by
  refine ⟨?_, ?_, ?_, ?_, ?_, ?_, ?_, hfailed, hdeferred, hcalls⟩
  · exact hstream ▸ List.prefix_rfl
  · rw [hstream]
  · rw [hstream]
  · rw [hstream]
  · rw [hstream]
  · rw [hstream]
  · exact hscopes ▸ .same

/-- A change to the scopes alone. -/
theorem of_scopes {scopes : ScopeTree} {log : Array Event} (h : s.scopes.Change scopes) :
    Small s { s with scopes, log } :=
  ⟨List.prefix_rfl, rfl, rfl, rfl, rfl, rfl, h, rfl, rfl, rfl⟩

end Small

/-- A routine that always returns. -/
theorem step_of_ok (a : State → α) (g : State → State) (h : ∀ s, Small s (g s))
    (hx : ∀ env s, outcome x env s = (.ok (a s), g s)) : Step x where
  same env env' s := by rw [hx, hx]
  ends env s := by
    rw [hx]
    exact h s

theorem step_modify {g : State → State} (h : ∀ s, Small s (g s)) :
    Step (modify g : LowerM PUnit) :=
  step_of_ok (fun _ => ⟨⟩) g h fun _ _ => rfl

/-! ### Breaches -/

theorem faultAt?_ne_alarm (t : ScopeTree) (i : Nat) :
    ∀ f ∈ t.faultAt? i, f ≠ alarmFault := by
  induction i using Nat.strongRecOn with
  | ind i ih =>
    intro f hf
    rw [ScopeTree.faultAt?] at hf
    split at hf
    · cases hf
      simp [alarmFault]
    · split at hf
      · cases hf
      next p _ =>
        split at hf
        next hlt => exact ih p.index hlt f hf
        next =>
          cases hf
          simp [alarmFault]

theorem fault?_ne_alarm (t : ScopeTree) (scope : ScopeId) :
    ∀ f ∈ t.fault? scope, f ≠ alarmFault :=
  faultAt?_ne_alarm t scope.index

theorem bindingFault?_ne_alarm (t : ScopeTree) (scope : ScopeId) (r : BindingRequest) :
    ∀ f ∈ t.bindingFault? scope r, f ≠ alarmFault := by
  intro f hf
  rw [ScopeTree.bindingFault?] at hf
  split at hf
  next h =>
    cases hf
    exact fault?_ne_alarm t scope f h
  next =>
    split at hf
    · cases hf
    · obtain ⟨v, -, rfl⟩ := Option.map_eq_some_iff.1 hf
      simp [alarmFault]

theorem endFault?_ne_alarm (stream : Stream) :
    ∀ f ∈ stream.endFault?, f ≠ alarmFault := by
  intro f hf
  rw [Stream.endFault?] at hf
  split at hf
  · cases hf
    simp [alarmFault]
  · split at hf
    · cases hf
    · split at hf
      · cases hf
      · cases hf
        simp [alarmFault]

/-- How looking outward from a scope ends. -/
theorem outcome_scopesFrom_cases (scope : ScopeId) :
    (∃ f, f ≠ alarmFault ∧ ∀ env, outcome (scopesFrom scope) env s = (.error (.fault f), s)) ∨
      ∀ env, outcome (scopesFrom scope) env s = (.ok s.scopes, s) := by
  cases h : s.scopes.fault? scope with
  | some f =>
    refine .inl ⟨f, fault?_ne_alarm _ _ f h, fun env => ?_⟩
    rw [scopesFrom, outcome_bind, outcome_get]
    simp only [h]
    rfl
  | none => exact .inr fun env => outcome_scopesFrom h

/-! ### Emission -/

/-- An emission that may look outward from its scope. -/
theorem outcome_emitWith_of_scopesFrom (kind : InstKind) {scope : ScopeId}
    (location : Option Location) (force gen : Bool)
    (h : outcome (scopesFrom scope) env s = (.ok s.scopes, s)) :
    outcome (emitWith kind scope location force gen) env s =
      outcome (match s.stream.append kind scope location
          (force || isComptimeIn s.stream s.scopes scope) gen with
        | .ok (id, stream) => do
          set { s with stream, log := s.log.push (.appended s.stream.name id kind) }
          return id
        | .error f => throw (.fault f)) env s := by
  rw [emitWith, outcome_bind, h]
  dsimp only
  exact (outcome_bind _ _).trans rfl

/-- How an emission ends. -/
theorem outcome_emitWith_cases (kind : InstKind) (scope : ScopeId) (location : Option Location)
    (force gen : Bool) :
    (∃ f, f ≠ alarmFault ∧ ∀ env,
        outcome (emitWith kind scope location force gen) env s = (.error (.fault f), s)) ∨
      ∀ env, outcome (emitWith kind scope location force gen) env s =
        (.ok s.stream.next, s.withNext kind scope location force gen) := by
  obtain ⟨f, hf, h⟩ | h := outcome_scopesFrom_cases (s := s) scope
  · refine .inl ⟨f, hf, fun env => ?_⟩
    rw [emitWith, outcome_bind, h]
  · have hrest := fun env => outcome_emitWith_of_scopesFrom kind location force gen (h env)
    cases happ : s.stream.append kind scope location
        (force || isComptimeIn s.stream s.scopes scope) gen with
    | ok r =>
      obtain ⟨-, -, rfl⟩ := Stream.append_eq_ok.1 happ
      refine .inr fun env => ?_
      rw [hrest, happ]
      rfl
    | error f =>
      refine .inl ⟨f, ?_, fun env => by rw [hrest, happ]; rfl⟩
      rw [Stream.append] at happ
      split at happ
      · cases happ
        simp [alarmFault]
      · split at happ
        · cases happ
        · cases happ
          simp [alarmFault]

theorem small_withNext (kind : InstKind) (scope : ScopeId) (location : Option Location)
    (force gen : Bool) : Small s (s.withNext kind scope location force gen) :=
  ⟨by simp [State.withNext, Stream.withNext], rfl, rfl, rfl, rfl, rfl, .same, rfl, rfl, rfl⟩

theorem step_emitWith (kind : InstKind) (scope : ScopeId) (location : Option Location)
    (force gen : Bool) : Step (emitWith kind scope location force gen) := by
  constructor
  · intro env env' s
    obtain ⟨f, -, h⟩ | h := outcome_emitWith_cases (s := s) kind scope location force gen <;>
      rw [h, h]
  · intro env s
    obtain ⟨f, hf, h⟩ | h := outcome_emitWith_cases (s := s) kind scope location force gen <;>
      rw [h]
    · exact ⟨hf, rfl⟩
    · exact small_withNext kind scope location force gen

theorem step_newBlock (name : String) : Step (newBlock name) :=
  step_of_ok (fun s => ⟨s.stream.blocks.size⟩)
    (fun s => { s with stream := (s.stream.newBlock name).2 })
    (fun _ => ⟨List.prefix_rfl, rfl, rfl, rfl, rfl, rfl, .same, rfl, rfl, rfl⟩) fun _ _ => rfl

theorem step_goto (b : BlockId) : Step (goto b) :=
  step_modify fun _ => ⟨List.prefix_rfl, rfl, rfl, rfl, rfl, rfl, .same, rfl, rfl, rfl⟩

/-! ### Scopes and variables -/

/-- How opening a scope ends. -/
theorem outcome_openScope_cases (parent : ScopeId) (kind : ScopeKind) :
    (∃ f, f ≠ alarmFault ∧
        ∀ env, outcome (openScope parent kind) env s = (.error (.fault f), s)) ∨
      parent.index < s.scopes.scopes.size ∧
        ∀ env, outcome (openScope parent kind) env s =
          (.ok ⟨s.scopes.scopes.size⟩,
            { s with scopes := (s.scopes.openUnder parent kind).2 }) := by
  by_cases h : parent.index < s.scopes.scopes.size
  · exact .inr ⟨h, fun env => outcome_openScope h⟩
  · refine .inl ⟨.outOfRange s.scopes.scopes.size parent.index, nofun, fun env => ?_⟩
    have hnone : s.scopes.scope? parent = none := Array.getElem?_eq_none (Nat.le_of_not_lt h)
    rw [openScope, outcome_bind, scopeAt, outcome_bind, outcome_get]
    simp only [hnone]
    rfl

theorem step_openScope (parent : ScopeId) (kind : ScopeKind) : Step (openScope parent kind) := by
  constructor
  · intro env env' s
    obtain ⟨f, -, h⟩ | ⟨-, h⟩ := outcome_openScope_cases (s := s) parent kind <;> rw [h, h]
  · intro env s
    obtain ⟨f, hf, h⟩ | ⟨hp, h⟩ := outcome_openScope_cases (s := s) parent kind <;> rw [h]
    · exact ⟨hf, rfl⟩
    · exact .of_scopes (.opened kind hp)

theorem isError_of_declare {t : ScopeTree} {scope : ScopeId} {r : BindingRequest}
    {table : DeclTable} {m : Message} (h : t.declare scope r table = .error m) :
    IsError m ∧ m.location = r.location := by
  have collision : ∀ message location note noteLocation,
      IsError (ScopeTree.collision message location note noteLocation) ∧
        (ScopeTree.collision message location note noteLocation).location = location :=
    fun _ _ _ _ => ⟨(isError_ofKind rfl).withNote _, rfl⟩
  rw [ScopeTree.declare] at h
  split at h
  next he =>
    cases h
    rw [ScopeTree.bindingError?] at he
    split at he
    · split at he
      · cases he
      · rw [ScopeTree.nameError?] at he
        split at he
        · cases he
          exact collision _ _ _ _
        · split at he
          · cases he
            exact collision _ _ _ _
          · obtain ⟨d, -, rfl⟩ := Option.map_eq_some_iff.1 he
            exact collision _ _ _ _
    · cases he
  next => cases h

/-- How a declaration ends: a name is refused because it is taken. -/
inductive DeclareEnd (s : State) (r : BindingRequest) :
    Except Stop (Except Message VarId) × State → Prop
  | fault {f : Fault} (h : f ≠ alarmFault) : DeclareEnd s r (.error (.fault f), s)
  | declared {var : VarId} {s' : State} (h : Small s s') (hs : s'.stream = s.stream) :
    DeclareEnd s r (.ok (.ok var), s')
  | refused {m : Message} (h : IsError m) (hl : m.location = r.location) :
    DeclareEnd s r (.ok (.error m), s)

theorem outcome_declare? (env : Env) (s : State) (scope : ScopeId) (r : BindingRequest) :
    DeclareEnd s r (outcome (declare? scope r) env s) := by
  rw [declare?, outcome_bind, outcome_read]
  dsimp only
  rw [outcome_bind, outcome_get]
  dsimp only
  rw [outcome_bind]
  cases hf : s.scopes.bindingFault? scope r with
  | some f => exact .fault (bindingFault?_ne_alarm _ _ _ f hf)
  | none =>
    rw [outcome_stopAt_none]
    dsimp only
    split
    next hd =>
      obtain ⟨rfl, rfl⟩ := Prod.mk.inj (ScopeTree.declare_eq_ok hd)
      exact .declared (.of_scopes (.declared r (ScopeTree.lt_of_bindingFault?_eq_none hf))) rfl
    next hd => exact .refused (isError_of_declare hd).1 (isError_of_declare hd).2

/-! ### What routines remember for each other -/

theorem step_openSink (scope : ScopeId) (loc : ResultLoc) : Step (openSink scope loc) :=
  step_modify fun _ => .of_eq rfl rfl rfl rfl rfl

theorem step_flowInto (scope : ScopeId) (value : InstId) : Step (flowInto scope value) :=
  step_modify fun _ => .of_eq rfl rfl rfl rfl rfl

theorem step_closeSink (scope : ScopeId) : Step (closeSink scope) :=
  step_of_ok (fun s => ((s.sinks.lookup scope).map (·.incoming)).getD [])
    (fun s => { s with sinks := s.sinks.filter (·.1 != scope) })
    (fun _ => .of_eq rfl rfl rfl rfl rfl) fun _ _ => rfl

theorem step_setNameHint (init : Node) (name : String) : Step (setNameHint init name) :=
  step_modify fun _ => .of_eq rfl rfl rfl rfl rfl

theorem step_takeNameHint (node : Node) : Step (takeNameHint node) := by
  have ends : ∀ s, ∃ name s', Small s s' ∧
      ∀ env, outcome (takeNameHint node) env s = (.ok name, s') := by
    intro s
    simp only [takeNameHint, outcome_bind, outcome_get]
    split
    · split
      · exact ⟨_, { s with nameHint := none }, .of_eq rfl rfl rfl rfl rfl, fun _ => rfl⟩
      · exact ⟨_, s, .refl s, fun _ => rfl⟩
    · exact ⟨_, s, .refl s, fun _ => rfl⟩
  constructor
  · intro env env' s
    obtain ⟨name, s', -, h⟩ := ends s
    rw [h, h]
  · intro env s
    obtain ⟨name, s', hs, h⟩ := ends s
    rw [h]
    exact hs

theorem step_countMade (m : Node.MemberSymbol) : Step (countMade m) := by
  cases m with
  | written => exact step_of_ok (fun _ => ⟨⟩) id .refl fun _ _ => rfl
  | made symbol => exact step_modify fun _ => .of_eq rfl rfl rfl rfl rfl

/-! ### Routines that do not fail -/

section Succeeds

variable {β : Type} {f : α → LowerM β}

/-- From a state, a routine does not fail. -/
def Succeeds (env : Env) (s : State) {α : Type} (x : LowerM α) : Prop :=
  match outcome x env s with
  | (.ok _, s') => s'.stream.isPoisoned = s.stream.isPoisoned
  | (.error .poisoned, _) => False
  | (.error (.fault _), _) => True

theorem Succeeds.ne_poisoned (h : Succeeds env s x) :
    outcome x env s ≠ (.error .poisoned, s') := by
  intro ho
  rw [Succeeds, ho] at h
  exact h

theorem succeeds_bind (hx : Succeeds env s x) (hf : ∀ a t, Succeeds env t (f a)) :
    Succeeds env s (x >>= f) := by
  rw [Succeeds] at hx ⊢
  rw [outcome_bind]
  rcases ho : outcome x env s with ⟨(_ | _) | a, t⟩ <;> rw [ho] at hx
  · exact hx
  · exact trivial
  · have hf := hf a t
    rw [Succeeds] at hf
    dsimp only at hx ⊢
    rwa [hx] at hf

theorem succeeds_step (hx : Step x) : Succeeds env s x := by
  have h := hx.ends env s
  rw [Succeeds]
  rcases ho : outcome x env s with ⟨(_ | _) | a, t⟩ <;> rw [ho] at h
  · exact h
  · exact trivial
  · exact h.isPoisoned

theorem succeeds_isTerminated : Succeeds env s isTerminated := by
  rw [Succeeds, isTerminated, outcome_bind, outcome_get]
  dsimp only
  cases s.stream.endFault? with
  | some f => exact trivial
  | none => rfl

end Succeeds

end SourceIr.Lower
