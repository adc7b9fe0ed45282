import SourceIr.Proofs.Comparison.Outline

/-!
# Drifts

What a lowering does to its state can be said step by step where it does not depend on where the
lowering stands: the steps are small, or put something on record.  What is said so holds of every
routine, in whatever way it ends.

* `Drift`, a way in which states change, with the steps that it allows;
* `Drift.comparison`, the routines that change the state in such a way.
-/

namespace SourceIr.Lower

/-- A way in which states change in the course of a lowering. -/
structure Drift where
  Le : State → State → Prop
  refl : ∀ s, Le s s
  trans : ∀ {s s' s''}, Le s s' → Le s' s'' → Le s s''
  small : ∀ {s s'}, Small s s' → Le s s'
  /-- What is neither in the stream nor in the scopes nor deferred may change. -/
  aside : ∀ {s s' : State}, s'.stream = s.stream → s'.scopes = s.scopes →
    s'.deferred = s.deferred → Le s s'
  /-- The nesting of nodes is not a routine's own concern. -/
  invalidate : ∀ {s m log}, m.isFatal = true → m.kind ≠ .recursionLimitExceeded →
    Le s { s with stream := s.stream.invalidate m, log }
  addWarning : ∀ {s m log}, m.isFatal = false → m.kind ≠ .recursionLimitExceeded →
    Le s { s with stream := s.stream.addWarning m, log }
  /-- An expression is remembered for a scope that has just been opened for it. -/
  defer : ∀ {s : State} {parent kind expr}, parent.index < s.scopes.scopes.size →
    Le s { s with
      scopes := (s.scopes.openUnder parent (.deferred kind)).2
      deferred := (⟨s.scopes.scopes.size⟩, expr) :: s.deferred }
  enter : ∀ {s name root}, Le s (s.inChild name root)
  leave : ∀ {s t name root}, Le (s.inChild name root) t → Le s (s.around t)

namespace Drift

variable (d : Drift) (env : Env) (s : State) {α β : Type} {x : LowerM α} {f : α → LowerM β}

/-- From a state on, a routine changes it in this way. -/
def Holds (x : LowerM α) : Prop := d.Le s (outcome x env s).2

variable {d env s}

theorem holds_of_eq (h : (outcome x env s).2 = s) : d.Holds env s x := by
  rw [Holds, h]
  exact d.refl s

theorem holds_pure (a : α) : d.Holds env s (pure a) := d.refl s

theorem holds_throw (e : Stop) : d.Holds env s (throw e : LowerM α) := d.refl s

theorem holds_bind (hx : d.Holds env s x) (hf : ∀ a t, d.Holds env t (f a)) :
    d.Holds env s (x >>= f) := by
  rw [Holds] at hx ⊢
  rw [outcome_bind]
  rcases ho : outcome x env s with ⟨e | a, t⟩ <;> rw [ho] at hx
  · exact hx
  · exact d.trans hx (hf a t)

theorem holds_ite {p : Prop} [Decidable p] {y : LowerM α} (hx : d.Holds env s x)
    (hy : d.Holds env s y) : d.Holds env s (if p then x else y) := by
  split
  · exact hx
  · exact hy

theorem holds_attempt (hx : d.Holds env s x) : d.Holds env s (attempt x) := by
  rw [Holds] at hx ⊢
  rw [outcome_attempt]
  rcases ho : outcome x env s with ⟨(_ | _) | a, t⟩ <;> rw [ho] at hx <;> exact hx

theorem holds_step (hx : Step x) : d.Holds env s x := by
  have h := hx.ends env s
  rw [Holds]
  rcases ho : outcome x env s with ⟨(_ | _) | a, t⟩ <;> rw [ho] at h
  · exact h.elim
  · exact h.2 ▸ d.refl s
  · exact d.small h

theorem recorded_eq (s : State) (limit : Nat) (m : Message) :
    s.recorded limit m = { m with callStack := (s.recorded limit m).callStack } := by
  cases m
  rw [State.recorded]
  split
  · rfl
  · rfl

/-- A routine that fails puts a diagnostic of its kind and level on record. -/
theorem holds_fail_of {m : Message} (h : ∀ callStack log,
    d.Le s { s with stream := s.stream.invalidate { m with callStack }, log }) :
    d.Holds env s (fail m : LowerM α) := by
  obtain ⟨log, ho⟩ := @outcome_fail α env s m
  rw [Holds, ho, recorded_eq]
  exact h _ log

theorem holds_fail {m : Message} (hm : IsError m) : d.Holds env s (fail m : LowerM α) :=
  holds_fail_of fun _ _ => d.invalidate hm.isFatal hm.kind_ne

theorem holds_warnAt {kind : DiagnosticKind} {message : String} {node : Node}
    (hk : kind.level = .warning) : d.Holds env s (warnAt kind message node) := by
  refine d.addWarning ?_ ?_
  · simp [Message.isFatal, Message.ofKind, hk, Level.isFatal]
  · rintro rfl
    cases hk

theorem holds_isTerminated : d.Holds env s isTerminated := by
  refine holds_of_eq ?_
  rw [isTerminated, outcome_bind, outcome_get]
  dsimp only
  cases s.stream.endFault? <;> rfl

theorem holds_declare? (scope : ScopeId) (r : BindingRequest) :
    d.Holds env s (declare? scope r) := by
  have h := outcome_declare? env s scope r
  rw [Holds]
  generalize outcome (declare? scope r) env s = o at h
  cases h with
  | fault | refused => exact d.refl s
  | declared h => exact d.small h

theorem holds_declare (scope : ScopeId) (r : BindingRequest) : d.Holds env s (declare scope r) := by
  have hd : d.Holds env s (declare? scope r) := holds_declare? scope r
  have h := outcome_declare? env s scope r
  rw [Holds] at hd
  rw [Holds, declare, outcome_bind]
  generalize outcome (declare? scope r) env s = o at h hd
  cases h with
  | fault => exact hd
  | declared => exact hd
  | refused hm => exact d.trans hd (holds_fail hm)

theorem holds_defer (scope : ScopeId) (kind : DeferKind) (expr : Node) : d.Holds env s (do
      let after ← openScope scope (.deferred kind)
      remember after expr
      return after) := by
  rw [Holds, outcome_bind]
  obtain ⟨f, -, ho⟩ | ⟨hlt, ho⟩ := outcome_openScope_cases (s := s) scope (.deferred kind) <;>
    rw [ho]
  · exact d.refl s
  · exact d.defer hlt

theorem holds_orDeclareFailed (node : Node) (name : String) (scope : ScopeId)
    (hx : d.Holds env s x) : d.Holds env s (orDeclareFailed x node name scope) := by
  refine holds_bind (holds_attempt hx) fun r t => ?_
  cases r with
  | some a => exact holds_pure a
  | none =>
    refine holds_bind (holds_declare? _ _) fun r u => ?_
    cases r with
    | ok var => exact d.aside rfl rfl rfl
    | error m => exact d.refl u

theorem holds_withFrame {location : Option Location} {description : String}
    (hx : ∀ s, d.Holds env s x) : d.Holds env s (withFrame location description x) := by
  have set : ∀ (g : CallStack → CallStack) t,
      d.Holds env t (modify fun s => { s with calls := g s.calls } : LowerM PUnit) :=
    fun g t => d.aside rfl rfl rfl
  refine holds_bind (set (·.push ⟨location, description⟩) s) fun _ t => ?_
  refine holds_bind (holds_attempt (hx t)) fun r u => ?_
  refine holds_bind (set (·.pop.2) u) fun _ v => ?_
  cases r with
  | some a => exact holds_pure a
  | none => exact holds_throw _

theorem holds_inChildStream {name : String} {root : ScopeId} (hx : ∀ s, d.Holds env s x) :
    d.Holds env s (inChildStream name root x) := by
  have h := hx (s.inChild name root)
  rw [Holds] at h ⊢
  rw [outcome_inChildStream]
  rcases ho : outcome x env (s.inChild name root) with ⟨(_ | _) | a, t⟩ <;> rw [ho] at h
  · exact d.leave h
  · exact d.trans d.enter h
  · exact d.leave h

theorem holds_lowerStatements {parts : Parts}
    (hp : ∀ node scope s, d.Holds env s (parts.statement node scope)) (statements : List Node)
    (scope : ScopeId) (failed : Bool) :
    d.Holds env s (lowerStatements parts scope failed statements) := by
  have done : ∀ (scope : ScopeId) (failed : Bool) t,
      d.Holds env t (if failed then throw .poisoned else return scope) :=
    fun _ _ _ => holds_ite (holds_throw _) (holds_pure _)
  induction statements generalizing s scope failed with
  | nil => exact done scope failed s
  | cons statement rest ih =>
    refine holds_bind holds_isTerminated fun terminated t => holds_ite ?_ ?_
    · exact holds_bind (holds_warnAt rfl) fun _ t => done scope failed t
    refine holds_bind (holds_attempt (hp statement scope t)) fun next u => ?_
    cases next with
    | some next => exact ih next failed
    | none =>
      refine holds_bind (x := read) (d.refl u) fun e v => ?_
      split
      · exact holds_throw _
      · exact ih scope true

/-- The routines that change the state in this way, from wherever they start. -/
def comparison (d : Drift) (env : Env) : NestedComparison where
  Rel x _ := ∀ s, d.Holds env s x
  rel_pure a _ := holds_pure a
  rel_bind hx hf s := holds_bind (hx s) hf
  rel_get _ h s := h s s
  rel_lookup _ _ _ _ _ hx hy s := by
    refine holds_bind (x := read) (d.refl s) fun e t => ?_
    split
    · exact hx _ t
    · exact holds_step (step_emitWith _ _ _ _ _)
    · exact hy t
  rel_warnIdle _ _ h s := holds_bind (x := read) (d.refl s) fun _ t =>
    holds_ite (holds_bind (holds_warnAt rfl) fun _ u => h u) (h t)
  rel_fault _ _ := holds_throw _
  rel_fail hm _ _ := holds_fail hm
  rel_unlessFailed _ h s := holds_ite (holds_throw _) (h s)
  rel_plain hx _ := holds_step hx.toStep
  rel_declare scope r _ _ := holds_declare scope r
  rel_defer scope kind expr _ := holds_defer scope kind expr
  rel_orDeclareFailed node name scope h s := holds_orDeclareFailed node name scope (h s)
  rel_withFrame _ _ h _ := holds_withFrame h
  rel_inChildStream _ _ hx hf _ h _ := by
    refine holds_bind (holds_inChildStream hx) fun r t => ?_
    obtain ⟨unit, _ | a⟩ := r
    · rw [hf]
      exact holds_throw _
    · exact h unit a t
  rel_lowerStatements h statements scope _ :=
    holds_lowerStatements (fun node scope s => h node scope s) statements scope false

end Drift

end SourceIr.Lower
