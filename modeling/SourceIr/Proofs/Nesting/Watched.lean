import SourceIr.Proofs.Comparison.Drift
import SourceIr.Proofs.Comparison.Unit
import SourceIr.Proofs.Nesting.Ids

/-!
# Watching what is being lowered

The routines for parts are watched: they know which nodes are being lowered, as statements and as
expressions, and raise an alarm where a node is entered once more than the unit has nodes of its
number, or where no level of nesting is left.

* `watched`, the routines for parts under watch;
* `unlessAlarm`, the comparison of routines of which one may raise the alarm: other than that they
  do the same;
* `shallow`, what holds of every diagnostic but the one on nesting.
-/

namespace SourceIr.Lower

/-- The routines for parts as `nested` has them, under watch.  The numbers in `statements` and
`exprs` are those of the nodes that are being lowered, and `nodes` has those of the unit: a node
with a number of its own is entered only while it is not being lowered. -/
def watched (alarm : ∀ {α : Type}, LowerM α) (nodes : List Nat) :
    (levels : Nat) → (statements exprs : List Nat) → Parts
  | 0, _, _ =>
    { expr := fun _ _ _ => alarm
      statement := fun _ _ => alarm }
  | levels + 1, statements, exprs =>
    { expr := fun node scope loc =>
        if exprs.count node.id < nodes.count node.id then
          lowerExpr (watched alarm nodes levels statements (node.id :: exprs)) node scope loc
        else alarm
      statement := fun node scope =>
        if statements.count node.id < nodes.count node.id then
          lowerStatement (watched alarm nodes levels (node.id :: statements) exprs) node scope
        else alarm }

/-- The alarm as a fault. -/
def raise {α : Type} : LowerM α := throw (.fault alarmFault)

variable {env : Env} {s : State} {α β : Type} {x x' : LowerM α} {f f' : α → LowerM β}

/-! ### Until the alarm is raised -/

/-- From a state, the routines end alike unless the first raises the alarm. -/
def EndAlike (env : Env) (s : State) {α : Type} (x x' : LowerM α) : Prop :=
  (∃ t, outcome x env s = (.error (.fault alarmFault), t)) ∨ outcome x env s = outcome x' env s

theorem endAlike_rfl : EndAlike env s x x := .inr rfl

theorem endAlike_bind (hx : EndAlike env s x x') (hf : ∀ a t, EndAlike env t (f a) (f' a)) :
    EndAlike env s (x >>= f) (x' >>= f') := by
  rw [EndAlike, outcome_bind, outcome_bind]
  obtain ⟨t, h⟩ | h := hx
  · exact .inl ⟨t, by rw [h]⟩
  · rw [h]
    rcases outcome x' env s with ⟨e | a, t⟩
    · exact .inr rfl
    · exact hf a t

theorem endAlike_attempt (hx : EndAlike env s x x') :
    EndAlike env s (attempt x) (attempt x') := by
  rw [EndAlike, outcome_attempt, outcome_attempt]
  obtain ⟨t, h⟩ | h := hx
  · exact .inl ⟨t, by rw [h]⟩
  · exact .inr (by rw [h])

theorem endAlike_ite {p : Prop} [Decidable p] {y y' : LowerM α} (hx : EndAlike env s x x')
    (hy : EndAlike env s y y') : EndAlike env s (if p then x else y) (if p then x' else y') := by
  split
  · exact hx
  · exact hy

theorem endAlike_inChildStream {name : String} {root : ScopeId}
    (hx : ∀ s, EndAlike env s x x') :
    EndAlike env s (inChildStream name root x) (inChildStream name root x') := by
  rw [EndAlike, outcome_inChildStream, outcome_inChildStream]
  obtain ⟨t, h⟩ | h := hx (s.inChild name root)
  · exact .inl ⟨t, by rw [h]⟩
  · exact .inr (by rw [h])

theorem endAlike_lowerStatements {parts parts' : Parts}
    (hp : ∀ node scope s, EndAlike env s (parts.statement node scope) (parts'.statement node scope))
    (statements : List Node) (scope : ScopeId) (failed : Bool) :
    EndAlike env s (lowerStatements parts scope failed statements)
      (lowerStatements parts' scope failed statements) := by
  induction statements generalizing s scope failed with
  | nil => exact endAlike_rfl
  | cons statement rest ih =>
    refine endAlike_bind endAlike_rfl fun terminated t => endAlike_ite endAlike_rfl ?_
    refine endAlike_bind (endAlike_attempt (hp statement scope t)) fun next u => ?_
    cases next with
    | some next => exact ih next failed
    | none =>
      refine endAlike_bind endAlike_rfl fun e v => ?_
      split
      · exact endAlike_rfl
      · exact ih scope true

/-- Routines of which the first may raise the alarm. -/
def unlessAlarm (env : Env) : NestedComparison where
  Rel x x' := ∀ s, EndAlike env s x x'
  rel_pure _ _ := endAlike_rfl
  rel_bind hx hf s := endAlike_bind (hx s) hf
  rel_get _ h s := h s s
  rel_lookup _ _ _ _ _ hx hy _ := endAlike_bind endAlike_rfl fun e t => by
    split
    · exact hx _ t
    · exact endAlike_rfl
    · exact hy t
  rel_warnIdle _ _ h _ := endAlike_bind endAlike_rfl fun _ t =>
    endAlike_ite (endAlike_bind endAlike_rfl fun _ u => h u) (h t)
  rel_fault _ _ := endAlike_rfl
  rel_fail _ _ _ := endAlike_rfl
  rel_unlessFailed _ h s := endAlike_bind endAlike_rfl fun _ t => endAlike_ite endAlike_rfl (h t)
  rel_plain _ _ := endAlike_rfl
  rel_declare _ _ _ _ := endAlike_rfl
  rel_defer _ _ _ _ := endAlike_rfl
  rel_orDeclareFailed _ _ _ h s := endAlike_bind (endAlike_attempt (h s)) fun _ _ => endAlike_rfl
  rel_withFrame _ _ h _ := endAlike_bind endAlike_rfl fun _ t =>
    endAlike_bind (endAlike_attempt (h t)) fun _ _ => endAlike_rfl
  rel_inChildStream _ _ hx hf hf' h _ := endAlike_bind (endAlike_inChildStream hx) fun r t => by
    obtain ⟨unit, _ | a⟩ := r
    · rw [hf, hf']
      exact endAlike_rfl
    · exact h unit a t
  rel_lowerStatements h statements scope _ := endAlike_lowerStatements h statements scope false

/-- A watch whose alarm is a fault does what the routines do that are not watched, and what any
other watch does, unless it is raised. -/
theorem relParts_raise (parts : Nat → List Nat → List Nat → Parts) {nodes : List Nat}
    (hexpr : ∀ levels ss es node scope loc, es.count node.id < nodes.count node.id →
      (parts (levels + 1) ss es).expr node scope loc =
        lowerExpr (parts levels ss (node.id :: es)) node scope loc)
    (hstatement : ∀ levels ss es node scope, ss.count node.id < nodes.count node.id →
      (parts (levels + 1) ss es).statement node scope =
        lowerStatement (parts levels (node.id :: ss) es) node scope)
    (levels : Nat) (ss es : List Nat) :
    (unlessAlarm env).RelParts (watched raise nodes levels ss es) (parts levels ss es) := by
  have raised : ∀ {α : Type} (x : LowerM α), (unlessAlarm env).Rel raise x :=
    fun _ s => .inl ⟨s, rfl⟩
  induction levels generalizing ss es with
  | zero => exact ⟨fun _ _ _ => raised _, fun _ _ => raised _⟩
  | succ levels ih =>
    constructor
    · intro node scope loc
      rw [watched]
      dsimp only
      split
      next h =>
        rw [hexpr _ _ _ _ _ _ h]
        exact NestedComparison.rel_lowerExpr scope node loc (ih _ _)
      next => exact raised _
    · intro node scope
      rw [watched]
      dsimp only
      split
      next h =>
        rw [hstatement _ _ _ _ _ h]
        exact Comparison.rel_lowerStatement scope node (ih _ _)
      next => exact raised _

theorem relParts_nested_of_watched (nodes : List Nat) (levels : Nat) (ss es : List Nat) :
    (unlessAlarm env).RelParts (watched raise nodes levels ss es) (nested levels) :=
  relParts_raise (fun levels _ _ => nested levels) (fun _ _ _ _ _ _ _ => rfl)
    (fun _ _ _ _ _ _ => rfl) levels ss es

theorem relParts_watched (alarm : ∀ {α : Type}, LowerM α) (nodes : List Nat) (levels : Nat)
    (ss es : List Nat) :
    (unlessAlarm env).RelParts (watched raise nodes levels ss es)
      (watched alarm nodes levels ss es) :=
  relParts_raise (watched alarm nodes) (fun _ _ _ _ _ _ h => if_pos h)
    (fun _ _ _ _ _ h => if_pos h) levels ss es

/-! ### Diagnostics on nesting -/

theorem mem_warningsOfAll {streams : List Stream} {m : Message} :
    m ∈ Stream.warningsOfAll streams ↔ ∃ c ∈ streams, m ∈ c.allWarnings := by
  induction streams with
  | nil => simp [Stream.warningsOfAll]
  | cons c rest ih => simp [Stream.warningsOfAll, ih]

theorem mem_diagnostics {stream : Stream} {m : Message} : m ∈ stream.diagnostics ↔
    m ∈ stream.errors ∨ m ∈ stream.warnings ∨ ∃ c ∈ stream.children, m ∈ c.allWarnings := by
  cases stream
  simp [Stream.diagnostics, Stream.allWarnings, mem_warningsOfAll]

/-- No diagnostic of a stream is on nesting. -/
def Shallow (s : State) : Prop :=
  ∀ m ∈ s.stream.diagnostics, m.kind ≠ .recursionLimitExceeded

theorem Shallow.of_eq {s' : State} (hs : Shallow s) (he : s'.stream.errors = s.stream.errors)
    (hw : s'.stream.warnings = s.stream.warnings)
    (hc : s'.stream.children = s.stream.children) : Shallow s' := by
  intro m hm
  rw [mem_diagnostics, he, hw, hc, ← mem_diagnostics] at hm
  exact hs m hm

theorem Shallow.invalidate (hs : Shallow s) {m : Message} {log : Array Event}
    (hm : m.kind ≠ .recursionLimitExceeded) :
    Shallow { s with stream := s.stream.invalidate m, log } := by
  intro m' hm'
  simp only [mem_diagnostics, Stream.invalidate, Array.mem_push] at hm'
  rcases hm' with (h | rfl) | h
  · exact hs m' (mem_diagnostics.2 (.inl h))
  · exact hm
  · exact hs m' (mem_diagnostics.2 (.inr h))

theorem Shallow.addWarning (hs : Shallow s) {m : Message} {log : Array Event}
    (hm : m.kind ≠ .recursionLimitExceeded) :
    Shallow { s with stream := s.stream.addWarning m, log } := by
  intro m' hm'
  simp only [mem_diagnostics, Stream.addWarning, Array.mem_push] at hm'
  rcases hm' with h | (h | rfl) | h
  · exact hs m' (mem_diagnostics.2 (.inl h))
  · exact hs m' (mem_diagnostics.2 (.inr (.inl h)))
  · exact hm
  · exact hs m' (mem_diagnostics.2 (.inr (.inr h)))

theorem Shallow.around {inner : State} (hs : Shallow s) (hi : Shallow inner) :
    Shallow (s.around inner) := by
  intro m hm
  simp only [State.around, mem_diagnostics, Stream.addChild_eq, Array.mem_append,
    List.mem_append, List.mem_singleton] at hm
  rcases hm with (h | h) | h | ⟨c, h | rfl, hc⟩
  · exact hs m (mem_diagnostics.2 (.inl h))
  · split at h
    · exact hi m (mem_diagnostics.2 (.inl h))
    · simp at h
  · exact hs m (mem_diagnostics.2 (.inr (.inl h)))
  · exact hs m (mem_diagnostics.2 (.inr (.inr ⟨c, h, hc⟩)))
  · exact hi m (List.mem_append_right _ hc)

/-- The routines that issue no diagnostic on nesting. -/
def shallow : Drift where
  Le s s' := Shallow s → Shallow s'
  refl _ := id
  trans h h' := h' ∘ h
  small h hs := hs.of_eq h.errors h.warnings h.children
  aside hstream _ _ hs := by rwa [Shallow, hstream]
  invalidate _ hm hs := hs.invalidate hm
  addWarning _ hm hs := hs.addWarning hm
  defer _ := id
  enter _ := nofun
  leave h hs := hs.around (h nofun)

/-- Under a watch whose alarm is a fault, no diagnostic is on nesting. -/
theorem relParts_shallow (nodes : List Nat) (levels : Nat) (ss es : List Nat) :
    (shallow.comparison env).RelParts (watched raise nodes levels ss es)
      (watched raise nodes levels ss es) := by
  have raised : ∀ {α : Type}, (shallow.comparison env).Same (raise : LowerM α) := fun _ => id
  induction levels generalizing ss es with
  | zero => exact ⟨fun _ _ _ => raised, fun _ _ => raised⟩
  | succ levels ih =>
    refine ⟨fun node scope loc => ?_, fun node scope => ?_⟩
    · exact Outline.rel_ite (NestedComparison.rel_lowerExpr scope node loc (ih _ _)) raised
    · exact Outline.rel_ite (Comparison.rel_lowerStatement scope node (ih _ _)) raised

end SourceIr.Lower
