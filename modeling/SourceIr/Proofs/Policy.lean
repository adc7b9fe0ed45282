import SourceIr.Proofs.Comparison.Unit
import SourceIr.Proofs.Safety.Unit

/-!
# The two error policies side by side

The same routine is run under both policies from a state in which nothing has failed.  The runs
agree until something fails; from there on the policy that gives a unit up has nothing more to
record, and what the other one records comes behind.  So going on after a failure changes nothing
about a unit in which nothing fails, and only adds to the record of one that is poisoned.

* `Clean`, the states in which nothing has failed;
* `Onward`, what a run adds to the record, and `Ahead`, how the two runs stand after a failure;
* `policies`, the comparison of the two policies;
* `UnitRun.ExtendedBy`, how the two runs of a unit compare, and `Generator.extendedBy_proceed`,
  every unit under both policies.
-/

namespace SourceIr

/-- The same environment under a policy. -/
def Lower.Env.under (env : Lower.Env) (policy : ErrorPolicy) : Lower.Env :=
  { env with options := { env.options with errorPolicy := policy } }

namespace Lower

/-- Nothing has failed. -/
structure Clean (s : State) : Prop where
  errors : s.stream.errors = #[]
  isPoisoned : s.stream.isPoisoned = false
  failedVars : s.failedVars = []

/-- What comes on record comes behind what is on record. -/
structure Onward (s s' : State) : Prop where
  insts : s.stream.insts.toList <+: s'.stream.insts.toList
  errors : s.stream.errors.toList <+: s'.stream.errors.toList
  poisoned : s.stream.isPoisoned = true → s'.stream.isPoisoned = true

/-- How two runs stand when one has stopped at its first failure: the other one has recorded the
same and may have gone on. -/
structure Ahead (s s' : State) : Prop where
  insts : s.stream.insts.toList <+: s'.stream.insts.toList
  errors : ∃ m, s.stream.errors = #[m] ∧ s'.stream.errors[0]? = some m
  poisoned : s.stream.isPoisoned = true
  poisoned' : s'.stream.isPoisoned = true

namespace Onward

variable {s s' s'' : State}

theorem refl (s : State) : Onward s s := ⟨List.prefix_rfl, List.prefix_rfl, id⟩

theorem trans (h : Onward s s') (h' : Onward s' s'') : Onward s s'' where
  insts := h.insts.trans h'.insts
  errors := h.errors.trans h'.errors
  poisoned hp := h'.poisoned (h.poisoned hp)

/-- A change that does not concern the stream. -/
theorem of_stream (h : s'.stream = s.stream) : Onward s s' where
  insts := h ▸ List.prefix_rfl
  errors := h ▸ List.prefix_rfl
  poisoned hp := h ▸ hp

end Onward

/-- The run that goes on stays ahead. -/
theorem Ahead.onward {s s' s'' : State} (h : Ahead s s') (h' : Onward s' s'') : Ahead s s'' where
  insts := h.insts.trans h'.insts
  errors := by
    obtain ⟨m, hm, hm'⟩ := h.errors
    obtain ⟨rest, hr⟩ := h'.errors
    refine ⟨m, hm, ?_⟩
    rw [← Array.getElem?_toList] at hm' ⊢
    rw [← hr, List.getElem?_append, if_pos (List.getElem?_eq_some_iff.1 hm').1, hm']
  poisoned := h.poisoned
  poisoned' := h'.poisoned h.poisoned'

/-- What a run that goes on leaves behind, unless it breaks a rule. -/
def Continues {α : Type} (s : State) : Except Stop α × State → Prop
  | (.error (.fault _), _) => True
  | (.error .poisoned, s') => Onward s s'
  | (.ok _, s') => Onward s s'

/-- The two runs end alike, or they have failed and one is ahead, or a rule was broken. -/
inductive Meet {α : Type} : Except Stop α × State → Except Stop α × State → Prop
  | same {a : α} {s : State} (h : Clean s) : Meet (.ok a, s) (.ok a, s)
  | failed {s s' : State} (h : Ahead s s') : Meet (.error .poisoned, s) (.error .poisoned, s')
  | fault {f : Fault} {s : State} (r : Except Stop α × State) : Meet (.error (.fault f), s) r
  | fault' {f : Fault} {s : State} (r : Except Stop α × State) : Meet r (.error (.fault f), s)

/-- Two routines side by side from a state: one is given up at its first failure, the other one
goes on. -/
structure Abreast (env : Env) (s : State) {α : Type} (x x' : LowerM α) : Prop where
  continues : Continues s (outcome x' (env.under .proceed) s)
  meet : Clean s → Meet (outcome x (env.under .abort) s) (outcome x' (env.under .proceed) s)

variable {env : Env} {s s' : State} {α β : Type} {x x' : LowerM α} {f f' : α → LowerM β}

theorem Continues.of_onward {r : Except Stop α × State} (h : Onward s s')
    (hr : Continues s' r) : Continues s r := by
  obtain ⟨(_ | _) | _, t⟩ := r
  · exact h.trans hr
  · trivial
  · exact h.trans hr

/-! ### Rules -/

theorem abreast_pure (a : α) : Abreast env s (pure a) (pure a) :=
  ⟨.refl s, .same⟩

/-- Whatever runs after a failure under the policy that goes on only adds to the record. -/
theorem continues_bind {e : Env} (hx : Continues s (outcome x e s))
    (hf : ∀ a t, Continues t (outcome (f a) e t)) : Continues s (outcome (x >>= f) e s) := by
  rw [outcome_bind]
  rcases ho : outcome x e s with ⟨(_ | _) | a, t⟩ <;> rw [ho] at hx
  · exact hx
  · trivial
  · exact (hf a t).of_onward hx

theorem abreast_bind (hx : Abreast env s x x') (hf : ∀ a t, Abreast env t (f a) (f' a)) :
    Abreast env s (x >>= f) (x' >>= f') := by
  refine ⟨continues_bind hx.continues fun a t => (hf a t).continues, fun hs => ?_⟩
  have h := hx.meet hs
  rw [outcome_bind, outcome_bind]
  generalize outcome x (env.under .abort) s = r at h
  generalize outcome x' (env.under .proceed) s = r' at h
  cases h with
  | same h => exact (hf _ _).meet h
  | failed h => exact .failed h
  | fault => exact .fault _
  | fault' => exact .fault' _

theorem abreast_get_bind {f f' : State → LowerM β} (h : Abreast env s (f s) (f' s)) :
    Abreast env s (get >>= f) (get >>= f') := ⟨h.continues, h.meet⟩

theorem abreast_read_bind {f f' : Env → LowerM β}
    (h : Abreast env s (f (env.under .abort)) (f' (env.under .proceed))) :
    Abreast env s (read >>= f) (read >>= f') := ⟨h.continues, h.meet⟩

theorem abreast_ite {p : Prop} [Decidable p] {y y' : LowerM α} (hx : Abreast env s x x')
    (hy : Abreast env s y y') : Abreast env s (if p then x else y) (if p then x' else y') := by
  split
  · exact hx
  · exact hy

theorem abreast_fault (f : Fault) :
    Abreast env s (throw (.fault f) : LowerM α) (throw (.fault f)) :=
  ⟨trivial, fun _ => .fault _⟩

/-- A change that concerns neither the stream nor the declarations that have failed. -/
theorem abreast_set_of_eq (h : s'.stream = s.stream) (hf : s'.failedVars = s.failedVars) :
    Abreast env s (set s' : LowerM PUnit) (set s') :=
  ⟨Onward.of_stream h, fun hs => .same ⟨h ▸ hs.errors, h ▸ hs.isPoisoned, hf ▸ hs.failedVars⟩⟩

theorem abreast_modify {g : State → State}
    (h : Abreast env s (set (g s) : LowerM PUnit) (set (g s))) :
    Abreast env s (modify g : LowerM PUnit) (modify g) := ⟨h.continues, h.meet⟩

/-! ### Failures -/

/-- What a failure with a diagnostic adds to the record. -/
theorem onward_invalidate (m : Message) {log : Array Event} :
    Onward s { s with stream := s.stream.invalidate m, log } where
  insts := List.prefix_rfl
  errors := by simp [Stream.invalidate]
  poisoned _ := rfl

theorem abreast_fail {m : Message} : Abreast env s (fail m : LowerM α) (fail m) := by
  obtain ⟨log, h⟩ := @outcome_fail α (env.under .abort) s m
  obtain ⟨log', h'⟩ := @outcome_fail α (env.under .proceed) s m
  constructor
  · rw [h']
    exact onward_invalidate _
  · intro hs
    rw [h, h']
    exact .failed ⟨List.prefix_rfl, ⟨_, by simp [Stream.invalidate, hs.errors]; rfl,
      by simp [Stream.invalidate, hs.errors]; rfl⟩, rfl, rfl⟩

theorem continues_throw {e : Env} :
    Continues s (outcome (throw .poisoned : LowerM α) e s) := Onward.refl s

/-- A use of a variable: none has failed while nothing has. -/
theorem abreast_unlessFailed {var : VarId} (h : Abreast env s x x') : Abreast env s
    (do if (← get).failedVars.contains var then throw .poisoned else x)
    (do if (← get).failedVars.contains var then throw .poisoned else x') := by
  refine abreast_get_bind ⟨?_, fun hs => ?_⟩
  · split
    · exact continues_throw
    · exact h.continues
  · rw [hs.failedVars]
    exact h.meet hs

/-! ### Small steps -/

theorem Small.onward (h : Small s s') : Onward s s' where
  insts := h.insts
  errors := h.errors ▸ List.prefix_rfl
  poisoned := h.isPoisoned ▸ id

theorem Clean.small (hs : Clean s) (h : Small s s') : Clean s' :=
  ⟨h.errors.trans hs.errors, h.isPoisoned.trans hs.isPoisoned, h.failedVars.trans hs.failedVars⟩

theorem abreast_step (hx : Step x) : Abreast env s x x := by
  have h := hx.ends (env.under .proceed) s
  constructor
  · rcases ho : outcome x (env.under .proceed) s with ⟨(_ | _) | a, t⟩ <;> rw [ho] at h
    · exact h.elim
    · trivial
    · exact h.onward
  · intro hs
    rw [hx.same _ (env.under .proceed)]
    rcases ho : outcome x (env.under .proceed) s with ⟨(_ | _) | a, t⟩ <;> rw [ho] at h
    · exact h.elim
    · exact .fault _
    · exact .same (hs.small h)

/-- A routine that may stop at a breach goes on in the state it is in. -/
theorem abreast_stopAt_bind {e : Option Fault} {f f' : PUnit → LowerM β}
    (h : Abreast env s (f ⟨⟩) (f' ⟨⟩)) : Abreast env s (stopAt e >>= f) (stopAt e >>= f') := by
  cases e with
  | some e => exact ⟨trivial, fun _ => .fault _⟩
  | none => exact ⟨h.continues, h.meet⟩

theorem abreast_declare? (scope : ScopeId) (r : BindingRequest) :
    Abreast env s (declare? scope r) (declare? scope r) := by
  refine abreast_read_bind <| abreast_get_bind <| abreast_stopAt_bind ?_
  dsimp only [Env.under]
  split
  · exact abreast_bind (abreast_set_of_eq rfl rfl) fun _ _ => abreast_pure _
  · exact abreast_pure _

theorem abreast_declare (scope : ScopeId) (r : BindingRequest) :
    Abreast env s (declare scope r) (declare scope r) := by
  refine abreast_bind (abreast_declare? scope r) fun result _ => ?_
  cases result with
  | ok id => exact abreast_pure id
  | error m => exact abreast_fail

/-! ### Attempts -/

theorem continues_attempt {e : Env} (hx : Continues s (outcome x e s)) :
    Continues s (outcome (attempt x) e s) := by
  rw [outcome_attempt]
  rcases ho : outcome x e s with ⟨(_ | _) | a, t⟩ <;> rw [ho] at hx <;> exact hx

/-- How the two runs stand when a failure has been caught and is to be raised again. -/
theorem abreast_attempt_bind {f f' : Option α → LowerM β} (hx : Abreast env s x x')
    (hf : ∀ a t, Abreast env t (f (some a)) (f' (some a)))
    (hc : ∀ t, Continues t (outcome (f' none) (env.under .proceed) t))
    (hm : ∀ t t', Ahead t t' → Meet (outcome (f none) (env.under .abort) t)
      (outcome (f' none) (env.under .proceed) t')) :
    Abreast env s (attempt x >>= f) (attempt x' >>= f') := by
  constructor
  · refine continues_bind (continues_attempt hx.continues) fun r t => ?_
    cases r with
    | some a => exact (hf a t).continues
    | none => exact hc t
  · intro hs
    have h := hx.meet hs
    rw [outcome_bind, outcome_bind, outcome_attempt, outcome_attempt]
    generalize outcome x (env.under .abort) s = r at h
    generalize outcome x' (env.under .proceed) s = r' at h
    cases h with
    | same h => exact (hf _ _).meet h
    | failed h => exact hm _ _ h
    | fault => exact .fault _
    | fault' => exact .fault' _

/-- A routine that fails or breaks a rule, and has no say in the stream. -/
def Stops (e : Env) (x : LowerM α) : Prop :=
  ∀ s, (∃ f t, outcome x e s = (.error (.fault f), t)) ∨
    ∃ t, outcome x e s = (.error .poisoned, t) ∧ t.stream = s.stream

theorem Stops.continues {e : Env} (h : Stops e x) : Continues s (outcome x e s) := by
  obtain ⟨f, t, ho⟩ | ⟨t, ho, ht⟩ := h s
  · rw [ho]
    trivial
  · rw [ho]
    exact Onward.of_stream ht

/-- Routines that stop leave the two runs as they stand. -/
theorem Stops.meet (h : Stops (env.under .abort) x) (h' : Stops (env.under .proceed) x')
    (ha : Ahead s s') :
    Meet (outcome x (env.under .abort) s) (outcome x' (env.under .proceed) s') := by
  obtain ⟨f, t, ho⟩ | ⟨t, ho, ht⟩ := h s
  · rw [ho]
    exact .fault _
  obtain ⟨f, t', ho'⟩ | ⟨t', ho', ht'⟩ := h' s'
  · rw [ho']
    exact .fault' _
  · rw [ho, ho']
    exact .failed ⟨by rw [ht, ht']; exact ha.insts, by rw [ht, ht']; exact ha.errors,
      by rw [ht]; exact ha.poisoned, by rw [ht']; exact ha.poisoned'⟩

/-- A declaration that fails is remembered in the scopes. -/
theorem stops_declareFailed {e : Env} {node : Node} {name : String} {scope : ScopeId} :
    Stops e (declareFailed node name scope : LowerM α) := by
  intro s
  rw [declareFailed, outcome_bind]
  have h := outcome_declare? e s scope (.named name node.location)
  generalize outcome (declare? scope (.named name node.location)) e s = o at h
  cases h with
  | fault => exact .inl ⟨_, _, rfl⟩
  | @declared var t _ hs => exact .inr ⟨{ t with failedVars := var :: t.failedVars }, rfl, hs⟩
  | refused => exact .inr ⟨s, rfl, rfl⟩

theorem abreast_orDeclareFailed {node : Node} {name : String} {scope : ScopeId}
    (hx : Abreast env s x x') : Abreast env s (orDeclareFailed x node name scope)
      (orDeclareFailed x' node name scope) :=
  abreast_attempt_bind hx (fun a _ => abreast_pure a) (fun _ => stops_declareFailed.continues)
    fun _ _ ha => stops_declareFailed.meet stops_declareFailed ha

theorem abreast_withFrame {location : Option Location} {description : String}
    (hx : ∀ s, Abreast env s x x') : Abreast env s (withFrame location description x)
      (withFrame location description x') := by
  refine abreast_bind (abreast_modify (abreast_set_of_eq rfl rfl)) fun _ t => ?_
  have close : ∀ e : Env, Stops e (do
      modify fun s => { s with calls := s.calls.pop.2 }
      throw .poisoned : LowerM α) := fun e s => .inr ⟨_, rfl, rfl⟩
  refine abreast_attempt_bind (hx t) (fun a _ => ?_) (fun _ => (close _).continues)
    fun _ _ ha => (close _).meet (close _) ha
  exact abreast_bind (abreast_modify (abreast_set_of_eq rfl rfl)) fun _ _ => abreast_pure a

/-! ### Streams inside streams -/

/-- The stream around a stream inside it only grows. -/
theorem onward_around (s inner : State) : Onward s (s.around inner) := by
  constructor <;> simp only [State.around, Stream.addChild_eq]
  · exact List.prefix_rfl
  · simp
  · simp +contextual

/-- A stream in which nothing has failed leaves the one around it as it is but for the new child. -/
theorem Clean.around {inner : State} (hs : Clean s) (hi : Clean inner) :
    Clean (s.around inner) := by
  constructor
  · simp [State.around, Stream.addChild_eq, hs.errors, hi.isPoisoned]
  · simp [State.around, Stream.addChild_eq, hs.isPoisoned, hi.isPoisoned]
  · exact hi.failedVars

/-- The errors of a stream become errors of the one around it, under both policies. -/
theorem Ahead.around {inner inner' : State} (hs : Clean s) (h : Ahead inner inner') :
    Ahead (s.around inner) (s.around inner') := by
  obtain ⟨m, hm, hm'⟩ := h.errors
  have hne : inner'.stream.errors ≠ #[] := by
    rintro he
    simp [he] at hm'
  refine ⟨?_, ⟨m, ?_, ?_⟩, ?_, ?_⟩ <;>
    simp [State.around, Stream.addChild_eq, hs.errors, hm, hm', h.poisoned, h.poisoned', hne]

/-- What a compile-time block does after its stream is closed: if the stream has failed, so does
the block. -/
theorem abreast_inChildStream {f f' : Nat × Option α → LowerM β} {name : String} {root : ScopeId}
    (hx : ∀ s, Abreast env s x x') (hf : ∀ unit, f (unit, none) = throw .poisoned)
    (hf' : ∀ unit, f' (unit, none) = throw .poisoned)
    (h : ∀ unit a s, Abreast env s (f (unit, some a)) (f' (unit, some a))) :
    Abreast env s (inChildStream name root x >>= f) (inChildStream name root x' >>= f') := by
  have hx := hx (s.inChild name root)
  constructor
  · rw [outcome_bind, outcome_inChildStream]
    have hc := hx.continues
    rcases outcome x' (env.under .proceed) (s.inChild name root) with ⟨(_ | _) | a, t⟩
    · simp only [hf']
      exact onward_around s t
    · trivial
    · exact (h _ a _).continues.of_onward (onward_around s t)
  · intro hs
    have hm := hx.meet ⟨rfl, rfl, hs.failedVars⟩
    rw [outcome_bind, outcome_bind, outcome_inChildStream, outcome_inChildStream]
    generalize outcome x (env.under .abort) (s.inChild name root) = r at hm
    generalize outcome x' (env.under .proceed) (s.inChild name root) = r' at hm
    cases hm with
    | same ht => exact (h _ _ _).meet (hs.around ht)
    | failed ha =>
      simp only [hf, hf']
      exact .failed (ha.around hs)
    | fault => exact .fault _
    | fault' => exact .fault' _

/-! ### Statements -/

theorem abreast_isTerminated : Abreast env s isTerminated isTerminated :=
  abreast_get_bind <| abreast_stopAt_bind <| abreast_pure _

theorem abreast_warnAt (kind : DiagnosticKind) (message : String) (node : Node) :
    Abreast env s (warnAt kind message node) (warnAt kind message node) :=
  ⟨⟨List.prefix_rfl, List.prefix_rfl, id⟩, fun hs =>
    .same ⟨hs.errors, hs.isPoisoned, hs.failedVars⟩⟩

section Statements

variable {parts parts' : Parts}
  (hp : ∀ s node scope, Abreast env s (parts.statement node scope) (parts'.statement node scope))

include hp in
/-- Statements only add to the record, whether or not one before them has failed. -/
theorem continues_lowerStatements (failed : Bool) (statements : List Node) (scope : ScopeId)
    (s : State) :
    Continues s (outcome (lowerStatements parts' scope failed statements)
      (env.under .proceed) s) := by
  have done : ∀ (failed : Bool) (scope : ScopeId) t, Continues t
      (outcome (if failed then throw .poisoned else return scope) (env.under .proceed) t) := by
    intro failed scope t
    cases failed with
    | true => exact continues_throw
    | false => exact Onward.refl t
  induction statements generalizing failed scope s with
  | nil => exact done failed scope s
  | cons statement rest ih =>
    refine continues_bind abreast_isTerminated.continues fun terminated t => ?_
    cases terminated with
    | true => exact continues_bind (abreast_warnAt _ _ _).continues fun _ t => done failed scope t
    | false =>
      refine continues_bind (continues_attempt (hp t statement scope).continues) fun r u => ?_
      cases r with
      | some next => exact ih failed next u
      | none => exact ih true scope u

include hp in
/-- The block goes on after a failure under one policy only, and fails in the end. -/
theorem abreast_lowerStatements (statements : List Node) (scope : ScopeId) :
    Abreast env s (lowerStatements parts scope false statements)
      (lowerStatements parts' scope false statements) := by
  induction statements generalizing scope s with
  | nil => exact abreast_pure scope
  | cons statement rest ih =>
    refine abreast_bind abreast_isTerminated fun terminated t => ?_
    cases terminated with
    | true => exact abreast_bind (abreast_warnAt _ _ _) fun _ _ => abreast_pure scope
    | false =>
      refine abreast_attempt_bind (hp t statement scope) (fun next _ => ih next)
        (continues_lowerStatements hp true rest scope) fun u u' ha => ?_
      -- One run is given up here; the other one fails at the end of the block.
      change Meet (.error .poisoned, u)
        (outcome (lowerStatements parts' scope true rest) (env.under .proceed) u')
      have hc := continues_lowerStatements hp true rest scope u'
      rcases ho : outcome (lowerStatements parts' scope true rest) (env.under .proceed) u' with
        ⟨(_ | _) | a, v⟩
      · rw [ho] at hc
        exact .failed (ha.onward hc)
      · exact .fault' _
      · exact absurd ho not_returns_lowerStatements

end Statements

/-! ### The comparison -/

/-- The same routines under both policies. -/
def policies (env : Env) : NestedComparison where
  Rel x x' := ∀ s, Abreast env s x x'
  rel_pure a _ := abreast_pure a
  rel_bind hx hf s := abreast_bind (hx s) fun a t => hf a t
  rel_get _ h s := abreast_get_bind (h s s)
  rel_lookup _ _ _ _ _ hx hy s := abreast_read_bind <| by
    dsimp only [Env.under]
    split
    · exact hx _ s
    · exact abreast_step (step_emitWith _ _ _ _ _)
    · exact hy s
  rel_warnIdle _ _ h s := abreast_read_bind <|
    abreast_ite (abreast_bind (abreast_warnAt _ _ _) fun _ t => h t) (h s)
  rel_fault _ _ := abreast_fault _
  rel_fail _ _ _ := abreast_fail
  rel_unlessFailed _ h s := abreast_unlessFailed (h s)
  rel_plain hx _ := abreast_step hx.toStep
  rel_declare scope r _ _ := abreast_declare scope r
  rel_defer scope kind _ _ := abreast_bind (abreast_step (step_openScope scope (.deferred kind)))
    fun _ _ => abreast_bind (abreast_modify (abreast_set_of_eq rfl rfl)) fun _ _ => abreast_pure _
  rel_orDeclareFailed _ _ _ h s := abreast_orDeclareFailed (h s)
  rel_withFrame _ _ h _ := abreast_withFrame h
  rel_inChildStream _ _ hx hf hf' h _ := abreast_inChildStream hx hf hf' h
  rel_lowerStatements h statements scope _ :=
    abreast_lowerStatements (fun s node scope => h node scope s) statements scope

/-- The limit of nesting is the same under both policies. -/
theorem abreast_failDepth (node : Node) :
    Abreast env s (failDepth node : LowerM α) (failDepth node) :=
  abreast_read_bind abreast_fail

/-- The routines for parts run side by side, however many levels of nesting are left. -/
theorem relParts_nested (levels : Nat) :
    (policies env).RelParts (nested levels) (nested levels) := by
  induction levels with
  | zero =>
    have limit : ∀ {α : Type} (node : Node), (policies env).Same (failDepth node : LowerM α) :=
      fun node _ => abreast_failDepth node
    exact ⟨fun node _ _ => limit node, fun node _ => limit node⟩
  | succ levels ih =>
    exact ⟨fun node scope loc => NestedComparison.rel_lowerExpr scope node loc ih,
      fun node scope => Comparison.rel_lowerStatement scope node ih⟩

end Lower

/-! ### Units -/

open Lower

/-- A unit that was given up at its first failure, and the same unit where the lowering went on:
either both are the same, or both are poisoned and the second has recorded more. -/
structure UnitRun.ExtendedBy (a c : UnitRun) : Prop where
  isPoisoned : a.unit.isPoisoned = c.unit.isPoisoned
  same : a.unit.isPoisoned = false → a = c
  errors : a.unit.isPoisoned = true →
    ∃ m, a.unit.stream.errors = #[m] ∧ c.unit.stream.errors[0]? = some m
  insts : a.unit.isPoisoned = true → a.unit.stream.insts.toList <+: c.unit.stream.insts.toList

namespace Generator

variable (g : Generator) (node : Node) (name : String) (kind : UnitKind) (containers : List String)

/-- The same generator under a policy. -/
def under (policy : ErrorPolicy) : Generator :=
  { g with options := { g.options with errorPolicy := policy } }

/-- Runs that meet are such units, unless a rule is broken. -/
theorem extendedBy_of_meet {r r' : Except Stop PUnit × State} (h : Meet r r')
    (hr : ∀ f, r.1 ≠ .error (.fault f)) (hr' : ∀ f, r'.1 ≠ .error (.fault f)) :
    (UnitRun.ofEnd name kind r).ExtendedBy (.ofEnd name kind r') := by
  cases h with
  | same h =>
    exact ⟨rfl, fun _ => rfl, fun hp => absurd (h.isPoisoned.symm.trans hp) nofun,
      fun _ => List.prefix_rfl⟩
  | failed h =>
    exact ⟨h.poisoned.trans h.poisoned'.symm, fun hp => absurd (h.poisoned.symm.trans hp) nofun,
      fun _ => h.errors, fun _ => h.insts⟩
  | fault => exact absurd rfl (hr _)
  | fault' => exact absurd rfl (hr' _)

theorem extendedBy_runFunction :
    ((g.under .abort).runFunction node name kind containers).ExtendedBy
      ((g.under .proceed).runFunction node name kind containers) := by
  have ha := (g.under .abort).outcome_runFunction_ne_fault node name kind containers
  have hc := (g.under .proceed).outcome_runFunction_ne_fault node name kind containers
  have hparts := @relParts_nested ⟨g.table, g.options⟩ g.options.maxDepth
  rw [runFunction_eq] at ha hc ⊢
  rw [runFunction_eq (g.under .proceed)]
  exact extendedBy_of_meet name kind
    ((Comparison.rel_lowerAsFunction hparts _).meet ⟨rfl, rfl, rfl⟩) ha hc

theorem extendedBy_runTopLevel :
    ((g.under .abort).runTopLevel node name kind containers).ExtendedBy
      ((g.under .proceed).runTopLevel node name kind containers) := by
  have ha := (g.under .abort).outcome_runTopLevel_ne_fault node name kind containers
  have hc := (g.under .proceed).outcome_runTopLevel_ne_fault node name kind containers
  have hparts := @relParts_nested ⟨g.table, g.options⟩ g.options.maxDepth
  rw [runTopLevel_eq] at ha hc ⊢
  rw [runTopLevel_eq (g.under .proceed)]
  exact extendedBy_of_meet name kind
    ((Comparison.rel_lowerAsTopLevel hparts _).meet ⟨rfl, rfl, rfl⟩) ha hc

theorem extendedBy_runNode :
    ((g.under .abort).runNode node name containers).ExtendedBy
      ((g.under .proceed).runNode node name containers) := by
  rw [runNode, runNode]
  cases UnitKind.ofNode node
  case function | test => exact g.extendedBy_runFunction ..
  case topLevel | comptime => exact g.extendedBy_runTopLevel ..

/-- Every unit under both policies, in whichever way it is lowered. -/
theorem extendedBy_proceed (g : Generator) (node : Node) :
    ((g.under .abort).lower node).ExtendedBy ((g.under .proceed).lower node) ∧
      ((g.under .abort).lowerFnBody node).ExtendedBy ((g.under .proceed).lowerFnBody node) ∧
      ∀ decl, ((g.under .abort).lowerDecl decl node).ExtendedBy
        ((g.under .proceed).lowerDecl decl node) :=
  ⟨g.extendedBy_runNode .., g.extendedBy_runFunction .., fun _ => g.extendedBy_runNode ..⟩

/-- Two statements that fail: one diagnostic under the one policy, two under the other. -/
example : ((Generator.bare.under .abort).lower (.bare (.block none
      [.bare (.symbol "a"), .bare (.symbol "b")]))).unit.stream.errors.size = 1 ∧
    ((Generator.bare.under .proceed).lower (.bare (.block none
      [.bare (.symbol "a"), .bare (.symbol "b")]))).unit.stream.errors.size = 2 := by
  decide +kernel

end Generator

end SourceIr
