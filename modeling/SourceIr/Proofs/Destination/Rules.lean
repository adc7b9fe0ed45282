import SourceIr.Proofs.Destination.Tally

/-!
# Routines that keep to the counts

A routine keeps to the counts if all code that it adds does, so that every way of control through
this code brings to a block what the block may be entered with.  The rules are about the steps that
routines are made of; those for blocks give each block its counts when it is made, before it is
known which jumps will lead to it.

* `Tallies`, the routines that keep to the counts, and how they are put together;
* what is known where the state is read, and the steps that add no code;
* scopes, instructions, blocks and sinks;
* `tallies_deliver` and `tallies_settle_bind`, which bring a value to its location;
* `Tally.Suits`, the nodes that may stand at a place, and `tallying`, the logic of the routines that
  do not branch.
-/

namespace SourceIr.Lower

open SourceIr.Stream Tally Logic

/-- A routine that starts where control may be with certain counts, and returns, leads to where
control may be with others, and all code in between keeps to the counts of the blocks. -/
def Tallies {α : Type} (k : Probe) (env : Env) (c c' : Set Nat) (w : Tally) (x : LowerM α)
    (Q : Tally → α → Prop) : Prop :=
  Sound k c w → ∀ a s', Returns x env w.state a s' →
    ∃ w' : Tally, w'.state = s' ∧ Sound k c' w' ∧ Q w' a

variable {env : Env} {k : Probe} {c c' c₁ : Set Nat} {D : Option String → Prop}
  {w₀ w w' : Tally} {s s' : State} {scope : ScopeId} {b : BlockId} {v : InstId}
  {node : Node} {loc : ResultLoc} {kind : InstKind} {S : Set Nat} {location : Option Location}
  {bs : List (BlockId × Set Nat)} {α β : Type} {x : LowerM α} {f : α → LowerM β}
  {Q R : Tally → α → Prop}

theorem tallies_pure {a : α} (h : Q w a) : Tallies k env c c w (pure a) Q := by
  intro hs b s' hr
  obtain ⟨rfl, rfl⟩ := returns_pure.1 hr
  exact ⟨w, rfl, hs, h⟩

theorem tallies_bind {Q : Tally → β → Prop} (hx : Tallies k env c c₁ w x R)
    (hf : ∀ w' a, R w' a → Tallies k env c₁ c' w' (f a) Q) :
    Tallies k env c c' w (x >>= f) Q := by
  intro hs b s'' hr
  obtain ⟨a, s', hra, hrb⟩ := returns_bind.1 hr
  obtain ⟨w', rfl, hs', hR⟩ := hx hs a s' hra
  exact hf w' a hR hs' b s'' hrb

theorem tallies_mono (h : Tallies k env c c' w x R) (hQ : ∀ w' a, R w' a → Q w' a) :
    Tallies k env c c' w x Q := by
  intro hs a s' hr
  obtain ⟨w', rfl, hs', hR⟩ := h hs a s' hr
  exact ⟨w', rfl, hs', hQ w' a hR⟩

/-- What a routine leads on to is led to from before it as well. -/
theorem tallies_of_le (le : Le w₀ w) (h : Tallies k env c c' w x fun w' a => Le w w' ∧ Q w' a) :
    Tallies k env c c' w x fun w' a => Le w₀ w' ∧ Q w' a :=
  tallies_mono h fun _ _ ⟨le', hQ⟩ => ⟨le.trans le', hQ⟩

/-- More counts may be allowed at the end. -/
theorem tallies_subset (h : Tallies k env c c₁ w x Q)
    (hc : ∀ w' a, Q w' a → k.Live w'.state.stream → c₁ ⊆ c') : Tallies k env c c' w x Q := by
  intro hs a s' hr
  obtain ⟨w', rfl, hs', hQ⟩ := h hs a s' hr
  exact ⟨w', rfl, hs'.mono (hc w' a hQ), hQ⟩

/-- Any counts may be allowed where control does not get to. -/
theorem tallies_of_empty (h : Tallies k env c ∅ w x Q) : Tallies k env c c' w x Q :=
  tallies_subset h fun _ _ _ _ => Set.empty_subset c'

/-- Where the block has ended, control does not get to. -/
theorem tallies_pure_of_isTerminated {a : α} (ht : w.state.stream.isTerminated = true)
    (h : Q w a) : Tallies k env c ∅ w (pure a) Q := by
  intro hs b s' hr
  obtain ⟨rfl, rfl⟩ := returns_pure.1 hr
  exact ⟨w, rfl, hs.of_isTerminated ht, h⟩

/-- What is known of the tally at the start may be used. -/
theorem tallies_of_sound (h : Sound k c w → Tallies k env c c' w x Q) :
    Tallies k env c c' w x Q := fun hs => h hs hs

/-- A routine returns only where another one does. -/
theorem tallies_of_imp {y : LowerM α} (hy : Tallies k env c c' w y Q)
    (h : ∀ a s', Returns x env w.state a s' → Returns y env w.state a s') :
    Tallies k env c c' w x Q := fun hs a s' hr => hy hs a s' (h a s' hr)

/-- A routine that only goes to another state. -/
theorem tallies_step (w' : Tally) {a : α} (hr : outcome x env w.state = (.ok a, w'.state))
    (h : Sound k c w → Sound k c' w' ∧ Q w' a) : Tallies k env c c' w x Q := by
  intro hs b s' ht
  rw [Returns, hr] at ht
  obtain ⟨ha, rfl⟩ := Prod.mk.inj ht
  cases ha
  exact ⟨w', rfl, h hs⟩

/-- A routine that fails leads nowhere. -/
theorem tallies_of_fails (h : ∀ a s', ¬ Returns x env w.state a s') :
    Tallies k env c c' w x Q := fun _ a s' hr => absurd hr (h a s')

theorem tallies_fail {m : Message} : Tallies k env c c' w (fail m) Q :=
  tallies_of_fails fun _ _ => not_returns_fail

/-- An attempt, if what follows a failure never returns. -/
theorem tallies_attempt_bind {f : Option α → LowerM β} {Q : Tally → β → Prop}
    (hx : Tallies k env c c₁ w x R)
    (hsome : ∀ w' a, R w' a → Tallies k env c₁ c' w' (f (some a)) Q)
    (hnone : ∀ t b s', ¬ Returns (f none) env t b s') :
    Tallies k env c c' w (attempt x >>= f) Q := by
  intro hs b s'' hr
  obtain ⟨r, s', hra, hrb⟩ := returns_bind.1 hr
  cases r with
  | none => exact absurd hrb (hnone s' b s'')
  | some a =>
    obtain ⟨w', rfl, hs', hR⟩ := hx hs a s' (returns_attempt_some.1 hra)
    exact hsome w' a hR hs' b s'' hrb

/-! ### Reading the state -/

theorem tallies_get_bind {f : State → LowerM α} (h : Tallies k env c c' w (f w.state) Q) :
    Tallies k env c c' w (get >>= f) Q :=
  tallies_of_imp h fun _ _ => returns_get_bind.1

theorem tallies_read_bind {f : Env → LowerM α} (h : Tallies k env c c' w (f env) Q) :
    Tallies k env c c' w (read >>= f) Q :=
  tallies_of_imp h fun _ _ => returns_read_bind.1

theorem tallies_scopesFrom_bind {f : ScopeTree → LowerM α}
    (h : Tallies k env c c' w (f w.state.scopes) Q) :
    Tallies k env c c' w (scopesFrom scope >>= f) Q :=
  tallies_of_imp h fun _ _ => returns_scopesFrom_bind

theorem tallies_scopeAt_bind {f : Scope → LowerM α}
    (h : ∀ x, w.state.scopes.scope? scope = some x → Tallies k env c c' w (f x) Q) :
    Tallies k env c c' w (scopeAt scope >>= f) Q := by
  intro hs a s' hr
  obtain ⟨x, hx, hf⟩ := returns_scopeAt_bind hr
  exact h x hx hs a s' hf

theorem tallies_isTerminated_bind {f : Bool → LowerM α}
    (hend : w.state.stream.isTerminated = true → Tallies k env c c' w (f true) Q)
    (hgo : w.state.stream.isTerminated = false → Tallies k env c c' w (f false) Q) :
    Tallies k env c c' w (isTerminated >>= f) Q := by
  refine tallies_of_imp ?_ fun _ _ => returns_isTerminated_bind
  cases ht : w.state.stream.isTerminated with
  | true => exact hend ht
  | false => exact hgo ht

theorem tallies_currentBlock_bind {f : BlockId → LowerM α}
    (h : Tallies k env c c' w (f w.state.stream.currentBlock) Q) :
    Tallies k env c c' w (currentBlock >>= f) Q := by
  refine tallies_bind (R := fun w' b => w' = w ∧ b = w.state.stream.currentBlock)
    (tallies_get_bind (tallies_pure ⟨rfl, rfl⟩)) ?_
  rintro w' b ⟨rfl, rfl⟩
  exact h

theorem tallies_hasEffectSince_bind {start : Nat} {f : Bool → LowerM α}
    (h : ∀ effectful, Tallies k env c c' w (f effectful) Q) :
    Tallies k env c c' w (hasEffectSince start >>= f) Q := by
  intro hs a s' hr
  obtain ⟨effectful, hf⟩ := returns_hasEffectSince_bind hr
  exact h effectful hs a s' hf

/-- The last instruction, where it ends the block. -/
theorem Tally.Sound.val_of_last? (h : Sound k c w) (ht : w.state.stream.isTerminated = true)
    (hv : w.state.stream.last? = some v) : Val k w v := by
  obtain ⟨x, hx, hend⟩ := h.stream.isTerminated_iff.1 ht
  obtain rfl := Option.some.inj
    (hv.symm.trans (h.newest x (h.stream.lastInBlock?_eq.trans hx)))
  have hmem : x ∈ w.state.stream.insts.toList :=
    (List.mem_filter.1 (List.mem_of_getLast? hx)).1
  obtain ⟨i, hi⟩ := List.mem_iff_getElem?.1 hmem
  have hi : w.state.stream.insts[i]? = some x := by simpa using hi
  have hid := (h.stream.inst i x hi).1
  have hinst : w.state.stream.inst? x.id = some x := by
    rw [hid]
    exact hi
  refine ⟨?_, fun hl => hl.ne hinst fun hlocal => ?_⟩
  · rw [hid]
    exact (Array.getElem?_eq_some_iff.1 hi).1
  · have halloca := hlocal.1
    cases hk : x.kind <;> simp_all [InstKind.isAlloca, InstKind.isNoreturn]

theorem tallies_lastInst (ht : w.state.stream.isTerminated = true) :
    Tallies k env c ∅ w lastInst fun w' v =>
      Le w w' ∧ Val k w' v ∧ w'.state.stream.isTerminated = true := by
  refine tallies_of_sound fun hs => ?_
  obtain ⟨v, hv⟩ := hs.stream.last?_of_isTerminated ht
  refine tallies_get_bind (tallies_pure_of_isTerminated ht ?_)
  rw [hv]
  exact ⟨.refl w, hs.val_of_last? ht hv, ht⟩

/-! ### Steps that add no code -/

/-- A routine that leaves the code as it is. -/
theorem tallies_steady (h : ∀ a s', Returns x env w.state a s' → Steady w.state s') :
    Tallies k env c c w x fun w' _ =>
      Le w w' ∧ w'.state.stream.isTerminated = w.state.stream.isTerminated := by
  intro hs a s' hr
  obtain ⟨hs', le⟩ := hs.steady (h a s' hr)
  exact ⟨⟨s', w.counts⟩, rfl, hs', le, (h a s' hr).isTerminated⟩

theorem Tally.Steady.of_quiet (h : Quiet s s') : Steady s s' :=
  { Still.of_quiet h with
    grows := h.scopes ▸ .refl _
    root := h.streamRoot
    sinks := fun _ => by rw [h.sinks] }

theorem Tally.Steady.withScopes {scopes : ScopeTree} {log : Array Event}
    (hg : s.scopes.Grows scopes) (hwf : s.scopes.WellFormed → scopes.WellFormed) :
    Steady s { s with scopes, log } :=
  ⟨⟨hwf, rfl, rfl, rfl, rfl, rfl⟩, hg, rfl, fun _ => rfl⟩

theorem tallies_warnAt {d : DiagnosticKind} {message : String} :
    Tallies k env c c w (warnAt d message node) fun w' _ =>
      Le w w' ∧ w'.state.stream.isTerminated = w.state.stream.isTerminated := by
  refine tallies_steady fun _ s' hr => ?_
  rw [warnAt, returns_get_bind, note, returns_modify_bind] at hr
  obtain rfl := returns_modify.1 hr
  exact ⟨⟨id, rfl, rfl, rfl, rfl, rfl⟩, .refl _, rfl, fun _ => rfl⟩

theorem tallies_declare? {r : BindingRequest} :
    Tallies k env c c w (declare? scope r) fun w' _ => Le w w' := by
  refine tallies_mono (tallies_steady fun result s' hr => ?_) fun _ _ h => h.1
  rw [declare?, returns_read_bind, returns_get_bind] at hr
  replace hr := (returns_stopAt_bind hr).2
  split at hr
  next id scopes hd =>
    obtain ⟨_, s₁, h₁, hr⟩ := returns_bind.1 hr
    obtain rfl := returns_set.1 h₁
    obtain ⟨rfl, rfl⟩ := returns_pure.1 hr
    obtain ⟨rfl, rfl⟩ := Prod.mk.inj (ScopeTree.declare_eq_ok hd)
    exact .withScopes (ScopeTree.grows_addVar scope r) fun hwf => hwf.addVar r
  next =>
    obtain ⟨rfl, rfl⟩ := returns_pure.1 hr
    exact .of_quiet ⟨rfl, rfl, rfl, rfl, rfl, rfl⟩

theorem tallies_declare {r : BindingRequest} :
    Tallies k env c c w (declare scope r) fun w' _ => Le w w' := by
  refine tallies_bind tallies_declare? fun w₁ result le => ?_
  cases result with
  | ok id => exact tallies_pure le
  | error m => exact tallies_fail

theorem tallies_flowInto : Tallies k env c c w (flowInto scope v) fun w' _ => Le w w' := by
  refine tallies_mono (tallies_steady fun _ s' hr => ?_) fun _ _ h => h.1
  obtain rfl := returns_modify.1 hr
  refine ⟨⟨id, rfl, rfl, rfl, rfl, rfl⟩, .refl _, rfl, fun x => ?_⟩
  rw [lookup_flowInto, Option.map_map]
  congr 1
  funext sink
  simp only [Function.comp_apply]
  split <;> rfl

theorem tallies_remember {expr : Node} (he : expr ∈ k.root.nodes) :
    Tallies k env c c w (remember scope expr) fun w' _ =>
      Le w w' ∧ w'.state.stream = w.state.stream :=
  tallies_step ⟨{ w.state with deferred := (scope, expr) :: w.state.deferred }, w.counts⟩
    (outcome_modify _) fun hs => ⟨(hs.withDeferred he).1, (hs.withDeferred he).2, rfl⟩

theorem tallies_modify {g : State → State} (h : Quiet w.state (g w.state)) :
    Tallies k env c c w (modify g : LowerM PUnit) fun w' _ => Le w w' :=
  tallies_mono (tallies_steady fun _ _ hr => returns_modify.1 hr ▸ .of_quiet h) fun _ _ h => h.1

theorem tallies_withFrame {description : String}
    (hx : ∀ w', Le w w' → Tallies k env c c' w' x fun w'' a => Le w' w'' ∧ Q w'' a)
    (hQ : ∀ w' w'' a, Le w' w'' → Q w' a → Q w'' a) :
    Tallies k env c c' w (withFrame location description x) fun w' a => Le w w' ∧ Q w' a := by
  refine tallies_bind (tallies_modify ⟨rfl, rfl, rfl, rfl, rfl, rfl⟩) fun w₁ _ le₁ => ?_
  refine tallies_attempt_bind (hx w₁ le₁) (fun w₂ a ⟨le₂, ha⟩ => ?_) fun t b s' => ?_
  · refine tallies_bind (tallies_modify ⟨rfl, rfl, rfl, rfl, rfl, rfl⟩) fun w₃ _ le₃ => ?_
    exact tallies_pure ⟨(le₁.trans le₂).trans le₃, hQ w₂ w₃ a le₃ ha⟩
  · exact not_returns_bind fun _ _ => not_returns_throw

/-! ### Scopes -/

namespace Tally

/-- A scope may be used if a jump out of it is one that could be made around it, or if it leads to a
block that may be entered. -/
theorem In.opened {D' : Option String → Prop} {inner : ScopeId} (h : In k c D w scope)
    (e : Since w w') (hi : inner.index < w'.state.scopes.scopes.size)
    (ht : ∀ label target kind,
      w'.state.scopes.target? w'.state.streamRoot inner label = some (target, kind) →
      w.state.scopes.target? w.state.streamRoot scope label = some (target, kind) ∧
          (D label → D' label) ∨
        (∀ stop, breakBlock? kind = some stop → ∃ sink,
          w'.state.sinks.lookup target = some sink ∧
            Catches k c D' w' sink.resultLoc stop label) ∧
        ∀ step, continueBlock? kind = some step → Admits k c w' step) : In k c D' w' inner where
  index := hi
  start := (h.since e).start
  stop label target kind stop htarget hstop := by
    rcases ht label target kind htarget with ⟨hold, hD⟩ | ⟨hnew, -⟩
    · rw [← e.scopes.target?_eq h.index, ← e.root] at hold
      obtain ⟨sink, hsink, hc⟩ := (h.since e).stop label target kind stop hold hstop
      exact ⟨sink, hsink, { hc with target := fun hl hloc => (hc.target hl hloc).imp_right hD }⟩
    · exact hnew stop hstop
  step label target kind step htarget hstep := by
    rcases ht label target kind htarget with ⟨hold, -⟩ | ⟨-, hnew⟩
    · rw [← e.scopes.target?_eq h.index, ← e.root] at hold
      exact (h.since e).step label target kind step hold hstep
    · exact hnew step hstep

/-- A scope that no jump leaves. -/
theorem in_of_target?_eq_none (hi : scope.index < w.state.scopes.scopes.size)
    (hstart : w.state.stream.insts.size ≤ k.ptr.index → c = {0})
    (hn : ∀ label, w.state.scopes.target? w.state.streamRoot scope label = none) :
    In k c D w scope where
  index := hi
  start := hstart
  stop label _ _ _ ht := by simp [hn] at ht
  step label _ _ _ ht := by simp [hn] at ht

end Tally

/-- A scope without jumps of its own. -/
theorem tallies_openScope {kind : ScopeKind} (hs : In k c D w scope) (hk : exits kind = []) :
    Tallies k env c c w (openScope scope kind) fun w' inner =>
      Le w w' ∧ In k c D w' inner ∧ ∃ x, w'.state.scopes.scope? inner = some x ∧ x.kind = kind := by
  let w' : Tally := ⟨{ w.state with scopes := (w.state.scopes.openUnder scope kind).2 }, w.counts⟩
  refine tallies_step w' (outcome_openScope hs.index) fun hw => ?_
  have hg := ScopeTree.grows_openUnder (t := w.state.scopes) scope kind
  obtain ⟨hw', le⟩ := hw.steady (.withScopes hg fun hwf => hwf.openUnder hs.index)
  refine ⟨hw', le, hs.opened le.toSince (by simp [w']) fun label target kind' ht => ?_, _,
    ScopeTree.scope?_openUnder scope kind, rfl⟩
  rw [ScopeTree.target?_openUnder hs.index hw.root_lt] at ht
  split at ht
  · cases ht
  split at ht
  · obtain ⟨-, rfl⟩ := Prod.mk.inj (Option.some.inj ht)
    refine .inr ⟨fun stop hstop => ?_, fun step hstep => ?_⟩
    · exact absurd (hk ▸ mem_exits_of_breakBlock? hstop) List.not_mem_nil
    · exact absurd (hk ▸ mem_exits_of_continueBlock? hstep) List.not_mem_nil
  · exact .inl ⟨ht, id⟩

/-- No jump leaves the scope of a deferred expression. -/
theorem tallies_openDeferred (hstart : w.state.stream.insts.size ≤ k.ptr.index → c = {0}) :
    Tallies k env c c w (openScope scope .deferredBody) fun w' inner =>
      Le w w' ∧ In k c D w' inner := by
  intro hw inner s' hr
  obtain ⟨x, hx, -⟩ := returns_scopeAt_bind hr
  have hlt : scope.index < w.state.scopes.scopes.size := (Array.getElem?_eq_some_iff.1 hx).1
  rw [Returns, outcome_openScope hlt] at hr
  obtain ⟨hinner, rfl⟩ := Prod.mk.inj hr
  obtain rfl := Except.ok.inj hinner
  have hg := ScopeTree.grows_openUnder (t := w.state.scopes) scope .deferredBody
  obtain ⟨hw', le⟩ := hw.steady (.withScopes hg fun hwf => hwf.openUnder hlt)
  refine ⟨_, rfl, hw', le, in_of_target?_eq_none (by simp) hstart fun label => ?_⟩
  exact (ScopeTree.target?_openUnder hlt hw.root_lt _).trans (if_pos rfl)

/-! ### Instructions -/

/-- What is appended is not watched, unless it makes storage that stands in the source. -/
theorem Tally.val_withNext (w : Tally) (scope : ScopeId) (location : Option Location)
    (force : Bool) {gen : Bool} (hl : kind.isAlloca = true → gen = true) :
    Val k ⟨w.state.withNext kind scope location force gen, w.counts⟩ w.state.stream.next := by
  refine ⟨by simp [State.withNext, Stream.next], fun hlive => ?_⟩
  refine hlive.ne (x := ⟨w.state.stream.next, kind, w.state.stream.currentBlock, scope, location,
    force || isComptimeIn w.state.stream w.state.scopes scope, gen⟩) ?_ fun hlocal =>
      Bool.false_ne_true (hlocal.2.symm.trans (hl hlocal.1))
  rw [State.withNext, inst?_withNext]
  exact if_pos rfl

/-- An instruction that does not write to the storage that is watched. -/
theorem tallies_emitWith {force gen : Bool}
    (ht : ∀ t ∈ kind.targets, Admits k c w t)
    (hl : kind.isAlloca = true → gen = true)
    (hw : k.Live w.state.stream → kind.writes? ≠ some k.ptr)
    (hs : k.Live w.state.stream → kind.storage? ≠ some k.ptr) :
    Tallies k env c c w (emitWith kind scope location force gen) fun w' v =>
      Le w w' ∧ Val k w' v ∧ w'.state.stream.isTerminated = kind.isNoreturn := by
  intro hsound v s' hr
  obtain ⟨rfl, hd, rfl⟩ := returns_emitWith_eq hr
  have hval : Val k _ w.state.stream.next :=
    val_withNext w scope location force hl
  obtain ⟨hw', le⟩ := hsound.withNext c scope location force gen hd ht
    (fun hst hlive => absurd hst (hs hlive)) fun x hid hk _ _ hlive _ n ⟨_, _, hn⟩ => by
      rcases hn with ⟨hp, -⟩ | ⟨m, hm, rfl⟩
      · exact absurd (hid.symm.trans hp) (hval.2 hlive)
      · rw [hk, InstKind.writesTo_eq_zero (hw (hlive.of_grows grows_withNext))]
        exact hm
  exact ⟨_, rfl, hw', le, hval, isTerminated_withNext hsound.stream.current⟩

/-- An instruction that leads nowhere, and that does not write to the storage that is watched. -/
theorem tallies_emitPlain {force gen : Bool} (ht : kind.targets = [])
    (hl : kind.isAlloca = true → gen = true)
    (hw : k.Live w.state.stream → kind.writes? ≠ some k.ptr)
    (hs : k.Live w.state.stream → kind.storage? ≠ some k.ptr) :
    Tallies k env c c w (emitWith kind scope location force gen) fun w' v =>
      Le w w' ∧ Val k w' v :=
  tallies_mono (tallies_emitWith (by simp [ht]) hl hw hs) fun _ _ h => ⟨h.1, h.2.1⟩

/-- An instruction that reads nothing but what is not watched. -/
theorem tallies_emitOf {force gen : Bool} (ht : kind.targets = [])
    (hl : kind.isAlloca = true → gen = true) (ho : ∀ v ∈ kind.operands, Val k w v) :
    Tallies k env c c w (emitWith kind scope location force gen) fun w' v =>
      Le w w' ∧ Val k w' v :=
  tallies_emitPlain ht hl
    (fun hl h => (ho k.ptr (InstKind.mem_operands_of_writes? h)).2 hl rfl)
    fun hl h => (ho k.ptr (InstKind.mem_operands_of_storage? h)).2 hl rfl

theorem tallies_emitVoid :
    Tallies k env c c w (emitVoid scope location) fun w' v => Le w w' ∧ Val k w' v :=
  tallies_emitPlain rfl nofun nofun nofun

/-- A jump, or what ends a block otherwise. -/
theorem tallies_endWith {force gen : Bool} (hk : kind.isNoreturn = true)
    (ht : ∀ t ∈ kind.targets, Admits k c w t) :
    Tallies k env c ∅ w (emitWith kind scope location force gen) fun w' v =>
      Le w w' ∧ Val k w' v ∧ w'.state.stream.isTerminated = true := by
  have hl : kind.isAlloca = true → gen = true := by
    cases kind <;> simp_all [InstKind.isAlloca, InstKind.isNoreturn]
  have hs : kind.storage? = none := by cases kind <;> first | rfl | cases hk
  intro hsound v s' hr
  obtain ⟨w', rfl, hw', le, hv, hterm⟩ := tallies_emitWith ht hl
    (by simp [InstKind.writes?_of_isNoreturn hk]) (by simp [hs]) hsound v s' hr
  exact ⟨w', rfl, hw'.of_isTerminated (hterm.trans hk), le, hv, hterm.trans hk⟩

/-- The storage that is watched is written to. -/
theorem tallies_write {force gen : Bool} (hw : kind.writes? = some k.ptr)
    (hc : k.Live w.state.stream → c ⊆ {0}) :
    Tallies k env c k.ok w (emitWith kind scope location force gen) fun w' v =>
      Le w w' ∧ Val k w' v := by
  intro hsound v s' hr
  obtain ⟨rfl, hd, rfl⟩ := returns_emitWith_eq hr
  have ht : kind.targets = [] := by cases kind <;> first | rfl | cases hw
  have hst : kind.storage? = none := by cases kind <;> first | rfl | cases hw
  have hl : kind.isAlloca = true → gen = true := by
    intro halloca
    cases kind <;> contradiction
  have hval : Val k _ w.state.stream.next :=
    val_withNext w scope location force hl
  obtain ⟨hw', le⟩ := hsound.withNext k.ok scope location force gen hd (by simp [ht])
    (by simp [hst]) fun x hid hk _ _ hlive _ n hn => by
      rcases hn.2.2 with ⟨hp, -⟩ | ⟨m, hm, rfl⟩
      · exact absurd (hid.symm.trans hp) (hval.2 hlive)
      · rw [Set.mem_singleton_iff.1 (hc (hlive.of_grows grows_withNext) hm), hk,
          InstKind.writesTo_eq_one hw]
        exact Probe.one_mem_ok
  exact ⟨_, rfl, hw', le, hval⟩

/-! ### Blocks -/

theorem tallies_newBlock {name : String} (S : Set Nat) (p : Reserved w₀ w bs) :
    Tallies k env c c w (newBlock name) fun w' b =>
      Since w w' ∧ Reserved w₀ w' (bs ++ [(b, S)]) :=
  tallies_step (a := ⟨w.state.stream.blocks.size⟩)
    ⟨{ w.state with stream := (w.state.stream.newBlock name).2 }, _⟩ rfl
    fun hs => hs.newBlock p name S

theorem tallies_goto (p : Reserved w₀ w ((b, S) :: bs)) :
    Tallies k env c S w (goto b) fun w' _ => Since w w' ∧ Reserved w₀ w' bs :=
  tallies_step ⟨{ w.state with stream := w.state.stream.goto b }, w.counts⟩
    (outcome_modify _) fun hs => hs.goto p

theorem tallies_br {force gen : Bool} (hb : Admits k c w b) :
    Tallies k env c ∅ w (emitWith (.br b) scope location force gen) fun w' v =>
      Le w w' ∧ Val k w' v ∧ w'.state.stream.isTerminated = true :=
  tallies_endWith rfl fun _ ht => List.mem_singleton.1 ht ▸ hb

theorem tallies_condBr {test : InstId} {b' : BlockId} {force gen : Bool} (hb : Admits k c w b)
    (hb' : Admits k c w b') :
    Tallies k env c ∅ w (emitWith (.condBr test b b') scope location force gen) fun w' _ =>
      Le w w' := by
  refine tallies_mono (tallies_endWith rfl fun t ht => ?_) fun _ _ h => h.1
  rcases List.mem_cons.1 ht with rfl | ht
  · exact hb
  · exact List.mem_singleton.1 ht ▸ hb'

theorem tallies_branchInto {incoming : List (BlockId × InstId)} {force : Bool}
    (hb : Admits k c w b) :
    Tallies k env c ∅ w (branchInto b incoming v scope force) fun w' _ => Le w w' :=
  tallies_isTerminated_bind (fun ht => tallies_pure_of_isTerminated ht (.refl w)) fun _ =>
    tallies_currentBlock_bind (tallies_bind (tallies_br hb) fun _ _ h => tallies_pure h.1)

/-- Control goes on at the end of a construct. -/
theorem tallies_joinAt {incoming : List (BlockId × InstId)} (p : Reserved w₀ w [(b, S)]) :
    Tallies k env c S w (joinAt b incoming scope node) fun w' v => Le w₀ w' ∧ Val k w' v := by
  refine tallies_bind (tallies_goto p) fun w₁ _ ⟨_, p⟩ => ?_
  split
  · exact tallies_of_le p.le (tallies_emitPlain rfl nofun nofun nofun)
  · exact tallies_of_le p.le (tallies_emitPlain rfl nofun nofun nofun)

/-! ### Sinks -/

/-- The labels that lead to the storage that is watched, inside a construct that takes jumps. -/
def carried (k : Probe) (D : Option String → Prop) (node : Node) (loc : ResultLoc)
    (label : Option String) : Prop :=
  if node.kind.takesBreak label then loc = .existing k.ptr ∧ (k.strict → node.Fills) else D label

/-- No jump is meant for a block without a label. -/
theorem carried_eq_of_unlabelled {statements : List Node}
    (hk : node.kind = .block none statements) : carried k D node loc = D := by
  funext label
  rw [carried, hk]
  cases label <;> rfl

/-- A scope is opened with a sink for what arrives at its end. -/
theorem tallies_openTarget_bind {kind : ScopeKind} {stop : BlockId} {f : ScopeId → LowerM α}
    (hs : In k c D w scope) (p : Reserved w₀ w bs) (ha : Dest k c w node loc)
    (hstops : kind.stopsJumps = false)
    (htakes : ∀ label, kind.takesJump label = node.kind.takesBreak label)
    (hstop : breakBlock? kind = some stop) (hmem : (stop, k.after c loc) ∈ bs)
    (hstep : ∀ step, continueBlock? kind = some step → (step, c) ∈ bs)
    (h : ∀ w' inner, Since w w' → Reserved w₀ w' bs → w₀.state.sinks.lookup inner = none →
      In k c (carried k D node loc) w' inner → Tallies k env c c' w' (f inner) Q) :
    Tallies k env c c' w (do
      let inner ← openScope scope kind
      openSink inner loc
      f inner) Q := by
  let w' : Tally := ⟨{ w.state with
    scopes := (w.state.scopes.openUnder scope kind).2
    sinks := (⟨w.state.scopes.scopes.size⟩, ⟨loc, []⟩) :: w.state.sinks }, w.counts⟩
  have hopen : Tallies k env c c w (do
      let inner ← openScope scope kind
      openSink inner loc
      return inner) fun w' inner => Since w w' ∧ Reserved w₀ w' bs ∧
        w₀.state.sinks.lookup inner = none ∧ In k c (carried k D node loc) w' inner := by
    refine tallies_step w' (by rw [outcome_bind, outcome_openScope hs.index]; rfl)
      fun hw => ?_
    obtain ⟨hw', e, p', hfresh⟩ := hw.withTarget p hs.index kind loc
    refine ⟨hw', e, p', hfresh, hs.opened e (by simp [w']) fun label target kind' ht => ?_⟩
    rw [ScopeTree.target?_openUnder hs.index hw.root_lt, hstops, htakes] at ht
    rw [carried]
    split at ht
    · cases ht
    split at ht
    next htake =>
      obtain ⟨rfl, rfl⟩ := Prod.mk.inj (Option.some.inj ht)
      rw [if_pos htake]
      refine .inr ⟨fun stop' hstop' => ⟨⟨loc, []⟩, by simp [w'], ?_⟩, fun step hst =>
        p'.admits (hstep step hst)⟩
      obtain rfl := Option.some.inj (hstop.symm.trans hstop')
      have ha' := ha.since e
      refine ⟨p'.admits hmem, ha'.ptr, fun hl hloc => ⟨(ha'.target hl hloc).1, ?_⟩⟩
      rw [carried, if_pos htake]
      exact ⟨hloc, (ha'.target hl hloc).2⟩
    next htake =>
      rw [if_neg htake]
      exact .inl ⟨ht, id⟩
  have := tallies_bind hopen fun w' inner ⟨e, p, hfresh, hin⟩ => h w' inner e p hfresh hin
  simpa only [bind_assoc, pure_bind] using this

theorem tallies_closeSink (p : Reserved w₀ w bs) (hfresh : w₀.state.sinks.lookup scope = none) :
    Tallies k env c c w (closeSink scope) fun w' _ => Reserved w₀ w' bs :=
  tallies_step ⟨{ w.state with sinks := w.state.sinks.filter (·.1 != scope) }, w.counts⟩ rfl
    fun hs => hs.closeSink p hfresh

/-! ### Locations -/

/-- A value is brought to its location. -/
theorem tallies_deliver (hv : Val k w v) (ha : Dest k c w node loc) :
    Tallies k env c (k.after c loc) w (deliver v loc scope location) fun w' v =>
      Le w w' ∧ Val k w' v := by
  have store : ∀ (w' : Tally) (ptr : InstId), Le w w' → Val k w' ptr →
      Tallies k env c c w' (do let _ ← emitGen (.storePtr ptr v) scope location; return v)
        fun w'' v => Le w w'' ∧ Val k w'' v := by
    intro w' ptr le hptr
    refine tallies_bind (tallies_emitPlain rfl nofun (fun hl h => ?_) nofun)
      fun w'' _ ⟨le', _⟩ => ?_
    · exact hptr.2 hl (Option.some.inj h)
    · exact tallies_pure ⟨le.trans le', hv.since (le.trans le').toSince⟩
  cases loc with
  | existing ptr =>
    by_cases hptr : ptr = k.ptr
    · subst hptr
      rw [Probe.after_existing]
      refine tallies_bind (tallies_write rfl fun hl => (ha.target hl rfl).1)
        fun w' _ ⟨le, _⟩ => tallies_pure ⟨le, hv.since le.toSince⟩
    · rw [Probe.after_of_ne (by simpa using hptr)]
      exact store w ptr (.refl w) ⟨ha.ptr ptr rfl, fun _ => hptr⟩
  | alloc =>
    rw [Probe.after_alloc]
    have hmade : Tallies k env c c w (resultPtr .alloc scope location) fun w' ptr =>
        Le w w' ∧ ∀ p ∈ ptr, Val k w' p := by
      rw [resultPtr, map_eq_pure_bind]
      refine tallies_bind (tallies_emitPlain rfl (fun _ => rfl) nofun nofun) fun w' ptr h => ?_
      exact tallies_pure ⟨h.1, fun p hp => Option.some.inj hp ▸ h.2⟩
    refine tallies_bind hmade fun w' ptr ⟨le, hptr⟩ => ?_
    cases ptr with
    | some ptr => exact store w' ptr le (hptr ptr rfl)
    | none => exact tallies_pure ⟨le, hv.since le.toSince⟩
  | none | discard | ret =>
    simp only [Probe.after_none, Probe.after_discard, Probe.after_ret]
    exact tallies_pure ⟨.refl w, hv⟩

/-- A location is settled before the construct is lowered: storage that is made for it is not
watched. -/
theorem tallies_settle_bind {f : ResultLoc → LowerM α} (ha : Dest k c w node loc)
    (h : ∀ w' loc', Le w w' → Dest k c w' node loc' →
      Tallies k env c (k.after c loc') w' (f loc') fun w'' a => Le w' w'' ∧ Q w'' a) :
    Tallies k env c (k.after c loc) w (settle loc scope location >>= f) fun w'' a =>
      Le w w'' ∧ Q w'' a := by
  have keep : Tallies k env c (k.after c loc) w (f loc) fun w'' a => Le w w'' ∧ Q w'' a :=
    h w loc (.refl w) ha
  cases loc with
  | alloc =>
    have hmade : Tallies k env c c w (settle .alloc scope location) fun w' loc' =>
        Le w w' ∧ ∀ p ∈ loc'.ptr?, Val k w' p := by
      simp only [settle, resultPtr, map_eq_pure_bind, bind_assoc, pure_bind]
      refine tallies_bind (tallies_emitPlain rfl (fun _ => rfl) nofun nofun) fun w' ptr h => ?_
      exact tallies_pure ⟨h.1, fun p hp => Option.some.inj hp ▸ h.2⟩
    rw [Probe.after_alloc]
    refine tallies_bind hmade fun w' loc' ⟨le, hptr⟩ => ?_
    have hafter : ∀ w'', Le w' w'' → k.Live w''.state.stream → k.after c loc' ⊆ c := by
      intro w'' le' hl
      rw [Probe.after_of_ne]
      rintro rfl
      exact (hptr k.ptr rfl).2 (le'.live hl) rfl
    refine tallies_mono (tallies_subset (h w' loc' le (dest_of_ptr? hptr))
      fun w'' _ h' => hafter w'' h'.1) fun w'' a h' => ⟨le.trans h'.1, h'.2⟩
  | existing | none | discard | ret => exact keep

/-! ### The routines that do not branch -/

/-- A node stands where it may: it is part of the tree, and a `break` in it that leads to the
storage that is watched carries a value if it has to. -/
structure Tally.Suits (k : Probe) (D : Option String → Prop) (node : Node) : Prop where
  mem : node ∈ k.root.nodes
  carries : k.strict → ∀ label, D label → ¬ node.Breaks label none
  values : k.strict → ∀ label e, D label → node.Breaks label (some e) → e.Fills

namespace Tally.Suits

variable {part : Node}

theorem outer (h : Suits k D node) (hp : part ∈ node.kind.outer) : Suits k D part where
  mem := Node.tree_mem_nodes h.mem (Kind.mem_trees_of_outer hp)
  carries hs label hD hb := h.carries hs label hD (.outer hp hb)
  values hs label e hD hb := h.values hs label e hD (.outer hp hb)

theorem inner (h : Suits k D node) (hp : part ∈ node.kind.inner) :
    Suits k (carried k D node loc) part where
  mem := Node.tree_mem_nodes h.mem (Kind.mem_trees_of_inner hp)
  carries hs label hD hb := by
    rw [carried] at hD
    split at hD
    next ht => exact ((hD.2 hs).inner_cases hp ht).1 hb
    next ht => exact h.carries hs label hD (.inner hp (Bool.eq_false_iff.2 ht) hb)
  values hs label e hD hb := by
    rw [carried] at hD
    split at hD
    next ht => exact ((hD.2 hs).inner_cases hp ht).2 e hb
    next ht => exact h.values hs label e hD (.inner hp (Bool.eq_false_iff.2 ht) hb)

theorem used (h : Suits k D node) (hp : part ∈ node.kind.used) : Suits k D part := by
  rcases Kind.mem_outer_of_used hp with hp | ⟨field, hf, hp⟩
  · exact h.outer hp
  · exact (h.outer hf).outer hp

/-- Where no jump leads to the storage that is watched, every node of the tree may stand. -/
theorem of_mem (h : node ∈ k.root.nodes) : Suits k (fun _ => False) node :=
  ⟨h, fun _ _ => False.elim, fun _ _ _ => False.elim⟩

end Tally.Suits

/-- The logic of the routines that do not branch: they do not write to the storage that is
watched. -/
def tallying (env : Env) (k : Probe) (c : Set Nat) (D : Option String → Prop) : Logic env :=
  FreeLogic.toLogic {
    Point := Tally
    state := Tally.state
    Le := Tally.Le
    Val := Tally.Val k
    In := Tally.In k c D
    Fit := Tally.Suits k D
    mayCall := true
    mayStore := false
    Holds w x Q := Tallies k env c c w x fun w' a => Le w w' ∧ Q w' a
    le_refl := .refl
    le_trans := .trans
    val_mono le h := h.since le.toSince
    in_mono le h := h.since le.toSince
    fit_used h _ hp := h.used hp
    holds_pure h := tallies_pure ⟨.refl _, h⟩
    holds_bind hx hf := by
      refine tallies_bind hx fun w' a ⟨le, hR⟩ => ?_
      exact tallies_mono (hf w' a le hR) fun w'' b ⟨le', hQ⟩ => ⟨le.trans le', hQ⟩
    holds_get := tallies_get_bind (f := pure) (tallies_pure ⟨.refl _, rfl, rfl⟩)
    holds_read := tallies_read_bind (f := pure) (tallies_pure ⟨.refl _, rfl, rfl⟩)
    holds_set h := tallies_mono (tallies_steady fun _ _ hr => returns_set.1 hr ▸ .of_quiet h)
      fun _ _ h => ⟨h.1, trivial⟩
    holds_scopesFrom _ hs t s' hr := by
      obtain ⟨rfl, rfl⟩ := returns_scopesFrom hr
      exact ⟨_, rfl, hs, .refl _, rfl, rfl, hs.scopes⟩
    holds_fail := tallies_fail
    holds_throw _ := tallies_of_fails fun _ _ => not_returns_throw
    holds_warnAt := tallies_mono tallies_warnAt fun _ _ h => ⟨h.1, trivial⟩
    holds_emitWith _ hk ho := by
      obtain ⟨hplain, hrest⟩ := Bool.and_eq_true_iff.1 hk
      refine tallies_emitOf (InstKind.targets_of_isPlain hplain) (fun hl => ?_) ho
      simpa [hl] using (Bool.and_eq_true_iff.1 hrest).2
    holds_openScope hs hk := tallies_mono (tallies_openScope hs hk) fun _ _ h => ⟨h.1, h.2.1⟩
    holds_declare? _ _ := tallies_mono tallies_declare? fun _ _ le => ⟨le, trivial⟩
    holds_orDeclareFailed _ h hs a s' hr := h hs a s' hr.of_orDeclareFailed
    holds_withFrame hx hQ := tallies_withFrame hx hQ }

end SourceIr.Lower
