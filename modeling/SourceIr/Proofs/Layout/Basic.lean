import SourceIr.Proofs.Layout.Bound

/-!
# Routines that lay out blocks

A routine that starts at a good site and returns leads to a good site.  What may be used where a
construct starts may be used where it ends, and every block that it makes has been gone to.

* `Lays`, the routines that lead to a good site;
* `Site.Below`, a site that another one leads to, `Site.Le`, without leaving a block behind, and
  `Site.LeFrom`, where variables may be declared in scopes that were there;
* `lays_varPtr` and `lays_declareVar`, variables that are used and declared;
* `layout`, the logic of the routines that leave no block behind.
-/

namespace SourceIr.Lower

open SourceIr.Stream Site

variable {env : Env} {w w' w'' : Site} {α β : Type}

/-- A routine that leads from a good site to a good one, if it returns. -/
def Lays (env : Env) (w : Site) (x : LowerM α) (Q : Site → α → Prop) : Prop :=
  w.Good → ∀ a s', Returns x env w.state a s' →
    ∃ w', w'.state = s' ∧ w'.Good ∧ w.Ext w' ∧ Q w' a

/-- A site that is reached from another one: what may be used there may be used here.  Variables are
declared in new scopes only. -/
structure Site.Below (w w' : Site) : Prop extends Ext w w' where
  above : w'.Above w.current w'.current
  declares : DeclaresInside w w'

/-- A site that is reached without leaving a block behind, and without a change of where the
blocks that were there stand. -/
structure Site.Le (w w' : Site) : Prop extends Below w w' where
  pending : w'.pending = w.pending
  kept : ∀ b, b.index < w.state.stream.blocks.size → w'.parent b = w.parent b

/-- A site that is reached without leaving a block behind, where variables are declared in scopes
from the position `n` on. -/
structure Site.LeFrom (n : Nat) (w w' : Site) : Prop extends Ext w w' where
  above : w'.Above w.current w'.current
  declares : DeclaresFrom n w w'
  pending : w'.pending = w.pending
  kept : ∀ b, b.index < w.state.stream.blocks.size → w'.parent b = w.parent b

namespace Site

variable {n : Nat}

theorem Below.refl (w : Site) : Below w w := ⟨.refl w, .refl, .refl _ w⟩

theorem Below.trans (h : Below w w') (h' : Below w' w'') : Below w w'' where
  toExt := h.toExt.trans h'.toExt
  above := (h.above.ext h'.toExt).trans h'.above
  declares := h.declares.trans (h'.declares.mono h.scopes.size_le) h.toExt h'.toExt h'.above

theorem Avail.to {v : InstId} (h : w.Avail w.current v) (hb : Below w w') :
    w'.Avail w'.current v :=
  (h.ext hb.toExt).below hb.above

theorem Target.to {t : BlockId} (h : w.Target w.current t) (hb : Below w w') :
    w'.Target w'.current t :=
  (h.ext hb.toExt).below hb.above

theorem Loc.to {loc : ResultLoc} (h : w.Loc w.current loc) (hb : Below w w') :
    w'.Loc w'.current loc :=
  (h.ext hb.toExt).below hb.above

theorem In.to {scope : ScopeId} (h : w.In w.current scope) (hb : Below w w') :
    w'.In w'.current scope :=
  (h.ext hb.toExt hb.declares).below hb.above

/-- What is declared meanwhile, in whatever scope, is above the block at which one arrives. -/
theorem In.along {scope : ScopeId} (h : w.In w.current scope) (le : LeFrom n w w') :
    w'.In w'.current scope :=
  h.ext_of le.toExt le.above (fun i x hi hx hk => (le.declares.here i x hi hx hk).2)
    le.declares.nested

theorem LeFrom.refl (n : Nat) (w : Site) : LeFrom n w w :=
  ⟨.refl w, .refl, .refl n w, rfl, fun _ _ => rfl⟩

theorem LeFrom.trans (h : LeFrom n w w') (h' : LeFrom n w' w'') : LeFrom n w w'' where
  toExt := h.toExt.trans h'.toExt
  above := (h.above.ext h'.toExt).trans h'.above
  declares := h.declares.trans h'.declares h.toExt h'.toExt h'.above
  pending := h'.pending.trans h.pending
  kept b hb := (h'.kept b (Nat.lt_of_lt_of_le hb h.stream.blocks)).trans (h.kept b hb)

theorem LeFrom.mono {m : Nat} (h : LeFrom m w w') (hn : n ≤ m) : LeFrom n w w' :=
  { h with declares := h.declares.mono hn }

/-- Where variables are declared in new scopes only, no scope that was there is concerned. -/
theorem Le.from (h : Le w w') (hn : n ≤ w.state.scopes.scopes.size) : LeFrom n w w' :=
  { h with declares := h.declares.mono hn }

theorem LeFrom.le (h : LeFrom n w w') (hn : w.state.scopes.scopes.size ≤ n) : Le w w' :=
  { h with declares := h.declares.mono hn }

/-- Scopes that were opened on the way are new. -/
theorem Le.trans_from (h : Le w w') (h' : LeFrom n w' w'')
    (hn : w.state.scopes.scopes.size ≤ n) : Le w w'' :=
  ((h.from (Nat.le_refl _)).trans (h'.mono hn)).le (Nat.le_refl _)

theorem Le.refl (w : Site) : Le w w := ⟨.refl w, rfl, fun _ _ => rfl⟩

theorem Le.trans (h : Le w w') (h' : Le w' w'') : Le w w'' where
  toBelow := h.toBelow.trans h'.toBelow
  pending := h'.pending.trans h.pending
  kept b hb := (h'.kept b (Nat.lt_of_lt_of_le hb h.stream.blocks)).trans (h.kept b hb)

theorem LeFrom.of_ext (e : Ext w w') (hd : DeclaresFrom n w w') (hpending : w'.pending = w.pending)
    (hparent : w'.parent = w.parent) (hcurrent : w'.current = w.current) : LeFrom n w w' :=
  ⟨e, hcurrent ▸ .refl, hd, hpending, fun _ _ => by rw [hparent]⟩

/-- A change that concerns neither the blocks nor the instructions nor the tree. -/
theorem Le.of_ext (e : Ext w w') (hinsts : w'.state.stream.insts = w.state.stream.insts)
    (hchildren : w'.state.stream.children = w.state.stream.children)
    (hpending : w'.pending = w.pending) (hparent : w'.parent = w.parent)
    (hcurrent : w'.current = w.current) : Le w w' :=
  (LeFrom.of_ext e (.of_eq hinsts hchildren) hpending hparent hcurrent).le (Nat.le_refl _)

theorem Good.leFrom_quiet (hw : w.Good) {state : State} (h : Quiet w.state state) :
    LeFrom n w { w with state } :=
  .of_ext (hw.quiet h).2
    (.of_eq (congrArg Stream.insts h.stream) (congrArg Stream.children h.stream)) rfl rfl
    (congrArg Stream.currentBlock h.stream)

end Site

variable {x : LowerM α} {f : α → LowerM β} {Q R : Site → α → Prop}

theorem lays_pure {a : α} (h : Q w a) : Lays env w (pure a) Q := by
  intro hw b s' hr
  obtain ⟨rfl, rfl⟩ := returns_pure.1 hr
  exact ⟨w, rfl, hw, .refl w, h⟩

theorem lays_bind {Q : Site → β → Prop} (hx : Lays env w x R)
    (hf : ∀ w' a, Ext w w' → R w' a → Lays env w' (f a) Q) : Lays env w (x >>= f) Q := by
  intro hw b s'' hr
  obtain ⟨a, s', hra, hrb⟩ := returns_bind.1 hr
  obtain ⟨w', rfl, hw', e, hR⟩ := hx hw a s' hra
  obtain ⟨w'', rfl, hw'', e', hQ⟩ := hf w' a e hR hw' b s'' hrb
  exact ⟨w'', rfl, hw'', e.trans e', hQ⟩

theorem lays_mono (h : Lays env w x R) (hQ : ∀ w' a, Ext w w' → R w' a → Q w' a) :
    Lays env w x Q := by
  intro hw a s' hr
  obtain ⟨w', rfl, hw', e, hR⟩ := h hw a s' hr
  exact ⟨w', rfl, hw', e, hQ w' a e hR⟩

/-- What is known of a good site may be used. -/
theorem lays_of_good (h : w.Good → Lays env w x Q) : Lays env w x Q := fun hw => h hw hw

/-- What is known of a routine that returns may be used. -/
theorem lays_of_returns (h : ∀ a s', Returns x env w.state a s' → Lays env w x Q) :
    Lays env w x Q := fun hw a s' hr => h a s' hr hw a s' hr

/-- A routine returns only where another one does. -/
theorem lays_of_imp {y : LowerM α} (hy : Lays env w y Q)
    (h : ∀ a s', Returns x env w.state a s' → Returns y env w.state a s') : Lays env w x Q :=
  fun hw a s' hr => hy hw a s' (h a s' hr)

/-- A routine that only goes to another site. -/
theorem lays_step (w' : Site) {a : α} (hr : outcome x env w.state = (.ok a, w'.state))
    (hw : w.Good → w'.Good) (e : w.Good → Ext w w') (hQ : w.Good → Q w' a) : Lays env w x Q := by
  intro hw' b s' h
  rw [Returns, hr] at h
  obtain ⟨ha, hs⟩ := Prod.mk.inj h
  cases ha
  exact ⟨w', hs, hw hw', e hw', hQ hw'⟩

/-- A routine that fails leads nowhere. -/
theorem lays_of_fails (h : ∀ a s', ¬ Returns x env w.state a s') : Lays env w x Q :=
  fun _ a s' hr => absurd hr (h a s')

theorem lays_throw {e : Stop} : Lays env w (throw e) Q := lays_of_fails fun _ _ => not_returns_throw

theorem lays_fail {m : Message} : Lays env w (fail m) Q := lays_of_fails fun _ _ => not_returns_fail

/-! ### The steps as routines -/

theorem lays_get : Lays env w get fun w' s => w' = w ∧ s = w.state := by
  intro hw t s' hr
  obtain ⟨rfl, rfl⟩ := returns_get.1 hr
  exact ⟨w, rfl, hw, .refl w, rfl, rfl⟩

theorem lays_scopesFrom_bind {scope : ScopeId} {f : ScopeTree → LowerM α}
    (h : Lays env w (f w.state.scopes) Q) : Lays env w (scopesFrom scope >>= f) Q :=
  lays_of_imp h fun _ _ => returns_scopesFrom_bind

theorem lays_scopesFrom {scope : ScopeId} :
    Lays env w (scopesFrom scope) fun w' t => w' = w ∧ t = w.state.scopes ∧ t.WellFormed := by
  intro hw t s' hr
  obtain ⟨rfl, rfl⟩ := returns_scopesFrom hr
  exact ⟨w, rfl, hw, .refl w, rfl, rfl, hw.scopes⟩

theorem lays_scopeAt_bind {scope : ScopeId} {f : Scope → LowerM α}
    (h : ∀ x, w.state.scopes.scope? scope = some x → Lays env w (f x) Q) :
    Lays env w (scopeAt scope >>= f) Q := by
  intro hw a s' hr
  obtain ⟨x, hx, hf⟩ := returns_scopeAt_bind hr
  exact h x hx hw a s' hf

theorem lays_read : Lays env w read fun w' e => w' = w ∧ e = env := by
  intro hw t s' hr
  obtain ⟨rfl, rfl⟩ := returns_read.1 hr
  exact ⟨w, rfl, hw, .refl w, rfl, rfl⟩

theorem lays_quiet (n : Nat) {u : LowerM PUnit} {state : State}
    (hu : outcome u env w.state = (.ok ⟨⟩, state)) (h : Quiet w.state state) :
    Lays env w u fun w' _ => w.LeFrom n w' ∧ Quiet w.state w'.state :=
  lays_step { w with state } hu (fun hw => (hw.quiet h).1) (fun hw => (hw.quiet h).2)
    fun hw => ⟨hw.leFrom_quiet h, h⟩

theorem lays_warnAt {kind : DiagnosticKind} {message : String} {node : Node} :
    Lays env w (warnAt kind message node) fun w' _ => w.Le w' := by
  refine lays_bind lays_get ?_
  rintro w' s - ⟨rfl, rfl⟩
  refine lays_bind (lays_quiet w'.state.scopes.scopes.size outcome_note
    ⟨rfl, rfl, rfl, rfl, rfl, rfl⟩) fun w₁ _ _ ⟨le₁, _⟩ => ?_
  exact lays_step { w₁ with state := _ } (outcome_modify _) (·.addWarning _)
    (fun _ => ext_addWarning _) fun _ => (le₁.le (Nat.le_refl _)).trans
      (.of_ext (ext_addWarning _) rfl rfl rfl rfl rfl)

section Emit

variable {kind : InstKind} {scope : ScopeId} {location : Option Location} {force gen : Bool}

/-- Any instruction may be appended that leads where a branch may lead and reads what may be read;
it ends its block if control does not go on from it. -/
theorem lays_emitWith (hk : kind.concernsVars = false)
    (ht : ∀ t ∈ kind.targets, w.Target w.current t)
    (hr : w.state.stream.Readable w.parent w.current kind) :
    Lays env w (emitWith kind scope location force gen) fun w' v =>
      w.Le w' ∧ w'.Avail w'.current v ∧ (kind.isNoreturn → w'.state.stream.Ends w'.current) := by
  refine lays_of_good fun hw => ?_
  let w' := w.withNext kind scope location
    (force || isComptimeIn w.state.stream w.state.scopes scope) gen
    (w.state.log.push (.appended w.state.stream.name w.state.stream.next kind))
  have hd : kind.declares? = none := by cases kind <;> first | rfl | cases hk
  refine lays_of_returns fun v s' hret => ?_
  exact lays_step w' (outcome_emitWith hret.fault?_eq_none hr.lt hw.laid.coherent.current)
    (·.withNext hk ht hr) (fun _ => ext_withNext) fun _ =>
      ⟨(LeFrom.of_ext ext_withNext (declaresFrom_withNext hd) rfl rfl rfl).le (Nat.le_refl _),
        avail_withNext, ends_withNext⟩

/-- An instruction that has no say in where control goes, and nothing to do with variables, may be
appended if it reads what may be read. -/
theorem lays_emitPlain (hk : (kind.isPlain && !kind.concernsVars) = true)
    (h : ∀ v ∈ kind.operands, w.Avail w.current v) :
    Lays env w (emitWith kind scope location force gen) fun w' v =>
      w.Le w' ∧ w'.Avail w'.current v := by
  obtain ⟨hplain, hvars⟩ := Bool.and_eq_true_iff.1 hk
  have ht : kind.targets = [] := by cases kind <;> first | rfl | cases hplain
  refine lays_mono (lays_emitWith (by simpa using hvars) (by simp [ht]) ?_)
    fun _ _ _ ⟨le, hv, _⟩ => ⟨le, hv⟩
  cases kind <;> first | exact h | cases hplain

/-- A reference to a variable that a name leads to. -/
theorem lays_varPtr {name : String} {v : VarId} {table : DeclTable} (hs : w.In w.current scope)
    (h : w.state.scopes.lookup scope name table = some (.var v)) :
    Lays env w (emitWith (.varPtr v) scope location force gen) fun w' v =>
      w.Le w' ∧ w'.Avail w'.current v := by
  refine lays_of_good fun hw => lays_of_returns fun _ _ hret => ?_
  exact lays_step (w.withNext (.varPtr v) scope location
    (force || isComptimeIn w.state.stream w.state.scopes scope) gen _)
    (outcome_emitWith hret.fault?_eq_none nofun hw.laid.coherent.current)
    (·.withRef hs h) (fun _ => ext_withNext) fun _ =>
      ⟨(LeFrom.of_ext ext_withNext (declaresFrom_withNext rfl) rfl rfl rfl).le (Nat.le_refl _),
        avail_withNext⟩

end Emit

/-! ### Scopes and variables -/

section Scopes

variable {scope parent : ScopeId} {kind : ScopeKind}

/-- One scope lies inside another one, without the root of the stream between them. -/
def Site.Under (w : Site) (scope inner : ScopeId) : Prop :=
  w.state.scopes.Under w.state.streamRoot scope inner

theorem Site.Under.ext {inner : ScopeId} (h : w.Under scope inner)
    (hw : scope.index < w.state.scopes.scopes.size)
    (hi : inner.index < w.state.scopes.scopes.size) (e : Ext w w') : w'.Under scope inner := by
  rw [Site.Under, e.root]
  exact h.grows hw hi e.scopes

/-- A scope has just been opened inside another one. -/
structure Site.Opens (w w' : Site) (parent : ScopeId) (kind : ScopeKind) (scope : ScopeId) :
    Prop where
  index : scope.index = w.state.scopes.scopes.size
  scope? : w'.state.scopes.scope? scope = some ⟨scope, some parent, kind, #[], []⟩
  around : ∀ q, w'.state.scopes.OnChain q scope → q = scope ∨ w'.state.scopes.OnChain q parent
  vars : w'.state.scopes.vars = w.state.scopes.vars

/-- A scope without jumps of its own may be used wherever its parent may. -/
theorem lays_openScope (hp : parent.index < w.state.scopes.scopes.size) (hk : exits kind = []) :
    Lays env w (openScope parent kind) fun w' scope =>
      w.Le w' ∧ w'.Under parent scope ∧ (∀ b, w.In b parent → w'.In b scope) ∧
        w.Opens w' parent kind scope := by
  refine lays_of_good fun hw => ?_
  refine lays_step (w.withScope parent kind) (outcome_openScope hp) (·.withScope hp)
    (fun _ => ext_withScope)
    fun _ => ⟨.of_ext ext_withScope rfl rfl rfl rfl rfl,
      ScopeTree.under_openUnder hp hw.root_lt kind, fun b hb => hb.openUnder hw hk,
      rfl, ScopeTree.scope?_openUnder parent kind, fun q hq => ?_, rfl⟩
  exact ((ScopeTree.onChain_openUnder_iff hp).1 hq).imp_right
    ((ScopeTree.grows_openUnder parent kind).onChain_iff hp).2

/-- A variable that is declared is the last one. -/
theorem returns_declare {s s' : State} {r : BindingRequest} {var : VarId}
    (h : Returns (declare scope r) env s var s') : var = ⟨s.scopes.vars.size⟩ ∧
      ∃ log, s' = { s with scopes := (s.scopes.addVar scope r).2, log } := by
  obtain ⟨result, t, hd, h⟩ := returns_bind.1 h
  rw [declare?, returns_read_bind, returns_get_bind] at hd
  replace hd := (returns_stopAt_bind hd).2
  split at hd
  next id scopes hdecl =>
    obtain ⟨_, t', hset, hd⟩ := returns_bind.1 hd
    obtain rfl := returns_set.1 hset
    obtain ⟨rfl, rfl⟩ := returns_pure.1 hd
    obtain ⟨rfl, rfl⟩ := returns_pure.1 h
    obtain ⟨rfl, rfl⟩ := Prod.mk.inj (ScopeTree.declare_eq_ok hdecl)
    exact ⟨rfl, _, rfl⟩
  next =>
    obtain ⟨rfl, -⟩ := returns_pure.1 hd
    exact absurd h not_returns_fail

/-- A variable is declared and bound to its storage.  Only the scope in which it is declared is
concerned, and code may be lowered there as before. -/
theorem lays_declareVar {r : BindingRequest} {ptr : InstId} {location : Option Location}
    {gen : Bool} (hs : w.In w.current scope)
    (hr : ∀ v, r.comptime = .pending v → w.Avail w.current v) (hptr : w.Avail w.current ptr) :
    Lays env w (do
      let var ← declare scope r
      emitWith (.declVar var ptr) scope location false gen) fun w' _ =>
        w.LeFrom scope.index w' := by
  intro hw i s' hret
  obtain ⟨var, s₁, h₁, h₂⟩ := returns_bind.1 hret
  obtain ⟨rfl, log, rfl⟩ := returns_declare h₁
  have hlt := Avail.lt hptr
  obtain ⟨-, rfl⟩ := Prod.mk.inj (h₂.symm.trans (outcome_emitWith h₂.fault?_eq_none
    (fun d hd => by rw [List.mem_singleton.1 hd]; exact hlt) hw.laid.coherent.current))
  have e : Ext w ((w.withVar scope r).withNext (.declVar ⟨w.state.scopes.vars.size⟩ ptr) scope
      location (false || isComptimeIn w.state.stream (w.state.scopes.addVar scope r).2 scope) gen
      (log.push (.appended w.state.stream.name w.state.stream.next
        (.declVar ⟨w.state.scopes.vars.size⟩ ptr)))) := ext_withVar.trans ext_withNext
  refine ⟨_, rfl, hw.declaring hs.index hr hptr, e, .of_ext e ?_ rfl rfl rfl⟩
  have hvar : DeclaresFrom scope.index w (w.withVar scope r) := .of_eq rfl rfl
  exact hvar.trans declaresFrom_withDeclVar ext_withVar ext_withNext .refl

theorem lays_declareVar_bind {r : BindingRequest} {ptr : InstId} {location : Option Location}
    {gen : Bool} {f : InstId → LowerM α} (hs : w.In w.current scope)
    (hr : ∀ v, r.comptime = .pending v → w.Avail w.current v) (hptr : w.Avail w.current ptr)
    (h : ∀ w' i, w.LeFrom scope.index w' → Lays env w' (f i) Q) :
    Lays env w (do
      let var ← declare scope r
      let i ← emitWith (.declVar var ptr) scope location false gen
      f i) Q := by
  have hbind : Lays env w (do
      let var ← declare scope r
      emitWith (.declVar var ptr) scope location false gen) fun w' _ => w.LeFrom scope.index w' :=
    lays_declareVar hs hr hptr
  simpa only [bind_assoc] using lays_bind hbind fun w' i _ le => h w' i le

end Scopes

/-! ### Sinks -/

section Sinks

variable {scope parent : ScopeId} {kind : ScopeKind} {loc : ResultLoc}

/-- A scope that can be left early, with its sink, may be used where the blocks that it is left
for may be gone to, and where its storage may be used. -/
theorem lays_openTarget_bind {f : ScopeId → LowerM α}
    (hp : parent.index < w.state.scopes.scopes.size)
    (h : ∀ w' scope, w.Le w' → scope.index = w.state.scopes.scopes.size →
      (∀ b, w.In b parent → (∀ t ∈ exits kind, w.Target b t) → w.Loc b loc → w'.In b scope) →
      Lays env w' (f scope) Q) :
    Lays env w (do
      let scope ← openScope parent kind
      openSink scope loc
      f scope) Q := by
  have hopen : Lays env w (do
      let scope ← openScope parent kind
      openSink scope loc
      return scope) fun w' scope => w.Le w' ∧ scope.index = w.state.scopes.scopes.size ∧
        ∀ b, w.In b parent → (∀ t ∈ exits kind, w.Target b t) → w.Loc b loc → w'.In b scope := by
    refine lays_of_good fun hw => ?_
    exact lays_step (w.withTarget parent kind loc)
      (by rw [outcome_bind, outcome_openScope hp]; rfl) (·.withTarget hp)
      (fun _ => ext_withTarget)
      fun _ => ⟨.of_ext ext_withTarget rfl rfl rfl rfl rfl, rfl,
        fun b hs ht hl => hs.withTarget hw ht hl⟩
  have := lays_bind hopen fun w' scope _ ⟨le, hi, hs⟩ => h w' scope le hi hs
  simpa only [bind_assoc, pure_bind] using this

/-- The storage behind a sink stays when a value flows into one. -/
theorem lookup_push {sinks : List (ScopeId × BreakSink)} {block : BlockId} {value : InstId}
    {x : ScopeId} {sink' : BreakSink}
    (h : (sinks.map fun entry : ScopeId × BreakSink =>
      if entry.1 = scope then (scope, entry.2.push block value) else entry).lookup x = some sink') :
    ∃ sink, sinks.lookup x = some sink ∧ sink'.resultLoc = sink.resultLoc := by
  induction sinks with
  | nil => cases h
  | cons entry rest ih =>
    obtain ⟨y, sink⟩ := entry
    rw [List.map_cons, List.lookup_cons] at h
    rw [List.lookup_cons]
    by_cases hy : y = scope
    · subst hy
      simp only [if_true] at h
      cases hx : x == y <;> simp only [hx] at h ⊢
      · exact ih h
      · cases h
        exact ⟨_, rfl, rfl⟩
    · simp only [hy, if_false] at h
      cases hx : x == y <;> simp only [hx] at h ⊢
      · exact ih h
      · cases h
        exact ⟨_, rfl, rfl⟩

theorem lays_flowInto {value : InstId} (hv : w.Avail w.current value) :
    Lays env w (flowInto scope value) fun w' _ => w.Le w' := by
  refine lays_of_good fun hw => ?_
  have e : Ext w (w.withSinks (w.state.sinks.map fun entry =>
      if entry.1 = scope then (scope, entry.2.push w.current value) else entry)) :=
    ext_withSinks fun _ _ => lookup_push
  refine lays_step (w.withSinks _) (outcome_modify _)
    (fun _ => hw.withSinks (fun _ _ => lookup_push) ?_) (fun _ => e)
    fun _ => .of_ext e rfl rfl rfl rfl rfl
  intro entry he
  obtain ⟨old, hold, rfl⟩ := List.mem_map.1 he
  have hold := hw.sinks old hold
  split
  next h =>
    refine ⟨h ▸ hold.1, fun f hf => ?_⟩
    rcases List.mem_append.1 hf with hf | hf
    · exact hold.2 f hf
    · rw [List.mem_singleton.1 hf]
      exact hv
  next => exact hold

theorem lookup_filter {sinks : List (ScopeId × BreakSink)} {x : ScopeId} {sink : BreakSink}
    (h : (sinks.filter (·.1 != scope)).lookup x = some sink) : sinks.lookup x = some sink := by
  induction sinks with
  | nil => cases h
  | cons entry rest ih =>
    obtain ⟨y, other⟩ := entry
    rw [List.lookup_cons]
    by_cases hy : y = scope
    · rw [List.filter_cons_of_neg (by simp [hy])] at h
      cases hx : x == y
      · exact ih h
      · -- The sink of the scope is gone.
        obtain ⟨l₁, l₂, hl, -⟩ := List.lookup_eq_some_iff.1 h
        have hmem : (x, sink) ∈ rest.filter (·.1 != scope) := by simp [hl]
        have := (List.mem_filter.1 hmem).2
        simp [eq_of_beq hx, hy] at this
    · rw [List.filter_cons_of_pos (by simpa using hy), List.lookup_cons] at h
      cases hx : x == y <;> simp only [hx] at h ⊢
      · exact ih h
      · exact h

theorem lays_closeSink :
    Lays env w (closeSink scope) fun w' r =>
      w.Le w' ∧ w'.state.stream = w.state.stream ∧ ∀ f ∈ r, w'.Avail f.1 f.2 := by
  refine lays_of_good fun hw => ?_
  have e : Ext w (w.withSinks (w.state.sinks.filter (·.1 != scope))) :=
    ext_withSinks fun _ sink h => ⟨sink, lookup_filter h, rfl⟩
  refine lays_step (w.withSinks (w.state.sinks.filter (·.1 != scope))) rfl
    (·.withSinks (fun _ sink h => ⟨sink, lookup_filter h, rfl⟩)
      fun entry he => hw.sinks entry (List.mem_filter.1 he).1) (fun _ => e)
    fun _ => ⟨.of_ext e rfl rfl rfl rfl rfl, rfl, fun f hf => ?_⟩
  cases h : w.state.sinks.lookup scope with
  | none => simp [h] at hf
  | some sink =>
    simp only [h, Option.map_some, Option.getD_some] at hf
    obtain ⟨l₁, l₂, hl, -⟩ := List.lookup_eq_some_iff.1 h
    exact ((hw.sinks (scope, sink) (by simp [hl])).2 f hf).ext e

end Sinks

/-! ### The logic of the routines that leave no block behind -/

/-- An attempt, if what follows a failure never returns. -/
theorem lays_attempt_bind {f : Option α → LowerM β} {Q : Site → β → Prop} (hx : Lays env w x R)
    (hsome : ∀ w' a, Ext w w' → R w' a → Lays env w' (f (some a)) Q)
    (hnone : ∀ t b s', ¬ Returns (f none) env t b s') : Lays env w (attempt x >>= f) Q := by
  intro hw b s'' hr
  obtain ⟨r, s', hra, hrb⟩ := returns_bind.1 hr
  cases r with
  | none => exact absurd hrb (hnone s' b s'')
  | some a =>
    obtain ⟨w', rfl, hw', e, hR⟩ := hx hw a s' (returns_attempt_some.1 hra)
    obtain ⟨w'', rfl, hw'', e', hQ⟩ := hsome w' a e hR hw' b s'' hrb
    exact ⟨w'', rfl, hw'', e.trans e', hQ⟩

theorem lays_orDeclareFailed {node : Node} {name : String} {scope : ScopeId}
    (h : Lays env w x Q) : Lays env w (orDeclareFailed x node name scope) Q :=
  fun hw a s' hr => h hw a s' hr.of_orDeclareFailed

theorem lays_withFrame (n : Nat) {location : Option Location} {description : String}
    (hx : ∀ w', w.LeFrom n w' → Quiet w.state w'.state →
      Lays env w' x fun w'' a => w'.LeFrom n w'' ∧ Q w'' a)
    (hQ : ∀ w' a state, w'.Good → Quiet w'.state state → Q w' a → Q { w' with state } a) :
    Lays env w (withFrame location description x) fun w' a => w.LeFrom n w' ∧ Q w' a := by
  have quiet : ∀ (t : State) (calls : CallStack), Quiet t { t with calls } :=
    fun t calls => ⟨rfl, rfl, rfl, rfl, rfl, rfl⟩
  refine lays_bind (lays_quiet n (outcome_modify _) (quiet _ _)) fun w₁ _ _ ⟨le₁, q₁⟩ => ?_
  refine lays_attempt_bind (hx w₁ le₁ q₁) (fun w₂ a _ ⟨le₂, ha⟩ => ?_) fun t b s' => ?_
  · have q := quiet w₂.state w₂.state.calls.pop.2
    refine lays_bind (R := fun w₃ _ => w₂.LeFrom n w₃ ∧ Q w₃ a) ?_
      fun w₃ _ _ ⟨le₃, ha⟩ => lays_pure ⟨(le₁.trans le₂).trans le₃, ha⟩
    exact lays_step { w₂ with state := _ } (outcome_modify _) (fun hw => (hw.quiet q).1)
      (fun hw => (hw.quiet q).2) fun hw => ⟨hw.leFrom_quiet q, hQ w₂ a _ hw q ha⟩
  · exact not_returns_bind fun _ _ => not_returns_throw

/-- The logic of the routines that leave no block behind, where variables are declared in scopes
from the position `n` on. -/
def layout (env : Env) (n : Nat) : Logic env where
  Point := Site
  state := Site.state
  Le := Site.LeFrom n
  Val w v := w.Avail w.current v
  In w scope := w.In w.current scope
  Fit _ := True
  mayCall := true
  mayStore := true
  Holds w x Q := n ≤ w.state.scopes.scopes.size →
    Lays env w x fun w' a => w.LeFrom n w' ∧ Q w' a
  le_refl := Site.LeFrom.refl n
  le_trans := Site.LeFrom.trans
  val_mono le hv := (hv.ext le.toExt).below le.above
  in_mono le hs := hs.along le
  fit_used _ _ _ := trivial
  holds_pure h _ := lays_pure ⟨.refl n _, h⟩
  holds_bind hx hf hn := lays_bind (hx hn) fun w' a e ⟨le, ha⟩ =>
    lays_mono (hf w' a le ha (Nat.le_trans hn e.scopes.size_le)) fun _ _ _ ⟨le', hb⟩ =>
      ⟨le.trans le', hb⟩
  holds_get _ := lays_mono lays_get fun _ _ _ ⟨h, hs⟩ => ⟨h ▸ .refl n _, h, hs⟩
  holds_read _ := lays_mono lays_read fun _ _ _ ⟨h, he⟩ => ⟨h ▸ .refl n _, h, he⟩
  holds_set h _ := lays_mono (lays_quiet n outcome_set h) fun _ _ _ ⟨le, _⟩ => ⟨le, trivial⟩
  holds_scopesFrom _ _ := lays_mono lays_scopesFrom fun _ _ _ ⟨h, ht⟩ => ⟨h ▸ .refl n _, h, ht⟩
  holds_fail _ := lays_fail
  holds_throw _ _ := lays_throw
  holds_warnAt hn := lays_mono lays_warnAt fun _ _ _ le => ⟨le.from hn, trivial⟩
  holds_orDeclareFailed _ h hn := lays_orDeclareFailed (h hn)
  holds_withFrame hx hQ hn := by
    refine lays_mono (lays_withFrame n (fun w' le _ => hx w' le ?_)
      fun w' a _ hw q ha => hQ w' _ a (hw.leFrom_quiet q) ha) fun _ _ _ h => h
    exact Nat.le_trans hn le.scopes.size_le
  Own w scope := w.In w.current scope ∧ n ≤ scope.index
  own_in := And.left
  own_mono le h := ⟨h.1.along le, h.2⟩
  holds_emitWith _ hv hk h hn := by
    refine lays_mono (lays_emitPlain ?_ h) fun _ _ _ hw => ⟨hw.1.from hn, hw.2⟩
    exact Bool.and_eq_true_iff.2 ⟨(Bool.and_eq_true_iff.1 hk).1, by simp [hv]⟩
  holds_varPtr hs h hn :=
    lays_mono (lays_varPtr hs h) fun _ _ _ hw => ⟨hw.1.from hn, hw.2⟩
  holds_openScope hs hk hn := by
    refine lays_mono (lays_openScope hs.index hk)
      fun w' scope _ ⟨le, _, h, ho⟩ => ⟨le.from hn, (h _ hs).below le.above, ?_⟩
    exact ho.index ▸ hn
  holds_declareVar ho _ hr hptr _ :=
    lays_mono (lays_declareVar ho.1 hr hptr) fun _ _ _ le => ⟨le.mono ho.2, trivial⟩

end SourceIr.Lower
