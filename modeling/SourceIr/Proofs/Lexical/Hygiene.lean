import SourceIr.Proofs.Lexical.Unit
import SourceIr.Proofs.Scope.Visible

/-!
# Deferred expressions are hygienic

A deferred expression is lowered at every exit from its block, in a scope next to the scope of what
follows the `defer` statement.  Since nothing is added to the block any more, a name that the
expression does not bind itself refers to what it referred to at the statement.

* `ScopeTree.Sees`, what the deferred expressions of a scope see, and `asksHygiene`, the guard;
* `hygiene`, the discipline: the scopes around deferred expressions stay as they are;
* `untilDeferred`, the comparison with a run that stops at the `defer` statement;
* `Generator.hygienic_lower`, every unit.
-/

namespace SourceIr

/-- Whether the scope is that of what follows a `defer` statement or of a deferred expression. -/
def ScopeKind.isOfDefer : ScopeKind → Bool
  | .deferred _ | .deferredBody => true
  | _ => false

namespace ScopeTree

variable {t t' u : ScopeTree} {c p P : ScopeId} {y : Scope} {kind : ScopeKind} {table : DeclTable}
  {r : BindingRequest}

/-- What is lowered in a scope as part of a deferred expression of `P` sees what was there when the
scopes were `t`: names that are not bound inside the expression refer to what they referred to then
in `P`. -/
def Sees (table : DeclTable) (P : ScopeId) (t u : ScopeTree) (c : ScopeId) : Prop :=
  ∀ inner body outer, u.chain c = inner ++ body :: outer → body.kind = .deferredBody →
    body.parent = some P → ∀ name, (inner ++ [body]).findSome? (resolveIn · name table) = none →
      u.lookup c name table = t.lookup P name table

/-- A scope lies in what follows a `defer` statement of `P`, or in a deferred expression of `P`. -/
def PastDefer (t : ScopeTree) (P c : ScopeId) : Prop :=
  ∃ y ∈ t.chain c, y.parent = some P ∧ y.kind.isOfDefer = true

/-- The parent of a scope on a chain comes before the scope that the chain starts with. -/
theorem WellFormed.parent_lt_of_mem (ht : t.WellFormed) (hy : y ∈ t.chain c)
    (hp : y.parent = some p) : p.index < c.index :=
  Nat.lt_of_lt_of_le (ht.parent _ y (ht.scope?_of_mem hy) p hp) (ht.index_le_of_mem hy)

theorem PastDefer.lt (h : t.PastDefer P c) (ht : t.WellFormed) : P.index < c.index := by
  obtain ⟨y, hy, hp, -⟩ := h
  exact ht.parent_lt_of_mem hy hp

/-- Growth leaves the handles, the parents and the kinds on a chain as they are. -/
theorem Grows.exists_mem_chain (h : t.Grows t') (ht : t.WellFormed) (ht' : t'.WellFormed)
    (hc : c.index < t.scopes.size) (hy : y ∈ t'.chain c) :
    ∃ x ∈ t.chain c, x.id = y.id ∧ x.parent = y.parent ∧ x.kind = y.kind := by
  have hlink : (y.id, y.kind) ∈ t'.links c := List.mem_map_of_mem hy
  rw [h.links_eq hc] at hlink
  obtain ⟨x, hx, heq⟩ := List.mem_map.1 hlink
  obtain ⟨hid, hkind⟩ := Prod.mk.inj heq
  obtain ⟨y', hy', -, hparent, -⟩ := h x.id.index x (ht.scope?_of_mem hx)
  have hscope : t'.scopes[x.id.index]? = some y := hid ▸ ht'.scope?_of_mem hy
  rw [hscope] at hy'
  obtain rfl := Option.some.inj hy'
  exact ⟨x, hx, hid, hparent.symm, hkind⟩

theorem PastDefer.of_grows (h : t'.PastDefer P c) (hg : t.Grows t') (ht : t.WellFormed)
    (ht' : t'.WellFormed) (hc : c.index < t.scopes.size) : t.PastDefer P c := by
  obtain ⟨y, hy, hp, hk⟩ := h
  obtain ⟨x, hx, -, hparent, hkind⟩ := hg.exists_mem_chain ht ht' hc hy
  exact ⟨x, hx, hparent.trans hp, hkind ▸ hk⟩

/-- What is opened last is past a `defer` statement of `P` only if it is opened in `P` for one, or
below such a scope. -/
theorem PastDefer.of_openUnder (h : (t.openUnder p kind).2.PastDefer P ⟨t.scopes.size⟩)
    (ht : t.WellFormed) (hp : p.index < t.scopes.size) :
    p = P ∧ kind.isOfDefer = true ∨ t.PastDefer P p := by
  obtain ⟨y, hy, hparent, hk⟩ := h
  rw [(ht.openUnder hp).chain_eq (scope?_openUnder p kind)] at hy
  rcases List.mem_cons.1 hy with rfl | hy
  · exact .inl ⟨Option.some.inj hparent, hk⟩
  · exact .inr ⟨y, ht.chain_openUnder hp ▸ hy, hparent, hk⟩

/-- A scope that is opened for what follows a `defer` statement seals the scope around it. -/
theorem Sealed.of_openUnder (h : (t.openUnder p kind).2.Sealed P) :
    p = P ∧ kind.isDeferred = true ∨ t.Sealed P := by
  obtain ⟨i, x, hx, hk, hparent⟩ := h
  obtain ⟨-, rfl⟩ | hx := scope_of_openUnder hx
  · exact .inl ⟨Option.some.inj hparent, hk⟩
  · exact .inr ⟨i, x, hx, hk, hparent⟩

/-- Deferred expressions see what was there, if the scopes around them have stayed as they were. -/
theorem sees_of_chain_eq (ht : u.WellFormed) (h : u.PastDefer P c → u.chain P = t.chain P) :
    Sees table P t u c := by
  intro inner body outer hl hk hparent name hnone
  have hmem : body ∈ u.chain c := by
    rw [hl]
    exact List.mem_append_right inner List.mem_cons_self
  have hpast : u.PastDefer P c := ⟨body, hmem, hparent, by rw [hk]; rfl⟩
  have houter : outer = t.chain P := by
    have hchain := ht.chain_of_append hl
    rw [ht.chain_eq (ht.scope?_of_mem hmem), hparent] at hchain
    exact (List.cons.inj hchain).2.symm.trans (h hpast)
  have hsplit : u.chain c = (inner ++ [body]) ++ t.chain P := by rw [hl, houter]; simp
  rw [lookup, lookup, hsplit, List.findSome?_append, hnone, Option.none_or]

end ScopeTree

namespace Lower

open ScopeTree

variable {env : Env} {s s' : State} {c p P : ScopeId} {kind : ScopeKind} {n : Nat} {t : ScopeTree}
  {table : DeclTable} {α β : Type} {x x' : LowerM α} {f f' : α → LowerM β}

/-- A `defer` statement in `P` is lowered when the scopes are `t`, and after that the deferred
expression sees what was there. -/
def asksHygiene (table : DeclTable) (P : ScopeId) (t : ScopeTree) : Guard where
  expr u c := u.Sealed P → Sees table P t u c
  statement node u c := (u.Sealed P → Sees table P t u c) ∧
    ∀ kind expr, node.kind = .deferred kind expr → c = P → u = t

/-! ### The scopes around deferred expressions -/

/-- A scope in which something is lowered is there; if it is past a `defer` statement of `P`, the
scopes around `P` are as they were. -/
structure KeptAt (P : ScopeId) (t : ScopeTree) (s : State) (c : ScopeId) : Prop where
  lt : c.index < s.scopes.scopes.size
  kept : s.scopes.Sealed P → s.scopes.PastDefer P c → s.scopes.chain P = t.chain P

theorem KeptAt.frame (hc : KeptAt P t s c) (ht : s.scopes.WellFormed) (h : Frame n s s')
    (hlt : c.index < n) : KeptAt P t s' c where
  lt := Nat.lt_of_lt_of_le hc.lt h.size_le
  kept hsealed hpast := by
    rw [PastDefer, h.chain_eq ht hlt hc.lt] at hpast
    have hP := PastDefer.lt hpast ht
    have hsealed : s.scopes.Sealed P := by
      refine Classical.byContradiction fun hopen => ?_
      exact h.not_sealed (Nat.lt_trans hP hlt) hopen hsealed
    rw [h.chain_eq ht (Nat.lt_trans hP hlt) (Nat.lt_trans hP hc.lt)]
    exact hc.kept hsealed hpast

/-- A scope is opened; if it is for a `defer` statement of `P`, the scopes are as they were. -/
theorem KeptAt.opening (hp : KeptAt P t s p) (ht : s.scopes.WellFormed)
    (hnew : p = P → kind.isOfDefer = true → (s.opening p kind).scopes.Sealed P →
      s.scopes.chain P = t.chain P) : KeptAt P t (s.opening p kind) s.top where
  lt := by simp [State.opening, State.top]
  kept hsealed hpast := by
    have hdefer : kind.isDeferred = true → kind.isOfDefer = true := by
      cases kind <;> simp [ScopeKind.isDeferred, ScopeKind.isOfDefer]
    have hP : P.index < s.scopes.scopes.size ∧ s.scopes.chain P = t.chain P := by
      rcases hpast.of_openUnder ht hp.lt with ⟨rfl, hk⟩ | hpast
      · exact ⟨hp.lt, hnew rfl hk hsealed⟩
      · refine ⟨Nat.lt_trans (hpast.lt ht) hp.lt, ?_⟩
        rcases hsealed.of_openUnder with ⟨rfl, hk⟩ | hsealed'
        · exact hnew rfl (hdefer hk) hsealed
        · exact hp.kept hsealed' hpast
    exact (ht.chain_openUnder hP.1).trans hP.2

/-- Scopes that can be lowered in: a deferred expression has a scope around it. -/
structure HasScopes (s : State) : Prop where
  scopes : s.scopes.WellFormed
  rooted : s.scopes.Rooted
  root_lt : s.streamRoot.index < s.scopes.scopes.size

/-- The scope around the one of what follows a `defer` statement. -/
theorem KeptAt.parent {y : Scope} (hc : KeptAt P t s c) (hs : HasScopes s)
    (hy : y ∈ s.scopes.chain c) (hk : y.kind.isDeferred = true) :
    KeptAt P t s (y.parent.getD y.id) ∧
      (y.parent.getD y.id = P → s.scopes.Sealed P → s.scopes.chain P = t.chain P) := by
  have hscope := hs.scopes.scope?_of_mem hy
  cases hp : y.parent with
  | none =>
    obtain ⟨root, hroot⟩ := hs.rooted _ y hscope hp
    rw [hroot] at hk
    cases hk
  | some p =>
    have hofDefer : y.kind.isOfDefer = true := by
      cases hkind : y.kind <;> simp_all [ScopeKind.isDeferred, ScopeKind.isOfDefer]
    have hplt : p.index < s.scopes.scopes.size :=
      Nat.lt_trans (hs.scopes.parent_lt_of_mem hy hp) hc.lt
    refine ⟨⟨hplt, fun hsealed hpast => hc.kept hsealed ?_⟩, fun he hsealed =>
      hc.kept hsealed ⟨y, hy, hp.trans (congrArg some he), hofDefer⟩⟩
    -- What is around the scope is around the scope that it is around.
    obtain ⟨z, hz, hparent, hzk⟩ := hpast
    obtain ⟨pre, rest, hl⟩ := List.append_of_mem hy
    have hchain := hs.scopes.chain_of_append hl
    rw [hs.scopes.chain_eq hscope, hp] at hchain
    refine ⟨z, ?_, hparent, hzk⟩
    rw [hl, ← hchain]
    exact List.mem_append_right _ (List.mem_cons_of_mem _ hz)

/-- The scopes around deferred expressions stay as they are. -/
def hygiene (env : Env) (P : ScopeId) (t : ScopeTree) : Discipline env where
  Inv := HasScopes
  At := KeptAt P t
  MayDefer s c := c = P → s.scopes = t
  Alarm s := ¬ s.scopes.Sealed P ∧ s.scopes ≠ t
  wellFormed h := h.scopes
  root_lt h := h.root_lt
  index_lt h := h.lt
  at_frame hs hc h hlt := hc.frame hs.scopes h hlt
  inv_alike {s s'} hs h := by
    refine ⟨?_, ?_, ?_⟩
    · exact h.scopes ▸ hs.scopes
    · exact h.scopes ▸ hs.rooted
    · exact h.root ▸ h.scopes ▸ hs.root_lt
  inv_emit _ _ _ hs _ _ := ⟨hs.scopes, hs.rooted, hs.root_lt⟩
  inv_open kind hs hlt := ⟨hs.scopes.openUnder hlt, hs.rooted.openUnder,
    Nat.lt_of_lt_of_le hs.root_lt (ScopeTree.grows_openUnder _ kind).size_le⟩
  at_open {s p kind} hs hc hkind := hc.opening hs.scopes fun _ hk => by
    cases kind <;> simp_all [ScopeKind.isPlain, ScopeKind.isOfDefer]
  at_defer kind hs hc _ hmay := hc.opening hs.scopes fun he _ _ => by
    rw [hmay he]
  at_body hs hc hy hk := by
    obtain ⟨hat, hkept⟩ := hc.parent hs hy.mem hk
    exact hat.opening hs.scopes fun he _ hsealed =>
      hkept he (hsealed.of_openUnder.resolve_left fun h => by simp [ScopeKind.isDeferred] at h)
  declare {s c r} hs hc _ _ := by
    have hg := ScopeTree.grows_addVar (t := s.scopes) c r
    have ht := hs.scopes.addVar (s := c) r
    refine ⟨⟨ht, hs.rooted.addVar r, Nat.lt_of_lt_of_le hs.root_lt hg.size_le⟩,
      Nat.lt_of_lt_of_le hc.lt hg.size_le, fun hsealed hpast => ?_⟩
    have hpast := hpast.of_grows hg hs.scopes ht hc.lt
    have hP := hpast.lt hs.scopes
    have hsealed : s.scopes.Sealed P :=
      Classical.byContradiction fun hopen => not_sealed_declaring hopen hsealed
    rw [(frame_declaring (s := s) (r := r)).chain_eq hs.scopes hP (Nat.lt_trans hP hc.lt)]
    exact hc.kept hsealed hpast
  child name hs hc _ := ⟨⟨hs.scopes, hs.rooted, hc.lt⟩, hc.lt, hc.kept⟩
  around hs ht h := ⟨ht.scopes, ht.rooted, Nat.lt_of_lt_of_le hs.root_lt h.grows.size_le⟩

/-! ### Up to the `defer` statement -/

/-- No `defer` statement is lowered in `P`. -/
def stopsAtDefer (P : ScopeId) : Guard where
  expr _ _ := True
  statement node _ c := ∀ kind expr, node.kind = .deferred kind expr → c ≠ P

/-- A `defer` statement that has been passed has been passed for good. -/
def sealing (P : ScopeId) : Drift where
  Le s s' := s.scopes.Sealed P → s'.scopes.Sealed P
  refl _ := id
  trans h h' := h' ∘ h
  small h hs := hs.grows h.scopes
  aside _ hscopes _ hs := hscopes ▸ hs
  invalidate _ _ := id
  addWarning _ _ := id
  defer _ hs := hs.grows (grows_openUnder _ _)
  enter := id
  leave h := h

/-- A `defer` statement in `P` has been passed, or a rule has been broken. -/
def PassedDefer (P : ScopeId) (o : Except Stop α × State) : Prop :=
  o.2.scopes.Sealed P ∨ ∃ f, f ≠ alarmFault ∧ o.1 = .error (.fault f)

theorem PassedDefer.ok {a : α} (h : PassedDefer P (.ok a, s)) : s.scopes.Sealed P :=
  h.resolve_right fun ⟨_, _, h⟩ => by cases h

theorem PassedDefer.poisoned (h : PassedDefer (α := α) P (.error .poisoned, s)) :
    s.scopes.Sealed P :=
  h.resolve_right fun ⟨_, _, h⟩ => by cases h

theorem PassedDefer.error {e : Stop} (h : PassedDefer (α := α) P (.error e, s)) :
    PassedDefer (α := β) P (.error e, s) :=
  h.imp id fun ⟨f, hf, he⟩ => ⟨f, hf, congrArg _ (Except.error.inj he)⟩

/-- From any state, the second routine passes a `defer` statement in `P`, the first raises the alarm
in other scopes than `t`, or they end alike. -/
structure AlikeUntil (env : Env) (P : ScopeId) (t : ScopeTree) {α : Type} (x x' : LowerM α) :
    Prop where
  sealing : ∀ s, (sealing P).Holds env s x'
  alike : ∀ s, PassedDefer P (outcome x' env s) ∨
    (∃ u, outcome x env s = (.error (.fault alarmFault), u) ∧ u.scopes ≠ t) ∨
      outcome x env s = outcome x' env s

namespace AlikeUntil

theorem same (h : ∀ s, (Lower.sealing P).Holds env s x) : AlikeUntil env P t x x :=
  ⟨h, fun _ => .inr (.inr rfl)⟩

theorem bind (hx : AlikeUntil env P t x x') (hf : ∀ a, AlikeUntil env P t (f a) (f' a)) :
    AlikeUntil env P t (x >>= f) (x' >>= f') := by
  refine ⟨fun s => Drift.holds_bind (hx.sealing s) fun a => (hf a).sealing, fun s => ?_⟩
  rw [outcome_bind, outcome_bind]
  rcases hx.alike s with hx | ⟨u, hu, hne⟩ | hx
  · refine .inl ?_
    rcases ho : outcome x' env s with ⟨e | a, s'⟩ <;> rw [ho] at hx
    · exact hx.error
    · exact .inl ((hf a).sealing s' hx.ok)
  · exact .inr (.inl ⟨u, by rw [hu], hne⟩)
  · rw [hx]
    rcases outcome x' env s with ⟨e | a, s'⟩
    · exact .inr (.inr rfl)
    · exact (hf a).alike s'

theorem ite {p : Prop} [Decidable p] {y y' : LowerM α} (hx : AlikeUntil env P t x x')
    (hy : AlikeUntil env P t y y') :
    AlikeUntil env P t (if p then x else y) (if p then x' else y') := by
  split
  · exact hx
  · exact hy

theorem get {f f' : State → LowerM α} (h : ∀ s, AlikeUntil env P t (f s) (f' s)) :
    AlikeUntil env P t (get >>= f) (get >>= f') :=
  ⟨fun s => (h s).sealing s, fun s => (h s).alike s⟩

theorem read {f f' : Env → LowerM α} (h : AlikeUntil env P t (f env) (f' env)) :
    AlikeUntil env P t (read >>= f) (read >>= f') :=
  ⟨h.sealing, h.alike⟩

theorem attempt (hx : AlikeUntil env P t x x') : AlikeUntil env P t (attempt x) (attempt x') := by
  refine ⟨fun s => Drift.holds_attempt (hx.sealing s), fun s => ?_⟩
  rw [outcome_attempt, outcome_attempt]
  rcases hx.alike s with hx | ⟨u, hu, hne⟩ | hx
  · refine .inl ?_
    rcases ho : outcome x' env s with ⟨(_ | e) | a, s'⟩ <;> rw [ho] at hx
    · exact .inl hx.poisoned
    · exact hx.error
    · exact .inl hx.ok
  · exact .inr (.inl ⟨u, by rw [hu], hne⟩)
  · exact .inr (.inr (by rw [hx]))

theorem inChildStream {name : String} {root : ScopeId} (hx : AlikeUntil env P t x x') :
    AlikeUntil env P t (inChildStream name root x) (inChildStream name root x') := by
  refine ⟨fun _ => Drift.holds_inChildStream hx.sealing, fun s => ?_⟩
  rw [outcome_inChildStream, outcome_inChildStream]
  rcases hx.alike (s.inChild name root) with hx | ⟨u, hu, hne⟩ | hx
  · refine .inl ?_
    rcases ho : outcome x' env (s.inChild name root) with ⟨(_ | e) | a, s'⟩ <;> rw [ho] at hx
    · exact .inl hx.poisoned
    · exact hx.error
    · exact .inl hx.ok
  · exact .inr (.inl ⟨u, by rw [hu], hne⟩)
  · exact .inr (.inr (by rw [hx]))

theorem lowerStatements {parts parts' : Parts}
    (hp : ∀ node scope,
      AlikeUntil env P t (parts.statement node scope) (parts'.statement node scope))
    (statements : List Node) (scope : ScopeId) (failed : Bool) :
    AlikeUntil env P t (lowerStatements parts scope failed statements)
      (lowerStatements parts' scope failed statements) := by
  have hdone : ∀ (scope : ScopeId) (failed : Bool) s, (Lower.sealing P).Holds env s
      (if failed then throw .poisoned else return scope : LowerM ScopeId) :=
    fun _ _ _ => Drift.holds_ite (Drift.holds_throw _) (Drift.holds_pure _)
  induction statements generalizing scope failed with
  | nil => exact same (hdone scope failed)
  | cons statement rest ih =>
    refine bind (same fun _ => Drift.holds_isTerminated) fun terminated => ite ?_ ?_
    · exact same fun s => Drift.holds_bind (Drift.holds_warnAt rfl) fun _ => hdone scope failed
    refine bind (hp statement scope).attempt fun next => ?_
    cases next with
    | some next => exact ih next failed
    | none =>
      refine read ?_
      split
      · exact same fun _ => Drift.holds_throw _
      · exact ih scope true

end AlikeUntil

/-- Routines of which the first stops at a `defer` statement in `P`, and the second only where the
scopes there are not `t`. -/
def untilDeferred (env : Env) (P : ScopeId) (t : ScopeTree) : NestedComparison where
  Rel x x' := AlikeUntil env P t x x'
  rel_pure a := .same fun _ => Drift.holds_pure a
  rel_bind hx hf := hx.bind hf
  rel_get _ h := .get h
  rel_lookup _ _ _ _ _ hx hy := .read <| by
    split
    · exact hx _
    · exact .same fun _ => Drift.holds_step (step_emitWith _ _ _ _ _)
    · exact hy
  rel_warnIdle _ _ h := .read (.ite (.bind (.same fun _ => Drift.holds_warnAt rfl) fun _ => h) h)
  rel_fault _ := .same fun _ => Drift.holds_throw _
  rel_fail hm _ := .same fun _ => Drift.holds_fail hm
  rel_unlessFailed _ h := .get fun _ => .ite (.same fun _ => Drift.holds_throw _) h
  rel_plain hx := .same fun _ => Drift.holds_step hx.toStep
  rel_declare scope r _ := .same fun _ => Drift.holds_declare scope r
  rel_defer scope kind expr := .same fun _ => Drift.holds_defer scope kind expr
  rel_orDeclareFailed node name scope h := h.attempt.bind fun r => .same fun s => by
    cases r with
    | some a => exact Drift.holds_pure a
    | none =>
      refine Drift.holds_bind (Drift.holds_declare? _ _) fun r u => ?_
      cases r with
      | ok var => exact id
      | error m => exact id
  rel_withFrame location description h := by
    have set : ∀ (g : CallStack → CallStack) s, (sealing P).Holds env s
        (modify fun s => { s with calls := g s.calls } : LowerM PUnit) := fun _ _ => id
    refine .bind (.same (set (·.push ⟨location, description⟩))) fun _ =>
      h.attempt.bind fun r => .same fun s => ?_
    refine Drift.holds_bind (set (·.pop.2) s) fun _ u => ?_
    cases r with
    | some a => exact Drift.holds_pure a
    | none => exact Drift.holds_throw _
  rel_inChildStream name root hx hf hf' h := hx.inChildStream.bind fun r => by
    obtain ⟨unit, _ | a⟩ := r
    · rw [hf, hf']
      exact .same fun _ => Drift.holds_throw _
    · exact h unit a
  rel_lowerStatements h statements scope := .lowerStatements h statements scope false

/-- A `defer` statement in `P` is passed, or a rule is broken. -/
theorem passedDefer_of_deferred {parts : Parts} {node : Node} {kind : DeferKind} {expr : Node}
    (hk : node.kind = .deferred kind expr) :
    PassedDefer P (outcome (lowerStatement parts node P) env s) := by
  rw [lowerStatement, hk]
  dsimp only
  rw [outcome_bind]
  obtain ⟨e, he, ho⟩ | ⟨hlt, ho⟩ := outcome_openScope_cases (s := s) P (.deferred kind) <;> rw [ho]
  · exact .inr ⟨e, he, rfl⟩
  · exact .inl ⟨_, _, scope?_openUnder P (.deferred kind), rfl, rfl⟩

namespace Drift

variable {d : Drift} {guard : Guard} {levels : Nat} {loc : ResultLoc}

theorem holds_guarded_expr
    (h : ∀ s, d.Holds env s (lowerExpr (guarded guard raise levels) node scope loc)) (s : State) :
    d.Holds env s ((guarded guard raise (levels + 1)).expr node scope loc) := by
  by_cases hg : guard.expr s.scopes scope
  · rw [Drift.Holds, outcome_guarded_expr hg]
    exact h s
  · rw [Drift.Holds, outcome_guarded_expr_of_not hg]
    exact d.refl s

theorem holds_guarded_statement
    (h : ∀ s, d.Holds env s (lowerStatement (guarded guard raise levels) node scope)) (s : State) :
    d.Holds env s ((guarded guard raise (levels + 1)).statement node scope) := by
  by_cases hg : guard.statement node s.scopes scope
  · rw [Drift.Holds, outcome_guarded_statement hg]
    exact h s
  · rw [Drift.Holds, outcome_guarded_statement_of_not hg]
    exact d.refl s

end Drift

/-- Before the `defer` statement, both guards allow for every expression. -/
theorem alikeUntil_guarded_expr {levels : Nat} {loc : ResultLoc}
    (h : AlikeUntil env P t (lowerExpr (guarded (stopsAtDefer P) raise levels) node scope loc)
      (lowerExpr (guarded (asksHygiene table P t) raise levels) node scope loc)) :
    AlikeUntil env P t ((guarded (stopsAtDefer P) raise (levels + 1)).expr node scope loc)
      ((guarded (asksHygiene table P t) raise (levels + 1)).expr node scope loc) := by
  have hsealing := Drift.holds_guarded_expr h.sealing
  refine ⟨hsealing, fun s => ?_⟩
  by_cases hs : s.scopes.Sealed P
  · exact .inl (.inl (hsealing s hs))
  · have hstop : (stopsAtDefer P).expr s.scopes scope := trivial
    have hasks : (asksHygiene table P t).expr s.scopes scope := fun h => absurd h hs
    rw [outcome_guarded_expr hstop, outcome_guarded_expr hasks]
    exact h.alike s

/-- At the `defer` statement, the first routine raises the alarm; the second passes it if the scopes
are `t`. -/
theorem alikeUntil_guarded_statement {levels : Nat}
    (h : AlikeUntil env P t (lowerStatement (guarded (stopsAtDefer P) raise levels) node scope)
      (lowerStatement (guarded (asksHygiene table P t) raise levels) node scope)) :
    AlikeUntil env P t ((guarded (stopsAtDefer P) raise (levels + 1)).statement node scope)
      ((guarded (asksHygiene table P t) raise (levels + 1)).statement node scope) := by
  have hsealing := Drift.holds_guarded_statement h.sealing
  refine ⟨hsealing, fun s => ?_⟩
  by_cases hs : s.scopes.Sealed P
  · exact .inl (.inl (hsealing s hs))
  by_cases hstop : (stopsAtDefer P).statement node s.scopes scope
  · have hasks : (asksHygiene table P t).statement node s.scopes scope :=
      ⟨fun h => absurd h hs, fun kind expr hk he => absurd he (hstop kind expr hk)⟩
    rw [outcome_guarded_statement hstop, outcome_guarded_statement hasks]
    exact h.alike s
  · -- The `defer` statement.
    rw [outcome_guarded_statement_of_not hstop]
    simp only [stopsAtDefer, Classical.not_forall, ne_eq, Classical.not_not] at hstop
    obtain ⟨kind, expr, hk, rfl⟩ := hstop
    by_cases ht : s.scopes = t
    · have hasks : (asksHygiene table scope t).statement node s.scopes scope :=
        ⟨fun h => absurd h hs, fun _ _ _ _ => ht⟩
      rw [outcome_guarded_statement hasks]
      exact .inl (passedDefer_of_deferred hk)
    · exact .inr (.inl ⟨s, rfl, ht⟩)

/-- Up to a `defer` statement in `P`, deferred expressions of `P` are out of the question. -/
theorem relParts_stopsAtDefer (levels : Nat) :
    (untilDeferred env P t).RelParts (guarded (stopsAtDefer P) raise levels)
      (guarded (asksHygiene table P t) raise levels) := by
  induction levels with
  | zero =>
    have failed : ∀ {α : Type} node s, (sealing P).Holds env s (failDepth node : LowerM α) :=
      fun node s => Drift.holds_bind (x := read) id fun _ _ =>
        Drift.holds_fail_of fun _ _ => id
    exact ⟨fun node _ _ => .same (failed node), fun node _ => .same (failed node)⟩
  | succ levels ih =>
    exact ⟨
      fun node scope loc =>
        alikeUntil_guarded_expr (NestedComparison.rel_lowerExpr scope node loc ih),
      fun node scope => alikeUntil_guarded_statement (Comparison.rel_lowerStatement scope node ih)⟩

/-- The alarm is not raised when the scopes are those of the `defer` statement. -/
theorem Routine.exists_hygienic (r : Routine) (hs : HasScopes s)
    (hlt : r.scope.index < s.scopes.scopes.size) (P : ScopeId) (levels : Nat) :
    ∃ t, ∀ u, outcome (r.run (guarded (asksHygiene env.table P t) raise levels)) env s ≠
      (.error (.fault alarmFault), u) := by
  have hp : ∀ t, KeepsParts (hygiene env P t)
      (guarded (asksHygiene env.table P t) raise levels) := by
    intro t
    have hsees : ∀ {u : State} {c}, HasScopes u → KeptAt P t u c → u.scopes.Sealed P →
        Sees env.table P t u.scopes c := fun hu hc h => sees_of_chain_eq hu.scopes (hc.kept h)
    refine keepsParts_guarded (d := hygiene env P t) (fun hu hc => hsees hu hc)
      (fun {node u c} hu hc hopen h => ?_)
      (fun {node kind expr u c} (h : (asksHygiene env.table P t).statement node u.scopes c) hk =>
        h.2 kind expr hk) levels
    simp only [asksHygiene, not_and, Classical.not_forall] at h
    obtain ⟨kind, expr, -, rfl, hne⟩ := h (hsees hu hc)
    exact ⟨hopen, hne⟩
  have hends : ∀ t, KeptAt P t s r.scope → ∀ u,
      outcome (r.run (guarded (asksHygiene env.table P t) raise levels)) env s =
        (.error (.fault alarmFault), u) → ¬ u.scopes.Sealed P ∧ u.scopes ≠ t := fun t hat u hu =>
    (r.ends (d := hygiene env P t) (hp t) hs hat).alarm hu
  have hstops : ∀ t, (untilDeferred env P t).RelParts (guarded (stopsAtDefer P) raise levels)
      (guarded (asksHygiene env.table P t) raise levels) := fun _ => relParts_stopsAtDefer levels
  by_cases hsealed : s.scopes.Sealed P
  · -- No `defer` statement of the unit stands in `P`.
    refine ⟨s.scopes, fun u hu => (hends s.scopes ⟨hlt, fun _ _ => rfl⟩ u hu).1 ?_⟩
    have hrel := r.rel (hstops s.scopes)
    have := AlikeUntil.sealing hrel s hsealed
    rwa [hu] at this
  · -- The scopes in which a run stops that stops at the statement.
    let t := (outcome (r.run (guarded (stopsAtDefer P) raise levels)) env s).2.scopes
    refine ⟨t, fun u hu => ?_⟩
    obtain ⟨hopen, hne⟩ := hends t ⟨hlt, fun h => absurd h hsealed⟩ u hu
    have hrel := r.rel (hstops t)
    rcases AlikeUntil.alike hrel s with h | ⟨v, hv, hvt⟩ | h
    · rw [hu] at h
      rcases h with h | ⟨f, hf, he⟩
      · exact hopen h
      · exact hf (Stop.fault.inj (Except.error.inj he)).symm
    · exact hvt (congrArg (fun o => State.scopes (Prod.snd o)) hv).symm
    · exact hne (congrArg (fun o => State.scopes (Prod.snd o)) (h.trans hu)).symm

end Lower

/-! ### Units -/

namespace Generator

open Lower

variable {g : Generator} {run : UnitRun} {runBy : Parts → UnitRun}

/-- Deferred expressions are hygienic in a unit: for every scope there are scopes such that a
`defer` statement is lowered in it when the scopes are these, and what is lowered as part of the
deferred expression, at whichever exit, sees what was there then. -/
def Hygienic (g : Generator) (run : UnitRun) (runBy : Parts → UnitRun) : Prop :=
  ∀ P : ScopeId, ∃ t : ScopeTree, g.Quiet (asksHygiene g.table P t) run runBy

theorem Unit.hygienic (h : g.Unit ScopeTree.Rooted run runBy) : g.Hygienic run runBy := by
  obtain ⟨r, hs, hrooted, name, kind⟩ := h
  intro P
  obtain ⟨t, ht⟩ := @Routine.exists_hygienic ⟨g.table, g.options⟩ _ r
    ⟨hs.scopes, hrooted, hs.root ▸ hs.lt⟩ hs.lt P g.options.maxDepth
  exact ⟨t, fun alarm => congrArg (UnitRun.ofEnd name kind) (r.outcome_guarded alarm ht)⟩

/-- Deferred expressions are hygienic in every unit, in whichever way it is lowered. -/
theorem hygienic_lower (g : Generator) (node : Node) :
    g.Hygienic (g.lower node) (g.runNodeBy · node (unitName node) []) ∧
      g.Hygienic (g.lowerFnBody node)
        (g.runFunctionBy · node (node.declName?.getD "anonymous") .function []) ∧
      (∀ decl, g.Hygienic (g.lowerDecl decl node)
        (g.runNodeBy · node decl.name (g.table.containersOf decl.id))) ∧
      ∀ (scopes : ScopeTree) (scope : ScopeId) (name : String), scopes.WellFormed →
        scopes.Rooted → scope.index < scopes.scopes.size →
          g.Hygienic (g.lowerIn node scopes scope name) (g.lowerInBy node name · scopes scope) :=
  ⟨((g.unit_runNode _ _ _).imp fun _ h => h.rooted).hygienic,
    ((g.unit_runFunction _ _ _ _).imp fun _ h => h.rooted).hygienic,
    fun _ => ((g.unit_runNode _ _ _).imp fun _ h => h.rooted).hygienic,
    fun _ _ name ht hr hs => (g.unit_lowerIn node name ht hs hr).hygienic⟩

end Generator

/-- A block that defers `x` and declares a variable of that name. -/
def Node.defersName : Node :=
  .bare (.block none [.bare (.deferred .normal (.bare (.symbol "x"))),
    .bare (.varDecl "x" true false none (some (.bare (.intLiteral 1))))])

theorem hygienic_lower_defersName : (Generator.bare.unitScopes ["S"]).2.WellFormed ∧
    (Generator.bare.unitScopes ["S"]).2.Rooted ∧
      1 < (Generator.bare.unitScopes ["S"]).2.scopes.size ∧
        Generator.bare.Hygienic
          (Generator.bare.lowerIn .defersName (Generator.bare.unitScopes ["S"]).2 ⟨1⟩ "e")
          (Generator.bare.lowerInBy .defersName "e" · (Generator.bare.unitScopes ["S"]).2 ⟨1⟩) :=
  have hscopes := (Generator.opened_unitScopes .bare ["S"]).scopes
  have hrooted := (Generator.bare_unitScopes .bare ["S"]).rooted
  have hs : 1 < (Generator.bare.unitScopes ["S"]).2.scopes.size := by decide
  ⟨hscopes, hrooted, hs,
    (Generator.hygienic_lower .bare .defersName).2.2.2 _ ⟨1⟩ "e" hscopes hrooted hs⟩

end SourceIr
