import SourceIr.Proofs.Comparison.Step
import SourceIr.Proofs.Scope.Jump

/-!
# Where names are bound

Lowering an expression leaves every scope that is there as it is: what it binds, it binds in scopes
of its own.  A statement adds to the scope that it stands in, and to no other one; what follows a
`defer` stands in a scope of its own.  What is known of a scope is therefore still known when one
comes back to it, in whatever way the routines in between end.

* `Frame`, what a routine leaves of a state, and `ScopeTree.Sealed`, the scopes that nothing is
  added to any more;
* `Discipline`, an invariant of the state and what holds of the scopes in which something is
  lowered, with the rules for the steps that routines are made of;
* `Mode`, how much of a state is left as it is, and `Mode.Runs`, the routines that keep to the
  discipline;
* `Ctx`, what is known while an expression is lowered, and `Ctx.Keeps`.
-/

namespace SourceIr

namespace ScopeKind

/-- Whether the scope is that of what follows a `defer` statement. -/
def isDeferred : ScopeKind → Bool
  | deferred _ => true
  | _ => false

/-- Whether the scope neither holds members nor has to do with deferred expressions. -/
def isPlain : ScopeKind → Bool
  | topLevel _ | container _ | deferred _ | deferredBody => false
  | _ => true

theorem not_isDeferred (kind : ScopeKind) (h : kind.isPlain = true) : kind.isDeferred ≠ true := by
  cases kind <;> simp_all [isPlain, isDeferred]

end ScopeKind

namespace ScopeTree

variable {t t' : ScopeTree} {p : ScopeId} {kind : ScopeKind}

/-- A `defer` statement in a scope has been passed. -/
def Sealed (t : ScopeTree) (p : ScopeId) : Prop :=
  ∃ (i : Nat) (x : Scope), t.scopes[i]? = some x ∧ x.kind.isDeferred = true ∧ x.parent = some p

theorem Sealed.grows (h : t.Sealed p) (hg : t.Grows t') : t'.Sealed p := by
  obtain ⟨i, x, hx, hk, hp⟩ := h
  obtain ⟨x', hx', -, hp', hk'⟩ := hg i x hx
  exact ⟨i, x', hx', hk' ▸ hk, hp'.trans hp⟩

/-- No `defer` statement has been passed in a scope that was opened last. -/
theorem not_sealed_last (ht : t.WellFormed) (hp : t.scopes.size ≤ p.index + 1) :
    ¬ t.Sealed p := by
  rintro ⟨i, x, hx, -, hparent⟩
  have hlt := ht.parent i x hx p hparent
  have := (Array.getElem?_eq_some_iff.1 hx).1
  omega

/-- What is reached on a chain is on it. -/
theorem Reaches.mem {root : ScopeId} {l : List Scope} {y : Scope} (h : Reaches root l y) :
    y ∈ l := by
  obtain ⟨pre, rest, rfl, -⟩ := h
  exact List.mem_append_right pre List.mem_cons_self

/-- Only a scope that is there has anything on its chain. -/
theorem lt_of_mem_chain {c : ScopeId} {x : Scope} (h : x ∈ t.chain c) :
    c.index < t.scopes.size := by
  refine Nat.lt_of_not_le fun hle => ?_
  rw [chain, chainAt_eq_nil (Array.getElem?_eq_none hle)] at h
  cases h

/-- A chain depends on the scopes that come before its end only. -/
theorem WellFormed.chain_congr {n : Nat} {c : ScopeId} (ht : t.WellFormed)
    (h : ∀ (i : Nat) (x : Scope), i < n → t.scopes[i]? = some x → t'.scopes[i]? = some x)
    (hc : c.index < n) (hs : c.index < t.scopes.size) : t'.chain c = t.chain c := by
  obtain ⟨i⟩ := c
  induction i using Nat.strongRecOn with
  | ind i ih =>
    have hx : t.scopes[i]? = some (t.scopes[i]) := Array.getElem?_eq_getElem hs
    have hx' := h i _ hc hx
    rw [chain, chain, chainAt, chainAt, hx, hx']
    dsimp only
    cases hp : (t.scopes[i]).parent with
    | none => rfl
    | some q =>
      have hlt : q.index < i := ht.parent i _ hx q hp
      simp only [hlt, if_true]
      congr 1
      exact ih q.index hlt (Nat.lt_trans hlt hc) (Nat.lt_trans hlt hs)

/-- What is opened does not change the chains that are there. -/
theorem WellFormed.chain_openUnder {c : ScopeId} (ht : t.WellFormed)
    (hc : c.index < t.scopes.size) : (t.openUnder p kind).2.chain c = t.chain c :=
  ht.chain_congr (n := t.scopes.size) (fun i x hi hx => by
    rw [getElem?_openUnder, if_neg (Nat.ne_of_lt hi), hx]) hc hc

end ScopeTree

/-- A request that the lowering makes: what has a name may take it only where it is free. -/
def BindingRequest.Checked (r : BindingRequest) : Prop :=
  r.name = none ∨ r.skipNameCheck = false ∧ r.isShadowable = false

namespace Lower

variable {env : Env} {s s' s'' t : State} {m n : Nat} {c p : ScopeId} {α β : Type}

/-! ### What is left as it is -/

/-- What a routine leaves of a state: the scopes before the position `n`, all variables, and what
the stream is.  Expressions are deferred from the position `n` on. -/
structure Frame (n : Nat) (s s' : State) : Prop where
  grows : s.scopes.Grows s'.scopes
  record : ∀ (i : Nat) (x : Scope), i < n → s.scopes.scopes[i]? = some x →
    s'.scopes.scopes[i]? = some x
  var : ∀ (i : Nat) (v : Variable), s.scopes.vars[i]? = some v → s'.scopes.vars[i]? = some v
  root : s'.streamRoot = s.streamRoot
  isInline : s'.stream.isInline = s.stream.isInline
  defers : ∀ (i : Nat) (x : Scope), s.scopes.scopes.size ≤ i → s'.scopes.scopes[i]? = some x →
    x.kind.isDeferred = true → ∀ p ∈ x.parent, n ≤ p.index

namespace Frame

theorem size_le (h : Frame n s s') : s.scopes.scopes.size ≤ s'.scopes.scopes.size :=
  h.grows.size_le

theorem mono (h : Frame n s s') (hm : m ≤ n) : Frame m s s' where
  grows := h.grows
  record i x hi := h.record i x (Nat.lt_of_lt_of_le hi hm)
  var := h.var
  root := h.root
  isInline := h.isInline
  defers i x hi hx hk p hp := Nat.le_trans hm (h.defers i x hi hx hk p hp)

theorem trans (h : Frame n s s') (h' : Frame n s' s'') : Frame n s s'' where
  grows := h.grows.trans h'.grows
  record i x hi hx := h'.record i x hi (h.record i x hi hx)
  var i v hv := h'.var i v (h.var i v hv)
  root := h'.root.trans h.root
  isInline := h'.isInline.trans h.isInline
  defers i x hi hx hk p hp := by
    by_cases hlt : i < s'.scopes.scopes.size
    · have hy := Array.getElem?_eq_getElem hlt
      obtain ⟨y, hy', -, hparent, hkind⟩ := h'.grows i _ hy
      rw [hx] at hy'
      obtain rfl := Option.some.inj hy'
      exact h.defers i _ hi hy (hkind ▸ hk) p (hparent ▸ hp)
    · exact h'.defers i x (Nat.le_of_not_lt hlt) hx hk p hp

/-- Where two stretches leave everything that was there at their starts, so do both together. -/
theorem still_trans (h : Frame s.scopes.scopes.size s s')
    (h' : Frame s'.scopes.scopes.size s' s'') : Frame s.scopes.scopes.size s s'' :=
  h.trans (h'.mono h.size_le)

/-- A change to neither the scopes nor what the stream is. -/
theorem of_eq (hscopes : s'.scopes = s.scopes) (hroot : s'.streamRoot = s.streamRoot)
    (hinline : s'.stream.isInline = s.stream.isInline) : Frame n s s' where
  grows := hscopes ▸ .refl _
  record i x _ hx := hscopes ▸ hx
  var i v hv := hscopes ▸ hv
  root := hroot
  isInline := hinline
  defers i x hi hx := by
    rw [hscopes, Array.getElem?_eq_none hi] at hx
    cases hx

theorem refl (n : Nat) (s : State) : Frame n s s := of_eq rfl rfl rfl

/-- The chain of a scope before the position is left as it is. -/
theorem chain_eq (h : Frame n s s') (ht : s.scopes.WellFormed) (hc : c.index < n)
    (hs : c.index < s.scopes.scopes.size) : s'.scopes.chain c = s.scopes.chain c :=
  ht.chain_congr h.record hc hs

/-- No `defer` statement is passed in a scope before the position. -/
theorem not_sealed (h : Frame n s s') (hc : c.index < n) (hs : ¬ s.scopes.Sealed c) :
    ¬ s'.scopes.Sealed c := by
  rintro ⟨i, x, hx, hk, hp⟩
  by_cases hlt : i < s.scopes.scopes.size
  · have hy := Array.getElem?_eq_getElem hlt
    obtain ⟨y, hy', -, hparent, hkind⟩ := h.grows i _ hy
    rw [hx] at hy'
    obtain rfl := Option.some.inj hy'
    exact hs ⟨i, _, hy, hkind ▸ hk, hparent ▸ hp⟩
  · exact absurd (h.defers i x (Nat.le_of_not_lt hlt) hx hk c hp) (Nat.not_le_of_lt hc)

end Frame

/-- A change that concerns only what routines remember for each other, the blocks and the
diagnostics. -/
structure Alike (s s' : State) : Prop where
  scopes : s'.scopes = s.scopes
  insts : s'.stream.insts = s.stream.insts
  children : s'.stream.children = s.stream.children
  isInline : s'.stream.isInline = s.stream.isInline
  root : s'.streamRoot = s.streamRoot

theorem Alike.refl (s : State) : Alike s s := ⟨rfl, rfl, rfl, rfl, rfl⟩

theorem Alike.frame (h : Alike s s') : Frame n s s' := .of_eq h.scopes h.root h.isInline

/-! ### Openings and declarations -/

/-- The scope that is opened next. -/
def State.top (s : State) : ScopeId := ⟨s.scopes.scopes.size⟩

/-- The state after a scope was opened. -/
def State.opening (s : State) (parent : ScopeId) (kind : ScopeKind) : State :=
  { s with scopes := (s.scopes.openUnder parent kind).2 }

/-- The state after a variable was declared. -/
def State.declaring (s : State) (scope : ScopeId) (r : BindingRequest) : State :=
  { s with scopes := (s.scopes.addVar scope r).2 }

theorem frame_opening {kind : ScopeKind}
    (h : kind.isDeferred = true → n ≤ p.index) : Frame n s (s.opening p kind) where
  grows := ScopeTree.grows_openUnder p kind
  record i x _ hx := by
    have hlt := (Array.getElem?_eq_some_iff.1 hx).1
    rw [State.opening, ScopeTree.getElem?_openUnder, if_neg (Nat.ne_of_lt hlt), hx]
  var _ _ hv := hv
  root := rfl
  isInline := rfl
  defers i x hi hx hk q hq := by
    obtain ⟨-, rfl⟩ | hx := ScopeTree.scope_of_openUnder hx
    · obtain rfl := Option.some.inj hq
      exact h hk
    · rw [Array.getElem?_eq_none hi] at hx
      cases hx

theorem frame_declaring {r : BindingRequest} : Frame c.index s (s.declaring c r) where
  grows := ScopeTree.grows_addVar c r
  record i x hi hx := by
    rw [State.declaring, ScopeTree.getElem?_addVar, if_neg (Nat.ne_of_gt hi), hx]
  var _ _ hv := ScopeTree.var?_addVar hv
  root := rfl
  isInline := rfl
  defers i x hi hx := by
    have := (Array.getElem?_eq_some_iff.1 hx).1
    simp [State.declaring] at this
    omega

theorem not_sealed_declaring {r : BindingRequest} (h : ¬ s.scopes.Sealed p) :
    ¬ (s.declaring c r).scopes.Sealed p := by
  rintro ⟨i, x, hx, hk, hp⟩
  obtain ⟨-, y, hy, rfl⟩ | ⟨-, hx⟩ := ScopeTree.scope_of_addVar hx
  · exact h ⟨i, y, hy, hk, hp⟩
  · exact h ⟨i, x, hx, hk, hp⟩

/-! ### Disciplines -/

/-- What is known where an instruction is emitted: a variable is in sight, and what cannot be
evaluated at compile time need not be. -/
def Fits (env : Env) (s : State) (scope : ScopeId) : InstKind → Prop
  | .varPtr v => ∃ name, s.scopes.lookup scope name env.table = some (.var v)
  | .asm .. | .suspendBegin => s.scopes.isForcedComptime scope = false
  | .call _ _ modifier _ =>
    s.scopes.isForcedComptime scope = true → modifier.runTimeOnly? = none
  | _ => True

/-- An invariant of the state, and what holds of the scopes in which something is lowered, with the
rules by which the steps of the lowering keep both. -/
structure Discipline (env : Env) where
  Inv : State → Prop
  /-- What holds of a scope in which something is lowered. -/
  At : State → ScopeId → Prop
  /-- Where a `defer` statement may stand. -/
  MayDefer : State → ScopeId → Prop
  /-- Where the alarm may be raised. -/
  Alarm : State → Prop
  wellFormed : ∀ {s}, Inv s → s.scopes.WellFormed
  root_lt : ∀ {s}, Inv s → s.streamRoot.index < s.scopes.scopes.size
  index_lt : ∀ {s c}, At s c → c.index < s.scopes.scopes.size
  at_frame : ∀ {s s' c n}, Inv s → At s c → Frame n s s' → c.index < n → At s' c
  inv_alike : ∀ {s s'}, Inv s → Alike s s' → Inv s'
  inv_emit : ∀ {s c kind} (location force gen), Inv s → At s c → Fits env s c kind →
    Inv (s.withNext kind c location force gen)
  inv_open : ∀ {s p} (kind), Inv s → p.index < s.scopes.scopes.size → Inv (s.opening p kind)
  at_open : ∀ {s p kind}, Inv s → At s p → kind.isPlain = true → At (s.opening p kind) s.top
  at_defer : ∀ {s p} (kind), Inv s → At s p → ¬ s.scopes.Sealed p → MayDefer s p →
    At (s.opening p (.deferred kind)) s.top
  /-- A deferred expression is lowered next to the scope of what follows it, on the way out. -/
  at_body : ∀ {s c y}, Inv s → At s c → ScopeTree.Reaches s.streamRoot (s.scopes.chain c) y →
    y.kind.isDeferred = true → At (s.opening (y.parent.getD y.id) .deferredBody) s.top
  declare : ∀ {s c r}, Inv s → At s c → r.Checked →
    s.scopes.bindingError? c r env.table = none →
    Inv (s.declaring c r) ∧ At (s.declaring c r) c
  child : ∀ {s c} (name), Inv s → At s c → s.scopes.isForcedComptime c = true →
    Inv (s.inChild name c) ∧ At (s.inChild name c) c
  around : ∀ {s t c n name}, Inv s → Inv t → Frame n (s.inChild name c) t → Inv (s.around t)

namespace Discipline

variable (d : Discipline env)

/-- How a run ends that keeps to the discipline. -/
def Ends (Le : State → State → Prop) (s : State) (Q : State → α → Prop) :
    Except Stop α × State → Prop
  | (.ok a, s') => d.Inv s' ∧ Le s s' ∧ Q s' a
  | (.error .poisoned, s') => d.Inv s' ∧ Le s s'
  | (.error (.fault f), s') => d.Inv s' ∧ (f = alarmFault → d.Alarm s')

variable {d} {Le : State → State → Prop} {Q R : State → α → Prop} {o : Except Stop α × State}

theorem Ends.imp {L : State → State → Prop} (h : d.Ends Le s R o)
    (hle : ∀ s', Le s s' → L s s') (hQ : ∀ s' a, d.Inv s' → Le s s' → R s' a → Q s' a) :
    d.Ends L s Q o := by
  obtain ⟨(_ | _) | a, s'⟩ := o
  · exact ⟨h.1, hle s' h.2⟩
  · exact h
  · exact ⟨h.1, hle s' h.2.1, hQ s' a h.1 h.2.1 h.2.2⟩

/-- A run that goes on where another one has ended. -/
theorem Ends.after {L : State → State → Prop} (h : d.Ends L s' Q o)
    (hle : ∀ s'', L s' s'' → Le s s'') : d.Ends Le s Q o := by
  obtain ⟨(_ | _) | a, s''⟩ := o
  · exact ⟨h.1, hle s'' h.2⟩
  · exact h
  · exact ⟨h.1, hle s'' h.2.1, h.2.2⟩

theorem ends_bind {x : LowerM α} {f : α → LowerM β} {Q : State → β → Prop}
    (hx : d.Ends Le s R (outcome x env s))
    (hf : ∀ s' a, d.Inv s' → Le s s' → R s' a → d.Ends Le s Q (outcome (f a) env s')) :
    d.Ends Le s Q (outcome (x >>= f) env s) := by
  rw [outcome_bind]
  rcases ho : outcome x env s with ⟨(_ | _) | a, t⟩ <;> rw [ho] at hx
  · exact hx
  · exact hx
  · exact hf t a hx.1 hx.2.1 hx.2.2

end Discipline

/-- How much of a state is left as it is, and what is known in the meantime. -/
structure Mode (d : Discipline env) where
  Le : State → State → Prop
  Know : State → Prop
  trans : ∀ {s s' s''}, Le s s' → Le s' s'' → Le s s''
  of_frame : ∀ {s s'}, d.Inv s → Know s → Frame s.scopes.scopes.size s s' → Le s s'
  stable : ∀ {s s'}, d.Inv s → Know s → Le s s' → Know s'

namespace Mode

variable {d : Discipline env} (m : Mode d)

/-- A routine that keeps to the discipline. -/
def Runs (x : LowerM α) (Q : State → α → Prop) : Prop :=
  ∀ s, d.Inv s → m.Know s → d.Ends m.Le s Q (outcome x env s)

/-- A routine that keeps to the discipline, whatever it returns. -/
abbrev Keeps (x : LowerM α) : Prop := m.Runs x fun _ _ => True

/-- A scope in which something may be lowered. -/
def In (c : ScopeId) : Prop := ∀ s, d.Inv s → m.Know s → d.At s c

variable {m} {x : LowerM α} {f : α → LowerM β} {Q R : State → α → Prop}

theorem runs_bind {Q : State → β → Prop} (hx : m.Runs x R)
    (hf : ∀ s a, d.Inv s → m.Know s → R s a → d.Ends m.Le s Q (outcome (f a) env s)) :
    m.Runs (x >>= f) Q := fun s hi hk =>
  Discipline.ends_bind (hx s hi hk) fun s' a hi' hle hR =>
    (hf s' a hi' (m.stable hi hk hle) hR).after fun _ => m.trans hle

/-- From a state on, something is done and then a routine that keeps to the discipline. -/
theorem ends_then {Q : State → β → Prop} (hi : d.Inv s) (hk : m.Know s)
    (hx : d.Ends m.Le s R (outcome x env s)) (hf : ∀ a, m.Runs (f a) Q) :
    d.Ends m.Le s Q (outcome (x >>= f) env s) :=
  Discipline.ends_bind hx fun s' a hi' hle _ =>
    (hf a s' hi' (m.stable hi hk hle)).after fun _ => m.trans hle

theorem runs_then {Q : State → β → Prop} (hx : m.Keeps x) (hf : ∀ a, m.Runs (f a) Q) :
    m.Runs (x >>= f) Q :=
  runs_bind hx fun s a hi hk _ => hf a s hi hk

theorem Runs.imp (hx : m.Runs x R) (h : ∀ s a, d.Inv s → R s a → Q s a) : m.Runs x Q :=
  fun s hi hk => (hx s hi hk).imp (fun _ => id) fun s' a hi' _ => h s' a hi'

theorem le_refl (hi : d.Inv s) (hk : m.Know s) : m.Le s s := m.of_frame hi hk (.refl _ s)

theorem runs_pure {a : α} (h : ∀ s, d.Inv s → m.Know s → Q s a) : m.Runs (pure a) Q :=
  fun s hi hk => ⟨hi, le_refl hi hk, h s hi hk⟩

theorem keeps_pure {a : α} : m.Keeps (pure a) := runs_pure fun _ _ _ => trivial

theorem runs_pure_bind {a : α} {Q : State → β → Prop} (h : m.Runs (f a) Q) :
    m.Runs (pure a >>= f) Q := h

theorem runs_poisoned : m.Runs (throw .poisoned : LowerM α) Q :=
  fun _ hi hk => ⟨hi, le_refl hi hk⟩

theorem runs_fault {e : Fault} (h : e ≠ alarmFault) : m.Runs (throw (.fault e) : LowerM α) Q :=
  fun _ hi _ => ⟨hi, fun he => absurd he h⟩

theorem keeps_map {g : α → β} (hx : m.Keeps x) : m.Keeps (g <$> x) := by
  rw [map_eq_pure_bind]
  exact runs_then hx fun _ => keeps_pure

theorem runs_ite {p : Prop} [Decidable p] {y : LowerM α} (hx : m.Runs x Q) (hy : m.Runs y Q) :
    m.Runs (if p then x else y) Q := by
  split
  · exact hx
  · exact hy

/-- A routine that reads the state goes on with what it finds. -/
theorem runs_get_bind {f : State → LowerM α}
    (h : ∀ s, d.Inv s → m.Know s → d.Ends m.Le s Q (outcome (f s) env s)) :
    m.Runs (get >>= f) Q := h

theorem runs_get_then {f : State → LowerM α} (h : ∀ s, m.Runs (f s) Q) :
    m.Runs (get >>= f) Q := fun s hi hk => h s s hi hk

theorem runs_read_bind {f : Env → LowerM α} (h : m.Runs (f env) Q) : m.Runs (read >>= f) Q := h

/-- A routine that leaves scopes and instructions alone, and returns. -/
theorem runs_alike (a : State → α) (g : State → State) (hg : ∀ s, Alike s (g s))
    (hx : ∀ s, outcome x env s = (.ok (a s), g s)) : m.Keeps x := fun s hi hk => by
  rw [hx]
  exact ⟨d.inv_alike hi (hg s), m.of_frame hi hk (hg s).frame, trivial⟩

theorem keeps_modify {g : State → State} (hg : ∀ s, Alike s (g s)) :
    m.Keeps (modify g : LowerM PUnit) :=
  runs_alike (fun _ => ⟨⟩) g hg fun _ => rfl

theorem runs_fail {msg : Message} : m.Runs (fail msg : LowerM α) Q := by
  intro s hi hk
  obtain ⟨log, ho⟩ := @outcome_fail α env s msg
  rw [ho]
  have h : Alike s { s with
      stream := s.stream.invalidate (s.recorded env.options.callStackLimit msg), log } :=
    ⟨rfl, rfl, rfl, rfl, rfl⟩
  exact ⟨d.inv_alike hi h, m.of_frame hi hk h.frame⟩

theorem runs_failAt {kind : DiagnosticKind} {message issuer : String} {node : Node} :
    m.Runs (failAt kind message issuer node : LowerM α) Q := runs_fail

theorem keeps_warnAt {kind : DiagnosticKind} {message : String} {node : Node} :
    m.Keeps (warnAt kind message node) := by
  let msg := Message.ofKind kind message "lower_statement" node.location node.span
  exact runs_alike (fun _ => ⟨⟩)
    (fun s => { s with
      stream := s.stream.addWarning msg, log := s.log.push (.warned s.stream.name msg) })
    (fun _ => ⟨rfl, rfl, rfl, rfl, rfl⟩) fun _ => rfl

theorem ends_attempt (h : d.Ends m.Le s (fun _ _ => True) (outcome x env s)) :
    d.Ends m.Le s (fun _ _ => True) (outcome (attempt x) env s) := by
  rw [outcome_attempt]
  rcases ho : outcome x env s with ⟨(_ | _) | a, t⟩ <;> rw [ho] at h
  · exact ⟨h.1, h.2, trivial⟩
  · exact h
  · exact h

theorem keeps_attempt (hx : m.Keeps x) : m.Keeps (attempt x) := fun s hi hk =>
  ends_attempt (hx s hi hk)

theorem keeps_withFrame {location : Option Location} {description : String} (hx : m.Keeps x) :
    m.Keeps (withFrame location description x) := by
  have set (g : CallStack → CallStack) :
      m.Keeps (modify fun s : State => { s with calls := g s.calls }) :=
    keeps_modify fun _ => ⟨rfl, rfl, rfl, rfl, rfl⟩
  refine runs_then (set (·.push ⟨location, description⟩)) fun _ =>
    runs_then (keeps_attempt hx) fun r => runs_then (set (·.pop.2)) fun _ => ?_
  cases r with
  | some a => exact keeps_pure
  | none => exact runs_poisoned

/-! ### Handles -/

theorem keeps_stopAt {e : Option Fault} (h : ∀ f ∈ e, f ≠ alarmFault) : m.Keeps (stopAt e) := by
  cases e with
  | some f => exact runs_fault (h f rfl)
  | none => exact keeps_pure

/-- A routine that walks outward from a scope goes on with the scopes as they are. -/
theorem runs_scopesFrom_bind {f : ScopeTree → LowerM α}
    (h : ∀ s, d.Inv s → m.Know s → d.Ends m.Le s Q (outcome (f s.scopes) env s)) :
    m.Runs (scopesFrom c >>= f) Q := by
  intro s hi hk
  rw [outcome_bind]
  obtain ⟨e, he, ho⟩ | ho := outcome_scopesFrom_cases (s := s) c <;> rw [ho]
  · exact ⟨hi, fun h => absurd h he⟩
  · exact h s hi hk

theorem runs_scopesFrom_then {f : ScopeTree → LowerM α} (h : ∀ t, m.Runs (f t) Q) :
    m.Runs (scopesFrom c >>= f) Q :=
  runs_scopesFrom_bind fun s hi hk => h s.scopes s hi hk

theorem runs_scopeAt_bind {f : Scope → LowerM α}
    (h : ∀ s y, d.Inv s → m.Know s → s.scopes.scope? c = some y →
      d.Ends m.Le s Q (outcome (f y) env s)) :
    m.Runs (scopeAt c >>= f) Q := by
  intro s hi hk
  rw [outcome_bind]
  cases hc : s.scopes.scope? c with
  | some y =>
    rw [outcome_scopeAt hc]
    exact h s y hi hk hc
  | none =>
    have ho : outcome (scopeAt c) env s =
        (.error (.fault (.outOfRange s.scopes.scopes.size c.index)), s) := by
      rw [scopeAt, outcome_bind, outcome_get]
      simp only [hc]
      rfl
    rw [ho]
    exact ⟨hi, fun h => by cases h⟩

/-- A test of whether control goes on leaves the state as it is. -/
theorem ends_isTerminated_bind {L : State → State → Prop} {f : Bool → LowerM α} (hi : d.Inv s)
    (h : ∀ terminated, d.Ends L s Q (outcome (f terminated) env s)) :
    d.Ends L s Q (outcome (isTerminated >>= f) env s) := by
  rw [outcome_bind]
  cases hf : s.stream.endFault? with
  | none =>
    rw [outcome_isTerminated hf]
    exact h _
  | some e =>
    have ho : outcome isTerminated env s = (.error (.fault e), s) := by
      rw [isTerminated, outcome_bind, outcome_get]
      simp only [hf]
      rfl
    rw [ho]
    exact ⟨hi, fun he => absurd he (endFault?_ne_alarm s.stream e hf)⟩

theorem keeps_isTerminated : m.Keeps isTerminated :=
  runs_get_then fun s => runs_then (keeps_stopAt (endFault?_ne_alarm s.stream)) fun _ => keeps_pure

theorem runs_isComptimeAt :
    m.Runs (isComptimeAt c) fun s b => b = isComptimeIn s.stream s.scopes c :=
  runs_scopesFrom_bind fun _ hi hk => ⟨hi, le_refl hi hk, rfl⟩

theorem keeps_isComptimeAt : m.Keeps (isComptimeAt c) :=
  runs_isComptimeAt.imp fun _ _ _ _ => trivial

/-! ### Emission -/

variable {kind : InstKind} {location : Option Location} {force gen : Bool}

theorem ends_emitWith (hi : d.Inv s) (hk : m.Know s) (hc : d.At s c) (hf : Fits env s c kind) :
    d.Ends m.Le s (fun _ _ => True)
      (outcome (emitWith kind c location force gen) env s) := by
  obtain ⟨e, he, ho⟩ | ho := outcome_emitWith_cases (s := s) kind c location force gen <;> rw [ho]
  · exact ⟨hi, fun h => absurd h he⟩
  · exact ⟨d.inv_emit _ _ _ hi hc hf, m.of_frame hi hk (.of_eq rfl rfl rfl), trivial⟩

theorem keeps_emitWith (hc : m.In c) (hf : ∀ s, d.Inv s → m.Know s → Fits env s c kind) :
    m.Keeps (emitWith kind c location force gen) := fun s hi hk =>
  ends_emitWith hi hk (hc s hi hk) (hf s hi hk)

/-- An instruction of which nothing need be known. -/
theorem keeps_emit (hc : m.In c) (hf : ∀ s, Fits env s c kind) :
    m.Keeps (emitWith kind c location force gen) :=
  keeps_emitWith hc fun s _ _ => hf s

theorem keeps_newBlock {name : String} : m.Keeps (newBlock name) :=
  runs_alike (fun s => ⟨s.stream.blocks.size⟩)
    (fun s => { s with stream := (s.stream.newBlock name).2 })
    (fun _ => ⟨rfl, rfl, rfl, rfl, rfl⟩) fun _ => rfl

theorem keeps_goto {b : BlockId} : m.Keeps (goto b) :=
  keeps_modify fun _ => ⟨rfl, rfl, rfl, rfl, rfl⟩

theorem keeps_currentBlock : m.Keeps currentBlock := runs_get_then fun _ => keeps_pure

/-! ### What routines remember for each other -/

theorem keeps_openSink {scope : ScopeId} {loc : ResultLoc} : m.Keeps (openSink scope loc) :=
  keeps_modify fun _ => ⟨rfl, rfl, rfl, rfl, rfl⟩

theorem keeps_sink? {scope : ScopeId} : m.Keeps (sink? scope) := runs_get_then fun _ => keeps_pure

theorem keeps_flowInto {scope : ScopeId} {value : InstId} : m.Keeps (flowInto scope value) :=
  keeps_modify fun _ => ⟨rfl, rfl, rfl, rfl, rfl⟩

theorem keeps_closeSink {scope : ScopeId} : m.Keeps (closeSink scope) :=
  runs_alike (fun s => ((s.sinks.lookup scope).map (·.incoming)).getD [])
    (fun s => { s with sinks := s.sinks.filter (·.1 != scope) })
    (fun _ => ⟨rfl, rfl, rfl, rfl, rfl⟩) fun _ => rfl

theorem keeps_setNameHint {init : Node} {name : String} : m.Keeps (setNameHint init name) :=
  keeps_modify fun _ => ⟨rfl, rfl, rfl, rfl, rfl⟩

theorem keeps_takeNameHint {node : Node} : m.Keeps (takeNameHint node) := by
  refine runs_get_bind fun s hi hk => ?_
  have done (a : Option String) : d.Ends m.Le s (fun _ _ => True) (.ok a, s) :=
    ⟨hi, le_refl hi hk, trivial⟩
  have h : Alike s { s with nameHint := none } := ⟨rfl, rfl, rfl, rfl, rfl⟩
  split
  · split
    · exact ⟨d.inv_alike hi h, m.of_frame hi hk h.frame, trivial⟩
    · exact done _
  · exact done _

theorem keeps_countMade {symbol : Node.MemberSymbol} : m.Keeps (countMade symbol) := by
  cases symbol with
  | written => exact keeps_pure
  | made _ => exact keeps_modify fun _ => ⟨rfl, rfl, rfl, rfl, rfl⟩

end Mode

end Lower

end SourceIr
