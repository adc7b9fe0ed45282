import SourceIr.Proofs.Jump
import SourceIr.Proofs.Safety.Basic
import SourceIr.Proofs.Stream.Graph

/-!
# Where branches lead

A branch leads to a block of its stream.  Only a jump to the scope in which the stream was started
leads elsewhere, for the blocks of that scope were made in another stream.

* `Stream.Encloses`, a stream whose branches lead to its blocks, some jumps apart;
* `Enclosed`, the states with such streams, and `Widens`, how states change;
* `IsInside`, the scopes from which a jump to a scope inside the root leads to a block;
* `Confines`, the routines that keep to that, and `enclosure`, the logic of them.
-/

namespace SourceIr

namespace Stream

variable {t : Stream} {outer : List BlockId}

/-- Every branch leads to a block of the stream, except that jumps may lead to `outer`. -/
def Encloses (t : Stream) (outer : List BlockId) : Prop :=
  ∀ x ∈ t.insts, ∀ b ∈ x.kind.targets, b.index < t.blocks.size ∨ x.kind = .br b ∧ b ∈ outer

theorem encloses_new (name : String) (isInline : Bool) :
    (Stream.new name isInline).Encloses outer :=
  fun x hx => absurd hx (Array.not_mem_empty x)

/-- Blocks may be added to a stream. -/
theorem Encloses.of_le {t' : Stream} (h : t.Encloses outer) (hinsts : t'.insts = t.insts)
    (hblocks : t.blocks.size ≤ t'.blocks.size) : t'.Encloses outer := fun x hx b hb =>
  (h x (hinsts ▸ hx) b hb).imp_left fun hlt => Nat.lt_of_lt_of_le hlt hblocks

/-- An instruction may be appended that leads where branches may lead. -/
theorem Encloses.withNext {kind : InstKind} {scope : ScopeId} {location : Option Location}
    {isComptime isGen : Bool} (h : t.Encloses outer)
    (hk : ∀ b ∈ kind.targets, b.index < t.blocks.size ∨ kind = .br b ∧ b ∈ outer) :
    (t.withNext kind scope location isComptime isGen).Encloses outer := by
  intro x hx b hb
  rw [withNext_size_blocks]
  rcases Array.mem_push.1 hx with hx | rfl
  · exact h x hx b hb
  · exact hk b hb

end Stream

namespace Lower

variable {env : Env} {s s' s'' : State} {scope parent : ScopeId} {α β : Type}

/-- The blocks that a jump to a scope leads to. -/
def State.exitsOf (s : State) (scope : ScopeId) : List BlockId :=
  ((s.scopes.scope? scope).map (exits ·.kind)).getD []

/-- The blocks that a jump to the root of the stream leads to. -/
def State.outer (s : State) : List BlockId := s.exitsOf s.streamRoot

theorem State.exitsOf_eq {x : Scope} (h : s.scopes.scope? scope = some x) :
    s.exitsOf scope = exits x.kind := by
  rw [exitsOf, h]
  rfl

/-- Every branch of the current stream leads to one of its blocks or out of its root, and those of
the streams inside lead to blocks of their own. -/
structure Enclosed (s : State) : Prop where
  scopes : s.scopes.WellFormed
  root : IsScope s s.streamRoot
  stream : s.stream.Encloses s.outer
  children : ∀ c ∈ s.stream.children, ∀ t : Stream, t.PartOf c → t.Encloses []

/-- How states change: scopes and blocks are added, and the stream stays in its root. -/
structure Widens (s s' : State) : Prop where
  blocks : s.stream.blocks.size ≤ s'.stream.blocks.size
  scopes : s.scopes.Grows s'.scopes
  root : s'.streamRoot = s.streamRoot

attribute [grind →] Widens.blocks

namespace Widens

theorem refl (s : State) : Widens s s := ⟨Nat.le_refl _, .refl _, rfl⟩

theorem trans (h : Widens s s') (h' : Widens s' s'') : Widens s s'' where
  blocks := Nat.le_trans h.blocks h'.blocks
  scopes := h.scopes.trans h'.scopes
  root := h'.root.trans h.root

/-- A change that concerns neither the blocks nor the scopes. -/
theorem of_eq (hblocks : s'.stream.blocks = s.stream.blocks) (hscopes : s'.scopes = s.scopes)
    (hroot : s'.streamRoot = s.streamRoot) : Widens s s' :=
  ⟨hblocks ▸ Nat.le_refl _, hscopes ▸ .refl _, hroot⟩

/-- A scope keeps its kind. -/
theorem exitsOf (h : Widens s s') (hs : IsScope s scope) :
    s'.exitsOf scope = s.exitsOf scope := by
  have hx := Array.getElem?_eq_getElem hs
  obtain ⟨x', hx', -, -, hk⟩ := h.scopes _ _ hx
  rw [State.exitsOf_eq hx, State.exitsOf_eq hx', hk]

theorem outer (h : Widens s s') (hroot : IsScope s s.streamRoot) : s'.outer = s.outer := by
  rw [State.outer, h.root, h.exitsOf hroot, State.outer]

/-- Whether a jump leaves the stream does not depend on what was opened since. -/
theorem leaves_eq {target : Option ScopeId} (h : Widens s s') (hs : IsScope s scope) :
    s'.scopes.leaves s'.streamRoot scope target = s.scopes.leaves s.streamRoot scope target := by
  rw [h.root, h.scopes.leaves_eq hs]

end Widens

/-- A change that adds no instruction. -/
theorem Enclosed.widens (hs : Enclosed s) (k : Widens s s') (hscopes : s'.scopes.WellFormed)
    (hinsts : s'.stream.insts = s.stream.insts)
    (hchildren : s'.stream.children = s.stream.children) : Enclosed s' where
  scopes := hscopes
  root := by
    rw [k.root]
    exact Nat.lt_of_lt_of_le hs.root k.scopes.size_le
  stream := k.outer hs.root ▸ hs.stream.of_le hinsts k.blocks
  children := hchildren ▸ hs.children

/-- A scope, with a block of the stream at every way out of the scopes between it and the root. -/
structure IsInside (s : State) (scope : ScopeId) : Prop where
  index : IsScope s scope
  exits : ∀ x ∈ s.scopes.inside s.streamRoot scope, ∀ b ∈ exits x.2, IsBlock s b

@[grind →]
theorem IsInside.mono (h : IsInside s scope) (k : Widens s s') : IsInside s' scope where
  index := Nat.lt_of_lt_of_le h.index k.scopes.size_le
  exits x hx b hb := by
    rw [k.root, k.scopes.inside_eq h.index] at hx
    exact Nat.lt_of_lt_of_le (h.exits x hx b hb) k.blocks

/-- Nothing is between the root and itself. -/
theorem Enclosed.isInside_root (hs : Enclosed s) : IsInside s s.streamRoot :=
  ⟨hs.root, by simp [ScopeTree.inside_self hs.scopes hs.root]⟩

/-- A scope that is inside another one, without the root of the stream between them. -/
structure NestedIn (s : State) (scope inner : ScopeId) : Prop where
  isInside : IsInside s inner
  under : s.scopes.Under s.streamRoot scope inner

theorem NestedIn.self (h : IsInside s scope) : NestedIn s scope scope := ⟨h, .refl _ _ _⟩

theorem NestedIn.mono {inner : ScopeId} (h : NestedIn s scope inner) (hs : IsScope s scope)
    (k : Widens s s') : NestedIn s' scope inner :=
  ⟨h.isInside.mono k, k.root ▸ h.under.grows hs h.isInside.index k.scopes⟩

theorem NestedIn.trans {inner innermost : ScopeId} (h : NestedIn s scope inner)
    (h' : NestedIn s inner innermost) : NestedIn s scope innermost :=
  ⟨h'.isInside, h.under.trans h'.under⟩

/-! ### Routines -/

/-- A routine that keeps every branch inside the stream, if it returns. -/
def Confines (env : Env) (s : State) (x : LowerM α) (Q : State → α → Prop) : Prop :=
  Enclosed s → ∀ a s', Returns x env s a s' → Enclosed s' ∧ Widens s s' ∧ Q s' a

variable {x : LowerM α} {f : α → LowerM β} {Q R : State → α → Prop}

theorem confines_pure {a : α} (h : Q s a) : Confines env s (pure a) Q := by
  intro hs b s' hr
  obtain ⟨rfl, rfl⟩ := returns_pure.1 hr
  exact ⟨hs, .refl s', h⟩

theorem confines_bind {Q : State → β → Prop} (hx : Confines env s x R)
    (hf : ∀ s' a, Widens s s' → R s' a → Confines env s' (f a) Q) :
    Confines env s (x >>= f) Q := by
  intro hs b s'' hr
  obtain ⟨a, s', hra, hrb⟩ := returns_bind.1 hr
  obtain ⟨hs', k, hR⟩ := hx hs a s' hra
  obtain ⟨hs'', k', hQ⟩ := hf s' a k hR hs' b s'' hrb
  exact ⟨hs'', k.trans k', hQ⟩

theorem confines_mono (h : Confines env s x R) (hQ : ∀ s' a, Widens s s' → R s' a → Q s' a) :
    Confines env s x Q := by
  intro hs a s' hr
  obtain ⟨hs', k, hR⟩ := h hs a s' hr
  exact ⟨hs', k, hQ s' a k hR⟩

/-- What is known of the state may be used. -/
theorem confines_of_enclosed (h : Enclosed s → Confines env s x Q) : Confines env s x Q :=
  fun hs => h hs hs

/-- A routine that fails leads nowhere. -/
theorem confines_of_fails (h : ∀ a s', ¬ Returns x env s a s') : Confines env s x Q :=
  fun _ a s' hr => absurd hr (h a s')

/-- A routine that adds no instruction. -/
theorem confines_step {a : α} (hx : outcome x env s = (.ok a, s'))
    (hinsts : s'.stream.insts = s.stream.insts)
    (hchildren : s'.stream.children = s.stream.children) (k : Widens s s')
    (hscopes : s.scopes.WellFormed → s'.scopes.WellFormed) (hQ : Enclosed s → Q s' a) :
    Confines env s x Q := by
  intro hs b t hr
  rw [Returns, hx] at hr
  cases hr
  exact ⟨hs.widens k (hscopes hs.scopes) hinsts hchildren, k, hQ hs⟩

/-- A routine that concerns neither the stream nor the scopes. -/
theorem confines_set {u : LowerM PUnit} (hu : outcome u env s = (.ok ⟨⟩, s'))
    (hstream : s'.stream = s.stream) (hscopes : s'.scopes = s.scopes)
    (hroot : s'.streamRoot = s.streamRoot) : Confines env s u fun _ _ => True :=
  confines_step hu (congrArg Stream.insts hstream) (congrArg Stream.children hstream)
    (.of_eq (congrArg Stream.blocks hstream) hscopes hroot) (fun h => hscopes ▸ h) fun _ => trivial

theorem confines_scopesFrom : Confines env s (scopesFrom scope) fun s' t =>
    s' = s ∧ t = s.scopes ∧ t.WellFormed := by
  intro hs t s' hr
  obtain ⟨rfl, rfl⟩ := returns_scopesFrom hr
  exact ⟨hs, .refl s', rfl, rfl, hs.scopes⟩

theorem confines_warnAt {kind : DiagnosticKind} {message : String} {node : Node} :
    Confines env s (warnAt kind message node) fun _ _ => True := by
  intro hs u s' hr
  rw [warnAt, returns_get_bind] at hr
  obtain ⟨_, t, hnote, hr⟩ := returns_bind.1 hr
  obtain rfl := returns_modify.1 hnote
  obtain rfl := returns_modify.1 hr
  exact ⟨⟨hs.scopes, hs.root, hs.stream, hs.children⟩, .of_eq rfl rfl rfl, trivial⟩

theorem confines_withFrame {location : Option Location} {description : String}
    (hx : ∀ t, Widens s t → Confines env t x Q) (hQ : ∀ t t' a, Widens t t' → Q t a → Q t' a) :
    Confines env s (withFrame location description x) Q := by
  intro hs a s' hr
  obtain ⟨t, hrx, rfl⟩ := returns_withFrame hr
  have k₁ : Widens s { s with calls := s.calls.push ⟨location, description⟩ } :=
    .of_eq rfl rfl rfl
  obtain ⟨ht, k₂, h⟩ := hx _ k₁ (hs.widens k₁ hs.scopes rfl rfl) a t hrx
  have k₃ : Widens t { t with calls := t.calls.pop.2 } := .of_eq rfl rfl rfl
  exact ⟨ht.widens k₃ ht.scopes rfl rfl, k₁.trans (k₂.trans k₃), hQ t _ a k₃ h⟩

/-- An instruction may be appended that leads where branches may lead. -/
theorem confines_emitWith {kind : InstKind} {location : Option Location} {force gen : Bool}
    (hk : ∀ b ∈ kind.targets, IsBlock s b ∨ kind = .br b ∧ b ∈ s.outer) :
    Confines env s (emitWith kind scope location force gen) fun _ _ => True := by
  intro hs v s' hr
  obtain ⟨-, -, _, _, _, _, rfl⟩ := returns_emitWith hr
  exact ⟨⟨hs.scopes, hs.root, hs.stream.withNext hk, hs.children⟩,
    ⟨by simp [State.withNext], .refl _, rfl⟩, trivial⟩

/-- An instruction may be appended that is no branch. -/
theorem confines_emitPlain {kind : InstKind} {location : Option Location} {force gen : Bool}
    (hk : kind.targets = []) :
    Confines env s (emitWith kind scope location force gen) fun _ _ => True :=
  confines_emitWith (by simp [hk])

/-- A scope may be opened whose ways out are blocks of the stream. -/
theorem confines_openScope {kind : ScopeKind} (hp : IsInside s parent)
    (hk : ∀ b ∈ exits kind, IsBlock s b) :
    Confines env s (openScope parent kind) fun s' inner =>
      NestedIn s' parent inner ∧ s'.exitsOf inner = exits kind := by
  refine confines_step (outcome_openScope hp.index) rfl rfl
    ⟨Nat.le_refl _, ScopeTree.grows_openUnder parent kind, rfl⟩ (·.openUnder hp.index) fun hs => ?_
  have hx : (s.scopes.openUnder parent kind).2.scope? ⟨s.scopes.scopes.size⟩ = some _ :=
    ScopeTree.scope?_openUnder parent kind
  refine ⟨⟨⟨by simp [IsScope], fun x hx b hb => ?_⟩,
    ScopeTree.under_openUnder hp.index hs.root kind⟩, by rw [State.exitsOf, hx]; rfl⟩
  rw [ScopeTree.inside_openUnder hp.index hs.root] at hx
  rcases List.mem_cons.1 hx with rfl | hx
  · exact hk b hb
  · exact hp.exits x hx b hb

theorem confines_declare? {r : BindingRequest} :
    Confines env s (declare? scope r) fun _ _ => True := by
  intro hs result s' hr
  rw [declare?, returns_read_bind, returns_get_bind] at hr
  replace hr := (returns_stopAt_bind hr).2
  split at hr
  next id scopes hd =>
    obtain ⟨_, t, hset, hr⟩ := returns_bind.1 hr
    obtain rfl := returns_set.1 hset
    obtain ⟨-, rfl⟩ := returns_pure.1 hr
    obtain ⟨rfl, rfl⟩ := Prod.mk.inj (ScopeTree.declare_eq_ok hd)
    have k : Widens s { s with
        scopes := (s.scopes.addVar scope r).2
        log := s.log.push (.declared (s.scopes.addVar scope r).1 scope) } :=
      ⟨Nat.le_refl _, ScopeTree.grows_addVar scope r, rfl⟩
    exact ⟨hs.widens k (hs.scopes.addVar r) rfl rfl, k, trivial⟩
  next =>
    obtain ⟨-, rfl⟩ := returns_pure.1 hr
    exact ⟨hs, .refl s', trivial⟩

/-- The logic of the routines that neither branch nor jump. -/
def enclosure (env : Env) : Logic env := FreeLogic.toLogic {
  Point := State
  state := id
  Le := Widens
  Val _ _ := True
  In := IsInside
  Fit _ := True
  mayCall := true
  mayStore := true
  Holds := Confines env
  le_refl := .refl
  le_trans := .trans
  val_mono _ _ := trivial
  in_mono k hs := hs.mono k
  fit_used _ _ _ := trivial
  holds_pure := confines_pure
  holds_bind := confines_bind
  holds_get := confines_step outcome_get rfl rfl (.refl _) id fun _ => ⟨rfl, rfl⟩
  holds_read := confines_step outcome_read rfl rfl (.refl _) id fun _ => ⟨rfl, rfl⟩
  holds_set h := confines_set outcome_set h.stream h.scopes h.streamRoot
  holds_scopesFrom _ := confines_scopesFrom
  holds_fail := confines_of_fails fun _ _ => not_returns_fail
  holds_throw _ := confines_of_fails fun _ _ => not_returns_throw
  holds_warnAt := confines_warnAt
  holds_emitWith _ hk _ := confines_emitPlain (InstKind.targets_of_isPlain
    (Bool.and_eq_true_iff.1 hk).1)
  holds_openScope hp hk := confines_mono (confines_openScope hp (by simp [hk]))
    fun _ _ _ h => h.1.isInside
  holds_declare? _ _ := confines_declare?
  holds_orDeclareFailed _ h hs a s' hr := h hs a s' hr.of_orDeclareFailed
  holds_withFrame := confines_withFrame }

end Lower

end SourceIr
