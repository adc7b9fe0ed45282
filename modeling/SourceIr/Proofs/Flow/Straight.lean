import SourceIr.Lower.Expr
import SourceIr.Proofs.Flow.Later
import SourceIr.Proofs.Logic.Routines
import SourceIr.Proofs.Scope.Growth

/-!
# Code without branches and calls

The machine goes straight through the code of an expression that neither branches nor calls a
function, such as the types in the head of a function, and leaves no trace.

* `Node.Straight`, such expressions;
* `Clear`, a state that control gets to, and `Along`, straight code between two states;
* `Passes`, the routines that add straight code, and `straight`, the logic of them.
-/

namespace SourceIr

/-- Nothing in an expression branches or calls a function. -/
inductive Node.Straight : Node → Prop
  | intro {node : Node} (hb : node.kind.branches = false) (hc : node.kind.isCall = false)
      (parts : ∀ part ∈ node.kind.used, Straight part) : Straight node

theorem InstKind.isSilent_of_isPlain {kind : InstKind} (h : kind.isPlain = true)
    (hc : kind.isCall = false) : kind.isSilent = true := by
  cases kind with
  | call => cases hc
  | br | condBr | ret | unreachable => cases h
  | _ => rfl

namespace Lower

open SourceIr.Stream

/-- A state that control gets to.  No variable has taken the name of a declaration. -/
structure Clear (env : Env) (s : State) : Prop extends Fine s where
  apart : s.scopes.Apart env.table
  goesOn : s.stream.isTerminated = false

/-- The code between two states is straight. -/
structure Along (s s' : State) : Prop where
  stream : s.stream.Grows s'.stream
  scopes : s.scopes.Grows s'.scopes
  silent : ∀ F tests, F.Coherent → s'.stream.Grows F → Silent F tests s.here s'.here

/-- A routine that adds straight code, if it returns. -/
def Passes {α : Type} (env : Env) (s : State) (x : LowerM α) (Q : State → α → Prop) : Prop :=
  Clear env s → ∀ a s', Returns x env s a s' → Clear env s' ∧ Along s s' ∧ Q s' a

variable {env : Env} {s s' s'' : State} {α β : Type} {x : LowerM α} {Q R : State → α → Prop}

theorem Along.refl (s : State) : Along s s := ⟨.refl _, .refl _, fun _ _ _ _ => .refl _⟩

theorem Along.trans (h : Along s s') (h' : Along s' s'') : Along s s'' where
  stream := h.stream.trans h'.stream
  scopes := h.scopes.trans h'.scopes
  silent F tests hF hg :=
    (h.silent F tests hF (h'.stream.trans hg)).trans (h'.silent F tests hF hg)

/-- What has no part in control flow may change. -/
theorem Along.of_stream (hstream : s'.stream = s.stream) (hscopes : s.scopes.Grows s'.scopes) :
    Along s s' where
  stream := hstream ▸ .refl _
  scopes := hscopes
  silent F tests _ _ := by
    have hhere : s'.here = s.here := by rw [State.here, hstream, State.here]
    exact hhere ▸ .refl _

theorem Clear.of_eq (h : Clear env s) (hstream : s'.stream = s.stream)
    (hscopes : s'.scopes = s.scopes) : Clear env s' where
  stream := hstream ▸ h.stream
  scopes := hscopes ▸ h.scopes
  apart := hscopes ▸ h.apart
  goesOn := hstream ▸ h.goesOn

/-- An instruction that leaves no trace may be appended. -/
theorem Appends.along {kind : InstKind} (h : Appends kind s s') (hs : Clear env s)
    (hk : kind.isSilent = true) : Clear env s' ∧ Along s s' := by
  have hfine := h.later.fine hs.toFine
  have hscopes : s'.scopes = s.scopes := by
    obtain ⟨-, _, _, _, _, rfl⟩ := h
    rfl
  have hgoes : s'.stream.isTerminated = false := by
    rw [h.isTerminated hs.toFine]
    cases kind <;> first | rfl | cases hk
  exact ⟨⟨hfine, hscopes ▸ hs.apart, hgoes⟩, h.later.stream, hscopes ▸ .refl _,
    fun F tests hF hg => h.silent hF hg hk⟩

/-! ### Routines -/

theorem passes_pure {a : α} (h : Q s a) : Passes env s (pure a) Q := by
  intro hs b s' hr
  obtain ⟨rfl, rfl⟩ := returns_pure.1 hr
  exact ⟨hs, .refl _, h⟩

theorem passes_bind {f : α → LowerM β} {Q : State → β → Prop} (hx : Passes env s x R)
    (hf : ∀ s' a, Along s s' → R s' a → Passes env s' (f a) Q) : Passes env s (x >>= f) Q := by
  intro hs b s'' hr
  obtain ⟨a, s', hra, hrb⟩ := returns_bind.1 hr
  obtain ⟨hs', h, hR⟩ := hx hs a s' hra
  obtain ⟨hs'', h', hQ⟩ := hf s' a h hR hs' b s'' hrb
  exact ⟨hs'', h.trans h', hQ⟩

/-- A routine that changes nothing but what has no part in control flow. -/
theorem passes_quiet (hstream : ∀ a s', Returns x env s a s' → s'.stream = s.stream ∧
    s'.scopes = s.scopes ∧ Q s' a) : Passes env s x Q := by
  intro hs a s' hr
  obtain ⟨hstream, hscopes, hQ⟩ := hstream a s' hr
  exact ⟨hs.of_eq hstream hscopes, .of_stream hstream (hscopes ▸ .refl _), hQ⟩

theorem passes_of_fails (h : ∀ a s', ¬ Returns x env s a s') : Passes env s x Q :=
  fun _ a s' hr => absurd hr (h a s')

theorem passes_warnAt {kind : DiagnosticKind} {message : String} {node : Node} :
    Passes env s (warnAt kind message node) fun _ _ => True := by
  intro hs _ s' hr
  rw [warnAt, returns_get_bind, note, returns_modify_bind] at hr
  obtain rfl := returns_modify.1 hr
  exact ⟨⟨⟨hs.stream.addWarning _, hs.scopes⟩, hs.apart, hs.goesOn⟩,
    ⟨⟨fun _ _ => id, Nat.le_refl _⟩, .refl _, fun _ _ _ _ => .refl _⟩, trivial⟩

theorem passes_emitWith {kind : InstKind} {scope : ScopeId} {location : Option Location}
    {force gen : Bool} (hk : kind.isSilent = true) :
    Passes env s (emitWith kind scope location force gen) fun _ _ => True := by
  intro hs v s' hr
  obtain ⟨hs', h⟩ := (returns_emitWith hr).2.along hs hk
  exact ⟨hs', h, trivial⟩

theorem passes_openScope {parent : ScopeId} {kind : ScopeKind}
    (hp : parent.index < s.scopes.scopes.size) :
    Passes env s (openScope parent kind) fun s' scope => scope.index < s'.scopes.scopes.size := by
  intro hs scope s' hr
  rw [Returns, outcome_openScope hp] at hr
  obtain ⟨hscope, rfl⟩ := Prod.mk.inj hr
  obtain rfl := Except.ok.inj hscope
  exact ⟨⟨⟨hs.stream, hs.scopes.openUnder hp⟩, hs.apart.openUnder, hs.goesOn⟩,
    .of_stream rfl (ScopeTree.grows_openUnder parent kind), by simp⟩

theorem passes_declare? {scope : ScopeId} {r : BindingRequest} (hr : r.skipNameCheck = false) :
    Passes env s (declare? scope r) fun _ _ => True := by
  intro hs result s' hret
  rw [declare?, returns_read_bind, returns_get_bind] at hret
  replace hret := (returns_stopAt_bind hret).2
  split at hret
  next id scopes hd =>
    obtain ⟨_, s₁, h₁, hret⟩ := returns_bind.1 hret
    obtain rfl := returns_set.1 h₁
    obtain ⟨rfl, rfl⟩ := returns_pure.1 hret
    have happ := hs.apart.declare hr hd
    obtain ⟨rfl, rfl⟩ := Prod.mk.inj (ScopeTree.declare_eq_ok hd)
    exact ⟨⟨⟨hs.stream, hs.scopes.addVar r⟩, happ, hs.goesOn⟩,
      .of_stream rfl (ScopeTree.grows_addVar scope r), trivial⟩
  next =>
    obtain ⟨rfl, rfl⟩ := returns_pure.1 hret
    exact ⟨hs, .refl _, trivial⟩

theorem passes_withFrame {location : Option Location} {description : String}
    (hx : ∀ s', Along s s' → Passes env s' x Q)
    (hQ : ∀ s' s'' a, Along s' s'' → Q s' a → Q s'' a) :
    Passes env s (withFrame location description x) Q := by
  intro hs a s' hr
  obtain ⟨t, ht, rfl⟩ := returns_withFrame hr
  have h₁ : Along s { s with calls := s.calls.push ⟨location, description⟩ } :=
    .of_stream rfl (.refl _)
  have h₃ : Along t { t with calls := t.calls.pop.2 } := .of_stream rfl (.refl _)
  obtain ⟨ht, h₂, ha⟩ := hx _ h₁ (hs.of_eq rfl rfl) a t ht
  exact ⟨ht.of_eq rfl rfl, (h₁.trans h₂).trans h₃, hQ t _ a h₃ ha⟩

/-- The logic of the routines that add straight code. -/
def straight (env : Env) : Logic env := FreeLogic.toLogic {
  Point := State
  state := id
  Le := Along
  Val _ _ := True
  In s scope := scope.index < s.scopes.scopes.size
  Fit := Node.Straight
  mayCall := false
  mayStore := true
  Holds := Passes env
  le_refl := .refl
  le_trans := .trans
  val_mono _ _ := trivial
  in_mono h hs := Nat.lt_of_lt_of_le hs h.scopes.size_le
  fit_used := by
    rintro node ⟨-, -, parts⟩
    exact parts
  holds_pure := passes_pure
  holds_bind := passes_bind
  holds_get := passes_quiet fun _ _ hr => by
    obtain ⟨rfl, rfl⟩ := returns_get.1 hr
    exact ⟨rfl, rfl, rfl, rfl⟩
  holds_read := passes_quiet fun _ _ hr => by
    obtain ⟨rfl, rfl⟩ := returns_read.1 hr
    exact ⟨rfl, rfl, rfl, rfl⟩
  holds_set h := passes_quiet fun _ _ hr => by
    obtain rfl := returns_set.1 hr
    exact ⟨h.stream, h.scopes, trivial⟩
  holds_scopesFrom _ := by
    intro hs t s' hr
    obtain ⟨rfl, rfl⟩ := returns_scopesFrom hr
    exact ⟨hs, .refl _, rfl, rfl, hs.scopes⟩
  holds_fail := passes_of_fails fun _ _ => not_returns_fail
  holds_throw _ := passes_of_fails fun _ _ => not_returns_throw
  holds_warnAt := passes_warnAt
  holds_emitWith _ hk _ := by
    obtain ⟨hplain, hcall⟩ := Bool.and_eq_true_iff.1 hk
    exact passes_emitWith (InstKind.isSilent_of_isPlain hplain (by simpa using hcall))
  holds_openScope hp _ := passes_openScope hp
  holds_declare? _ hr := passes_declare? hr
  holds_orDeclareFailed _ h hs a s' hr := h hs a s' hr.of_orDeclareFailed
  holds_withFrame := passes_withFrame }

/-- The routines for parts add straight code for straight expressions. -/
theorem straight_nested (levels : Nat) : (straight env).HoldsParts (nested levels) := by
  induction levels with
  | zero =>
    intro s node scope loc _ _ _
    exact Logic.holds_read_bind (L := straight env) (straight env).holds_fail
  | succ levels ih =>
    rintro s node scope loc ⟨hb, hc, parts⟩ hs hl
    exact Logic.holds_lowerExpr ih hb (by simp [hc]) parts hs hl

end Lower

end SourceIr
