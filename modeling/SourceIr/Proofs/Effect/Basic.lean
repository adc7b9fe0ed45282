import SourceIr.Inst.Effect
import SourceIr.Proofs.Nesting.Pending
import SourceIr.Proofs.Pass.Basic
import SourceIr.Proofs.Syntax.Regular
import SourceIr.Proofs.Upkeep.Basic

/-!
# Effects that show

Whether an expression has an effect is read off the instructions that its lowering has appended.  A
construct that has one leaves an instruction with an effect behind, or control does not get to it;
then it has been sent elsewhere before, and what sends it elsewhere counts as an effect, too.

* `Node.Acts`, the nodes that have an effect when they are evaluated;
* `Gains`, how states change in any case, and `gaining`, all routines change them in this way;
* `Acted`, an effect has been appended;
* `Shows` and `Displays`, the routines that show an effect, with the rules for how they are put
  together.
-/

namespace SourceIr

namespace Kind

/-- The constructs that have an effect themselves: calls, checks that may fail, volatile assembly
and the operators that are lowered to a branch. -/
def acts : Kind → Bool
  | call .. => true
  | builtinCall name _ => Builtin.mayHaveEffect name
  | unaryOp op _ => op == .optionalUnwrap
  | asm _ isVolatile => isVolatile
  | binaryOp op _ _ => op.isLogical
  | _ => false

/-- The parts that are evaluated with a construct, where control gets to them.  The members of a
container are not, and what is deferred to an exit on an error is not where there is none. -/
def evaluated (kind : Kind) : List Node :=
  match kind with
  | deferred .normal expr => [expr]
  | kind => if kind.branches then kind.trees else kind.used

end Kind

/-- A node that has an effect when it is evaluated, or is evaluated with a part that has one. -/
inductive Node.Acts : Node → Prop
  | self {node : Node} (h : node.kind.acts = true) : Acts node
  | part {node part : Node} (hp : part ∈ node.kind.evaluated) (h : Acts part) : Acts node

theorem Node.acts_iff {node : Node} :
    node.Acts ↔ node.kind.acts = true ∨ ∃ part ∈ node.kind.evaluated, part.Acts := by
  constructor
  · rintro (h | ⟨hp, h⟩)
    · exact .inl h
    · exact .inr ⟨_, hp, h⟩
  · rintro (h | ⟨part, hp, h⟩)
    · exact .self h
    · exact .part hp h

namespace Lower

variable {env : Env} {s s' s'' : State} {α β : Type} {x : LowerM α} {f : α → LowerM β}
  {p q : Prop} {kind : InstKind} {scope : ScopeId} {location : Option Location}

/-! ### What is gained -/

/-- Between two states the stream gains instructions, and scopes keep what was deferred in them. -/
structure Gains (s s' : State) : Prop extends Remembers s s' where
  insts : s.stream.insts.toList <+: s'.stream.insts.toList

namespace Gains

theorem refl (s : State) : Gains s s := ⟨.refl s, List.prefix_rfl⟩

theorem trans (h : Gains s s') (h' : Gains s' s'') : Gains s s'' :=
  ⟨h.toRemembers.trans h'.toRemembers, h.insts.trans h'.insts⟩

theorem of_eq (hstream : s'.stream = s.stream) (hscopes : s'.scopes = s.scopes)
    (hdeferred : s'.deferred = s.deferred) : Gains s s' :=
  ⟨.of_eq hscopes hdeferred, hstream ▸ List.prefix_rfl⟩

theorem deferring (hs : scope.index < s.scopes.scopes.size) (kind : DeferKind) (expr : Node) :
    Gains s (s.deferring scope kind expr) :=
  ⟨remembers_deferring hs, List.prefix_rfl⟩

/-- What is neither in the stream, in the scopes nor deferred may differ. -/
theorem aside {t t' : State} (h : Gains s s') (hstream : t.stream = s.stream)
    (hscopes : t.scopes = s.scopes) (hdeferred : t.deferred = s.deferred)
    (hstream' : t'.stream = s'.stream) (hscopes' : t'.scopes = s'.scopes)
    (hdeferred' : t'.deferred = s'.deferred) : Gains t t' :=
  (of_eq hstream.symm hscopes.symm hdeferred.symm).trans
    (h.trans (of_eq hstream' hscopes' hdeferred'))

/-- A stream inside the current one is taken in without its instructions. -/
theorem around {node : Node} {t : State} (hs : scope.index < s.scopes.scopes.size)
    (h : Gains (s.inBlock node scope) t) : Gains s ((s.opening scope .comptime).around t) where
  toRemembers := by
    have hopen : Small s (s.opening scope .comptime) := .of_scopes (.opened .comptime hs)
    have hin : Remembers (s.opening scope .comptime) (s.inBlock node scope) := .of_eq rfl rfl
    have hout : Remembers t ((s.opening scope .comptime).around t) := .of_eq rfl rfl
    exact (hopen.remembers.trans hin).trans (h.toRemembers.trans hout)
  insts := by
    have hinsts : (s.stream.addChild t.stream).2.insts = s.stream.insts := by
      rw [Stream.addChild_eq]
    change _ <+: (s.stream.addChild t.stream).2.insts.toList
    exact hinsts ▸ List.prefix_rfl

end Gains

theorem Small.gains (h : Small s s') : Gains s s' := ⟨h.remembers, h.insts⟩

/-- Whichever routine returns, the stream has gained what it has appended. -/
def gaining (env : Env) : Upkeep env where
  Ok := Gains
  Bad _ _ := True
  refl := .refl
  trans := .trans
  before _ _ := trivial
  small h _ := h.gains
  warn := ⟨.of_eq rfl rfl, List.prefix_rfl⟩
  defer hs := .deferring hs _ _
  invalidate := trivial
  lost _ := trivial
  after _ _ := trivial
  mark _ := trivial
  resume _ _ _ := trivial
  again _ _ _ := trivial
  framed h := h.aside rfl rfl rfl rfl rfl rfl
  framedBad _ := trivial
  evaluated hs _ _ h := (h.around hs).trans (small_withNext _ _ _ _ _).gains
  failed _ _ _ := trivial

theorem gains_of_same (h : (gaining env).comparison.Same x) {a : α} (hr : Returns x env s a s') :
    Gains s s' := by
  have h := h s
  rwa [Upkeep.Holds, hr] at h

/-! ### Effects -/

/-- An instruction with an effect was appended. -/
def Acted (s s' : State) : Prop :=
  (s'.stream.insts.toList.drop s.stream.insts.size).any (·.kind.hasSideEffects) = true

/-- The instructions that were appended between two states. -/
theorem Gains.drop_eq (h : Gains s s') (h' : Gains s' s'') :
    s''.stream.insts.toList.drop s.stream.insts.size =
      s'.stream.insts.toList.drop s.stream.insts.size ++
        s''.stream.insts.toList.drop s'.stream.insts.size := by
  obtain ⟨new, hnew⟩ := h.insts
  obtain ⟨new', hnew'⟩ := h'.insts
  have hsize : ∀ t : State, t.stream.insts.size = t.stream.insts.toList.length := fun _ => rfl
  rw [hsize s, hsize s', ← hnew', ← hnew, List.drop_left, List.append_assoc, List.drop_left,
    ← List.append_assoc, List.drop_left]

theorem Acted.gains (h : Acted s s') (hg : Gains s s') (hg' : Gains s' s'') : Acted s s'' := by
  rw [Acted, hg.drop_eq hg', List.any_append, h, Bool.true_or]

theorem Gains.acted (hg : Gains s s') (hg' : Gains s' s'') (h : Acted s' s'') : Acted s s'' := by
  rw [Acted, hg.drop_eq hg', List.any_append, h, Bool.or_true]

/-- The code between two states shows an effect that is said to be in it, unless control does not
get there.  It is gone on from if it shows none. -/
structure Shows (p : Prop) (s s' : State) : Prop where
  gains : Gains s s'
  acted : s.GoesOn → Acted s s' ∨ ¬ p ∧ s'.GoesOn

namespace Shows

theorem imp (h : Shows p s s') (hpq : q → p) : Shows q s s' :=
  ⟨h.gains, fun hs => (h.acted hs).imp id fun ⟨hp, hs'⟩ => ⟨hp ∘ hpq, hs'⟩⟩

/-- Code without an effect of its own. -/
theorem none (h : Shows p s s') : Shows False s s' := h.imp False.elim

theorem of_stream (hg : Gains s s') (h : s'.stream = s.stream) : Shows False s s' :=
  ⟨hg, fun hs => .inr ⟨id, by rwa [State.GoesOn, h]⟩⟩

theorem refl (s : State) : Shows False s s := .of_stream (.refl s) rfl

theorem trans (h : Shows p s s') (h' : Shows q s' s'') : Shows (p ∨ q) s s'' where
  gains := h.gains.trans h'.gains
  acted hs := by
    obtain ha | ⟨hp, hs'⟩ := h.acted hs
    · exact .inl (ha.gains h.gains h'.gains)
    · exact (h'.acted hs').imp (h.gains.acted h'.gains) fun ⟨hq, hs''⟩ =>
        ⟨fun hpq => hpq.elim hp hq, hs''⟩

/-- Once an effect has shown, it does not matter what comes after it. -/
theorem before (h : Shows True s s') (hg : Gains s' s'') : Shows True s s'' :=
  ⟨h.gains.trans hg, fun hs =>
    .inl (((h.acted hs).resolve_right fun h => h.1 trivial).gains h.gains hg)⟩

end Shows

/-- A routine that returns has shown an effect, if there is one. -/
def Displays (env : Env) (p : Prop) (x : LowerM α) : Prop :=
  ∀ s a s', Returns x env s a s' → Shows p s s'

theorem Displays.imp (h : Displays env p x) (hpq : q → p) : Displays env q x :=
  fun s a s' hr => (h s a s' hr).imp hpq

theorem Displays.none (h : Displays env p x) : Displays env False x := h.imp False.elim

theorem displays_pure {a : α} : Displays env False (pure a) := by
  intro s b s' hr
  rw [(returns_pure.1 hr).2]
  exact .refl s

theorem displays_of_not_returns (h : ∀ s a s', ¬ Returns x env s a s') : Displays env p x :=
  fun s a s' hr => absurd hr (h s a s')

/-- A routine that leaves the stream alone. -/
theorem displays_of_stream (hx : (gaining env).comparison.Same x)
    (h : ∀ s a s', Returns x env s a s' → s'.stream = s.stream) : Displays env False x :=
  fun s a s' hr => .of_stream (gains_of_same hx hr) (h s a s' hr)

theorem displays_bind (hx : Displays env p x) (hf : ∀ a, Displays env q (f a)) :
    Displays env (p ∨ q) (x >>= f) := by
  intro s b s' hr
  obtain ⟨a, t, ha, hb⟩ := returns_bind.1 hr
  exact (hx s a t ha).trans (hf a t b s' hb)

/-- After a routine whose effects are not asked for. -/
theorem displays_then (hx : Displays env q x) (hf : ∀ a, Displays env p (f a)) :
    Displays env p (x >>= f) := (displays_bind hx hf).imp .inr

/-- Before routines whose effects are not asked for. -/
theorem displays_before (hx : Displays env p x) (hf : ∀ a, Displays env q (f a)) :
    Displays env p (x >>= f) := (displays_bind hx hf).imp .inl

/-- Once an effect has shown, it does not matter where the code goes on. -/
theorem displays_acted (hx : Displays env True x)
    (hf : ∀ a, (gaining env).comparison.Same (f a)) : Displays env True (x >>= f) := by
  intro s b s' hr
  obtain ⟨a, t, ha, hb⟩ := returns_bind.1 hr
  exact (hx s a t ha).before (gains_of_same (hf a) hb)

theorem displays_ite {c : Prop} [Decidable c] {y : LowerM α} (hx : Displays env p x)
    (hy : Displays env p y) : Displays env p (if c then x else y) := by
  split
  · exact hx
  · exact hy

theorem displays_map {g : α → β} (hx : Displays env p x) : Displays env p (g <$> x) := by
  rw [map_eq_pure_bind]
  exact displays_before hx fun _ => displays_pure

theorem displays_get_bind {f : State → LowerM α} (h : ∀ s, Displays env p (f s)) :
    Displays env p (get >>= f) :=
  fun s a s' hr => h s s a s' (returns_get_bind.1 hr)

theorem displays_read_bind {f : Env → LowerM α} (h : Displays env p (f env)) :
    Displays env p (read >>= f) :=
  fun s a s' hr => h s a s' (returns_read_bind.1 hr)

/-- What is done where control goes on shows an effect of the whole. -/
theorem displays_unlessTerminated {f : Bool → LowerM α}
    (hx : (gaining env).comparison.Same (f true)) (h : Displays env p (f false)) :
    Displays env p (isTerminated >>= f) := by
  intro s a s' hr
  replace hr := returns_isTerminated_bind hr
  cases ht : s.stream.isTerminated with
  | true =>
    rw [ht] at hr
    exact ⟨gains_of_same hx hr, fun hs => absurd (hs.symm.trans ht) Bool.false_ne_true⟩
  | false =>
    rw [ht] at hr
    exact h s a s' hr

/-! ### Small steps -/

/-- An instruction shows its own effect. -/
theorem displays_emitWith {force gen : Bool} :
    Displays env (kind.hasSideEffects = true) (emitWith kind scope location force gen) := by
  intro s v s' hr
  have hgo : kind.hasSideEffects = false → s'.GoesOn := fun he =>
    completes_emitWith (by cases kind <;> first | rfl | cases he) _ _ hr
  obtain ⟨-, -, scope, location, force, gen, rfl⟩ := returns_emitWith hr
  refine ⟨(small_withNext ..).gains, fun _ => ?_⟩
  cases he : kind.hasSideEffects with
  | true => exact .inl (by simp [Acted, State.withNext, Stream.withNext, he])
  | false => exact .inr ⟨Bool.false_ne_true, hgo he⟩

/-- An instruction with an effect. -/
theorem displays_emitActing {force gen : Bool} (h : kind.hasSideEffects = true) :
    Displays env True (emitWith kind scope location force gen) :=
  displays_emitWith.imp fun _ => h

theorem displays_emit : Displays env False (emit kind scope location) := displays_emitWith.none

theorem displays_emitGen : Displays env False (emitGen kind scope location) :=
  displays_emitWith.none

theorem displays_emitVoid : Displays env False (emitVoid scope location) := displays_emitGen

end Lower

end SourceIr
