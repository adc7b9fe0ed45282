import Mathlib.Data.List.Forall2
import SourceIr.Proofs.Course.Task
import SourceIr.Proofs.Upkeep.Basic

/-!
# The course of a lowering

What a lowering does to the state is a sequence of small changes and of lowerings of parts, each at
a task and in a scope.  A lowering returns or fails, and either way its course tells what it has
done, and where.

* `ScopeTree.Inside`, one scope inside another one with no compile-time scope in between;
* `Minor`, the changes that concern neither scopes nor errors, and `Fails`, the failures of a task;
* `Course`, what happens in a lowering, with `Course.grows`: scopes only grow;
* `Course.Ends` and `Steers`, the routines that keep to a course, with the rules for putting them
  together.
-/

namespace SourceIr

namespace ScopeTree

variable {t t' : ScopeTree} {c p q : ScopeId} {kind : ScopeKind}

/-- A scope is another one or lies inside it, with no compile-time scope in between. -/
def Inside (t : ScopeTree) (c p : ScopeId) : Prop :=
  p = c ∨ c.index < t.scopes.size ∧ p.index < t.scopes.size ∧
    ∃ new, t.links p = new ++ t.links c ∧ ∀ link ∈ new, link.2 ≠ .comptime

theorem Inside.refl (t : ScopeTree) (c : ScopeId) : t.Inside c c := .inl rfl

theorem Inside.grows (h : t.Inside c p) (hg : t.Grows t') : t'.Inside c p := by
  rcases h with rfl | ⟨hc, hp, new, hl, hnew⟩
  · exact .refl t' p
  · refine .inr ⟨Nat.lt_of_lt_of_le hc hg.size_le, Nat.lt_of_lt_of_le hp hg.size_le, new, ?_, hnew⟩
    rw [hg.links_eq hp, hg.links_eq hc, hl]

theorem Inside.trans (h : t.Inside c p) (h' : t.Inside p q) : t.Inside c q := by
  rcases h' with rfl | ⟨hp, hq, new', hl', hnew'⟩
  · exact h
  rcases h with rfl | ⟨hc, -, new, hl, hnew⟩
  · exact .inr ⟨hp, hq, new', hl', hnew'⟩
  · refine .inr ⟨hc, hq, new' ++ new, by rw [hl', hl, List.append_assoc], fun link hlink => ?_⟩
    exact (List.mem_append.1 hlink).elim (hnew' link) (hnew link)

theorem Inside.lt (h : t.Inside c p) (hc : c.index < t.scopes.size) : p.index < t.scopes.size := by
  rcases h with rfl | ⟨-, hp, -⟩
  · exact hc
  · exact hp

/-- A scope that is opened for anything but compile-time evaluation. -/
theorem inside_opened (hp : p.index < t.scopes.size) (hk : kind ≠ .comptime) :
    (t.openUnder p kind).2.Inside p ⟨t.scopes.size⟩ := by
  refine .inr ⟨by simp; omega, by simp, [(⟨t.scopes.size⟩, kind)], ?_, ?_⟩
  · rw [links_openUnder hp, (grows_openUnder p kind).links_eq hp, List.singleton_append]
  · simpa using hk

/-- Nothing on the way inward asks for compile-time evaluation. -/
theorem Inside.isForcedComptime_eq (h : t.Inside c p) :
    t.isForcedComptime p = t.isForcedComptime c := by
  rcases h with rfl | ⟨-, -, new, hl, hnew⟩
  · rfl
  · have hnone : new.any (·.2 == .comptime) = false := by simpa using hnew
    rw [Lower.isForcedComptime_eq_links, Lower.isForcedComptime_eq_links, hl, List.any_append,
      hnone, Bool.false_or]

end ScopeTree

namespace Lower

variable {env : Env} {s s' s'' : State} {α β : Type}

/-! ### What happens at a task -/

/-- The sinks that are open stay open, and nothing that has flowed into them is lost. -/
def Flowed (sinks sinks' : List (ScopeId × BreakSink)) : Prop :=
  List.Forall₂ (fun x y => y.1 = x.1 ∧ y.2.resultLoc = x.2.resultLoc ∧
    x.2.incoming <+: y.2.incoming) sinks sinks'

/-- A change that concerns neither scopes, errors nor the streams inside: the stream gets
instructions, blocks and warnings at its end, and values flow into open sinks. -/
structure Minor (s s' : State) : Prop where
  scopes : s'.scopes = s.scopes
  name : s'.stream.name = s.stream.name
  isInline : s'.stream.isInline = s.stream.isInline
  insts : s.stream.insts.toList <+: s'.stream.insts.toList
  errors : s'.stream.errors = s.stream.errors
  warnings : s.stream.warnings.toList <+: s'.stream.warnings.toList
  children : s'.stream.children = s.stream.children
  calls : s'.calls = s.calls
  streamRoot : s'.streamRoot = s.streamRoot
  deferred : s'.deferred = s.deferred
  sinks : Flowed s.sinks s'.sinks
  failedVars : s'.failedVars = s.failedVars

/-- The diagnostic on a node that is nested too deeply. -/
def tooDeep (env : Env) (node : Node) : Message :=
  .ofKind .recursionLimitExceeded
    s!"expression nesting exceeds the limit of {env.options.maxDepth}" "lower_expr" node.location
    node.span

/-- The text of a diagnostic on a name that stands for nothing. -/
def undeclared (name : String) : String := s!"use of undeclared identifier '{name}'"

/-- The diagnostics that a task fails with in a scope. -/
inductive Fails (env : Env) (s : State) (t : Task) (c : ScopeId) : Message → Prop
  /-- A name stands for nothing. -/
  | undeclared {name : String} (ht : t.node ∈ t.blamed) (hk : t.node.kind = .symbol name)
    (hname : name ≠ "_") (hprimitive : isPrimitiveType name = false)
    (h : s.scopes.lookup c name env.table = none) :
    Fails env s t c (.ofKind .unresolvedName (undeclared name) "lower_symbol" t.node.location
      t.node.span)
  /-- A name that the task asks for is taken. -/
  | taken {p : ScopeId} {r : BindingRequest} {m : Message} (hr : t.Requests r)
    (h : s.scopes.bindingError? p r env.table = some m) : Fails env s t c m
  /-- The task or one of the nodes below it cannot be lowered for another reason. -/
  | other {m : Message} {n : Node} (hm : IsError m) (hn : n ∈ t.blamed)
    (hl : m.location = n.location) (hissuer : m.issuer ≠ "create_local_var")
    (hname : m.kind = .unresolvedName → ∀ name, m.message ≠ undeclared name) : Fails env s t c m

/-- What happens while a task is lowered in a scope, with so many levels of nesting left: `ok` says
whether the lowering returns or fails. -/
inductive Course (env : Env) : (ok : Bool) → Nat → Task → ScopeId → State → State → Prop
  | refl {l : Nat} {t : Task} {c : ScopeId} {s : State} : Course env true l t c s s
  | trans {ok : Bool} {l : Nat} {t : Task} {c : ScopeId} {s s' s'' : State}
    (h : Course env true l t c s s') (h' : Course env ok l t c s' s'') : Course env ok l t c s s''
  /-- Something is done after a failure. -/
  | resume {ok : Bool} {l : Nat} {t : Task} {c : ScopeId} {s s' s'' : State}
    (h : Course env false l t c s s') (h' : Course env ok l t c s' s'') :
    Course env false l t c s s''
  | minor {l : Nat} {t : Task} {c : ScopeId} {s s' : State} (h : Minor s s') :
    Course env true (l + 1) t c s s'
  | opened {l : Nat} {t : Task} {c p : ScopeId} {s : State} (kind : ScopeKind)
    (hp : p.index < s.scopes.scopes.size) : Course env true (l + 1) t c s (s.opening p kind)
  | declared {l : Nat} {t : Task} {c p : ScopeId} {s : State} {r : BindingRequest}
    {log : Array Event} (hr : t.Requests r) (hp : p.index < s.scopes.scopes.size)
    (h : s.scopes.bindingError? p r env.table = none) :
    Course env true (l + 1) t c s { s.declaring p r with log }
  /-- A variable is known to have failed. -/
  | marked {l : Nat} {t : Task} {c : ScopeId} {s : State} {var : VarId} :
    Course env true (l + 1) t c s { s with failedVars := var :: s.failedVars }
  /-- An expression is deferred. -/
  | deferred {l : Nat} {c : ScopeId} {s : State} {node expr : Node} {kind : DeferKind}
    (hk : node.kind = .deferred kind expr) (hc : c.index < s.scopes.scopes.size) :
    Course env true (l + 1) (.stmt node) c s
      { s.opening c (.deferred kind) with deferred := (s.top, expr) :: s.deferred }
  /-- A variable is used that is known to have failed. -/
  | lost {l : Nat} {t : Task} {c : ScopeId} {s : State} (h : s.failedVars ≠ []) :
    Course env false (l + 1) t c s s
  | failed {l : Nat} {t : Task} {c : ScopeId} {s : State} {m : Message} {log : Array Event}
    (h : Fails env s t c m) : Course env false (l + 1) t c s { s with
      stream := s.stream.invalidate (s.recorded env.options.callStackLimit m), log }
  /-- No level of nesting is left. -/
  | tooDeep {t : Task} {c : ScopeId} {s : State} {log : Array Event} (ht : t.node ∈ t.blamed) :
    Course env false 0 t c s { s with
      stream := s.stream.invalidate (s.recorded env.options.callStackLimit (tooDeep env t.node)),
      log }
  | part {ok : Bool} {l : Nat} {t part : Task} {c p : ScopeId} {s s' : State}
    (ht : part ∈ t.parts) (hp : s.scopes.Inside c p)
    (h : Course env ok (part.level l) part p s s') : Course env ok (l + 1) t c s s'
  /-- A part is lowered in a scope of its own, in which all is evaluated at compile time. -/
  | comptimePart {ok : Bool} {l : Nat} {t : Task} {c p : ScopeId} {s s' : State} {expr : Node}
    (he : expr ∈ t.comptimeParts) (hp : s.scopes.Inside c p) (hlt : p.index < s.scopes.scopes.size)
    (h : Course env ok l (.expr expr) s.top (s.opening p .comptime) s') :
    Course env ok (l + 1) t c s s'
  /-- A deferred expression is lowered next to the scope of what follows it. -/
  | exitPart {ok : Bool} {l : Nat} {c after : ScopeId} {s s' : State} {node expr : Node}
    {y : Scope} (hd : (after, expr) ∈ s.deferred)
    (hy : s.scopes.scope? after = some y)
    (hlt : (y.parent.getD after).index < s.scopes.scopes.size)
    (h : Course env ok l (.expr expr) s.top (s.opening (y.parent.getD after) .deferredBody) s') :
    Course env ok (l + 1) (.exit node) c s s'
  /-- The arguments of a call at run time. -/
  | args {ok : Bool} {l : Nat} {c : ScopeId} {s s' : State} {node callee : Node}
    {args : List Node} {modifier : CallModifier} (hk : node.kind = .call callee args modifier)
    (hm : modifier ≠ .compileTime) (hc : isComptimeIn s.stream s.scopes c = false)
    (h : Course env ok (l + 1) (.args node) c s s') : Course env ok (l + 1) (.expr node) c s s'
  /-- The arguments of a call at compile time, where all is evaluated then. -/
  | framed {ok : Bool} {l : Nat} {c : ScopeId} {s s' : State} {node callee : Node}
    {args : List Node} {modifier : CallModifier} (hk : node.kind = .call callee args modifier)
    (hc : isComptimeIn s.stream s.scopes c = true)
    (hm : modifier = .compileTime → s.scopes.isForcedComptime c = true)
    (h : Course env ok (l + 1) (.args node) c
      { s with calls := s.calls.push ⟨node.location, s!"call to {calleeName callee}"⟩ } s') :
    Course env ok (l + 1) (.expr node) c s { s' with calls := s'.calls.pop.2 }
  /-- The arguments of a call that asks for compile time. -/
  | framedComptime {ok : Bool} {l : Nat} {c : ScopeId} {s s' : State} {node callee : Node}
    {args : List Node} (hk : node.kind = .call callee args .compileTime)
    (hc : s.scopes.isForcedComptime c = false) (hlt : c.index < s.scopes.scopes.size)
    (h : Course env ok (l + 1) (.args node) s.top
      ({ s with calls := s.calls.push ⟨node.location, s!"call to {calleeName callee}"⟩ }.opening c
        .comptime) s') :
    Course env ok (l + 1) (.expr node) c s { s' with calls := s'.calls.pop.2 }
  /-- A compile-time block where all is evaluated at compile time. -/
  | inPlace {ok : Bool} {l : Nat} {c : ScopeId} {s s' : State} {node expr : Node}
    (hk : node.kind = .comptime expr) (hc : isComptimeIn s.stream s.scopes c = true)
    (hlt : c.index < s.scopes.scopes.size)
    (h : Course env ok l (.expr expr) s.top (s.opening c .comptime) s') :
    Course env ok (l + 1) (.expr node) c s s'
  /-- A compile-time block with a stream of its own. -/
  | block {ok : Bool} {l : Nat} {c : ScopeId} {s s' : State} {node expr : Node}
    (hk : node.kind = .comptime expr) (hc : isComptimeIn s.stream s.scopes c = false)
    (hlt : c.index < s.scopes.scopes.size)
    (h : Course env ok (l + 1) (.body node) s.top
      { s.inBlock node c with calls := s.calls.push ⟨node.location, "comptime block"⟩ } s') :
    Course env ok (l + 1) (.expr node) c s
      ((s.opening c .comptime).around { s' with calls := s'.calls.pop.2 })
  /-- A sink is opened with its scope, and closed in the end. -/
  | sink {l : Nat} {t : Task} {c p : ScopeId} {s s' : State} {kind : ScopeKind} {loc : ResultLoc}
    (hp : p.index < s.scopes.scopes.size)
    (h : Course env true (l + 1) t c
      { s.opening p kind with sinks := (s.top, ⟨loc, []⟩) :: s.sinks } s') :
    Course env true (l + 1) t c s { s' with sinks := s'.sinks.filter (·.1 != s.top) }
  /-- A sink is left open by a failure. -/
  | sinkLeft {l : Nat} {t : Task} {c p : ScopeId} {s s' : State} {kind : ScopeKind}
    {loc : ResultLoc} (hp : p.index < s.scopes.scopes.size)
    (h : Course env false (l + 1) t c
      { s.opening p kind with sinks := (s.top, ⟨loc, []⟩) :: s.sinks } s') :
    Course env false (l + 1) t c s s'

variable {ok : Bool} {l : Nat} {t : Task} {c p : ScopeId}

/-- Scopes only grow. -/
theorem Course.grows (h : Course env ok l t c s s') : s.scopes.Grows s'.scopes := by
  induction h with
  | refl | marked | lost | failed | tooDeep => exact .refl _
  | trans _ _ ih ih' | resume _ _ ih ih' => exact ih.trans ih'
  | minor h => exact h.scopes ▸ .refl _
  | opened kind | deferred => exact ScopeTree.grows_openUnder _ _
  | declared => exact ScopeTree.grows_addVar _ _
  | part _ _ _ ih | args _ _ _ _ ih | framed _ _ _ _ ih => exact ih
  | comptimePart _ _ _ _ ih | exitPart _ _ _ _ ih | framedComptime _ _ _ _ ih
  | inPlace _ _ _ _ ih | block _ _ _ _ ih | sink _ _ ih | sinkLeft _ _ ih =>
    exact (ScopeTree.grows_openUnder _ _).trans ih

/-- What opening a scope and declaring a variable keep is kept. -/
theorem Course.keeps {P : ScopeTree → Prop} (hP : ∀ t t' : ScopeTree, t.Change t' → P t → P t')
    (h : Course env ok l t c s s') (hs : P s.scopes) : P s'.scopes := by
  induction h with
  | refl | marked | lost | failed | tooDeep => exact hs
  | trans _ _ ih ih' | resume _ _ ih ih' => exact ih' (ih hs)
  | minor h => exact h.scopes ▸ hs
  | opened kind hp => exact hP _ _ (.opened kind hp) hs
  | deferred _ hc => exact hP _ _ (.opened _ hc) hs
  | declared _ hp => exact hP _ _ (.declared _ hp) hs
  | part _ _ _ ih | args _ _ _ _ ih | framed _ _ _ _ ih => exact ih hs
  | comptimePart _ _ hp _ ih | exitPart _ _ hp _ ih | framedComptime _ _ hp _ ih
  | inPlace _ _ hp _ ih | block _ _ hp _ ih | sink hp _ ih | sinkLeft hp _ ih =>
    exact ih (hP _ _ (.opened _ hp) hs)

/-! ### Routines -/

/-- How a routine ends that keeps to a course; `inner` are scopes that it returns. -/
def Course.Ends (env : Env) (l : Nat) (t : Task) (c : ScopeId) (inner : α → List ScopeId)
    (s : State) : Except Stop α × State → Prop
  | (.ok a, s') => Course env true l t c s s' ∧ ∀ p ∈ inner a, s'.scopes.Inside c p
  | (.error .poisoned, s') => Course env false l t c s s'
  | (.error (.fault _), _) => True

/-- While a task is lowered in a scope, a routine keeps to a course.  It may use the scopes `ins`
inside that one, and returns such scopes. -/
structure Steers (env : Env) (l : Nat) (t : Task) (c : ScopeId) (ins : List ScopeId) (x : LowerM α)
    (inner : α → List ScopeId) : Prop where
  ends : ∀ s, (∀ p ∈ ins, s.scopes.Inside c p) → Course.Ends env l t c inner s (outcome x env s)

/-- A routine that keeps to a course and returns no scopes. -/
abbrev Tracks (env : Env) (l : Nat) (t : Task) (c : ScopeId) (ins : List ScopeId)
    (x : LowerM α) : Prop := Steers env l t c ins x fun _ => []

variable {x : LowerM α} {f : α → LowerM β} {ins : List ScopeId} {inner : α → List ScopeId}
  {inner' : β → List ScopeId}

theorem Course.Ends.before {o : Except Stop α × State} (h : Course env true l t c s s')
    (ho : Course.Ends env l t c inner s' o) : Course.Ends env l t c inner s o := by
  obtain ⟨(_ | _) | _, _⟩ := o
  · exact .trans h ho
  · trivial
  · exact ⟨.trans h ho.1, ho.2⟩

theorem steers_pure {a : α} (h : inner a ⊆ ins) : Steers env l t c ins (pure a) inner :=
  ⟨fun _ hs => ⟨.refl, fun p hp => hs p (h hp)⟩⟩

theorem tracks_pure {a : α} : Tracks env l t c ins (pure a) := steers_pure (List.nil_subset _)

/-- One routine after another: what comes second starts where the first has led. -/
theorem Course.Ends.bindAt (ho : Course.Ends env l t c inner s (outcome x env s))
    (hf : ∀ a s', Course env true l t c s s' → (∀ p ∈ inner a, s'.scopes.Inside c p) →
      Course.Ends env l t c inner' s' (outcome (f a) env s')) :
    Course.Ends env l t c inner' s (outcome (x >>= f) env s) := by
  rw [outcome_bind]
  rcases h : outcome x env s with ⟨(_ | _) | a, s'⟩ <;> rw [h] at ho
  · exact ho
  · trivial
  · exact .before ho.1 (hf a s' ho.1 ho.2)

/-- The scopes that the first routine returns may be used by the second. -/
theorem Course.Ends.bind (ho : Course.Ends env l t c inner s (outcome x env s))
    (hs : ∀ p ∈ ins, s.scopes.Inside c p)
    (hf : ∀ a, Steers env l t c (inner a ++ ins) (f a) inner') :
    Course.Ends env l t c inner' s (outcome (x >>= f) env s) :=
  ho.bindAt fun a s' h hin => (hf a).ends s' fun p hp => (List.mem_append.1 hp).elim (hin p)
    fun hp => (hs p hp).grows h.grows

theorem steers_bind (hx : Steers env l t c ins x inner)
    (hf : ∀ a, Steers env l t c (inner a ++ ins) (f a) inner') :
    Steers env l t c ins (x >>= f) inner' := ⟨fun s hs => (hx.ends s hs).bind hs hf⟩

/-- One routine after another that returns no scopes. -/
theorem steers_then (hx : Tracks env l t c ins x) (hf : ∀ a, Steers env l t c ins (f a) inner') :
    Steers env l t c ins (x >>= f) inner' := steers_bind hx hf

theorem steers_ite {p : Prop} [Decidable p] {y : LowerM α} (hx : Steers env l t c ins x inner)
    (hy : Steers env l t c ins y inner) : Steers env l t c ins (if p then x else y) inner := by
  split
  · exact hx
  · exact hy

theorem tracks_map {g : α → β} (hx : Tracks env l t c ins x) : Tracks env l t c ins (g <$> x) := by
  rw [map_eq_pure_bind]
  exact steers_then hx fun _ => tracks_pure

/-- A routine that reads the state goes on with what it finds. -/
theorem steers_get_bind {f : State → LowerM β}
    (h : ∀ s, Steers env l t c ins (f s) inner') : Steers env l t c ins (get >>= f) inner' :=
  ⟨fun s hs => (h s).ends s hs⟩

end Lower

end SourceIr
