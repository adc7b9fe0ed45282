import SourceIr.Proofs.Course.Nested
import SourceIr.Proofs.Upkeep.Child

/-!
# What a lowering leaves behind, and where its diagnostics are issued

However a lowering ends, it gives back what it was lent: the open evaluations, the scope where the
stream was started, and the stream itself, to whose ends things were added.  What is issued on the
way is issued at a position inside the node that is lowered, and names the evaluations that are open
there.

* `Framed`, what stays of a state, and `Course.frame`; `Course.clean`, nothing is reported by what
  returns;
* `Position`, where a lowering has got to, and `Reached`, the positions that are reached from one;
* `Position.Issues`, the diagnostics of a position, and `Course.issued`;
* `lowering_framed`, for expressions, statements, places and exits.
-/

namespace SourceIr.Lower

variable {env : Env} {ok : Bool} {l : Nat} {t : Task} {c p : ScopeId} {s s' s'' : State}

/-! ### What stays -/

/-- What a lowering leaves of a state, however it ends: lists have only grown at their ends. -/
structure Framed (s s' : State) : Prop where
  calls : s'.calls = s.calls
  streamRoot : s'.streamRoot = s.streamRoot
  name : s'.stream.name = s.stream.name
  isInline : s'.stream.isInline = s.stream.isInline
  insts : s.stream.insts.toList <+: s'.stream.insts.toList
  errors : s.stream.errors.toList <+: s'.stream.errors.toList
  warnings : s.stream.warnings.toList <+: s'.stream.warnings.toList
  children : s.stream.children <+: s'.stream.children
  scopes : s.scopes.Grows s'.scopes
  vars : s.scopes.vars.toList <+: s'.scopes.vars.toList

namespace Framed

theorem refl (s : State) : Framed s s :=
  ⟨rfl, rfl, rfl, rfl, List.prefix_rfl, List.prefix_rfl, List.prefix_rfl, List.prefix_rfl, .refl _,
    List.prefix_rfl⟩

theorem trans (h : Framed s s') (h' : Framed s' s'') : Framed s s'' where
  calls := h'.calls.trans h.calls
  streamRoot := h'.streamRoot.trans h.streamRoot
  name := h'.name.trans h.name
  isInline := h'.isInline.trans h.isInline
  insts := h.insts.trans h'.insts
  errors := h.errors.trans h'.errors
  warnings := h.warnings.trans h'.warnings
  children := h.children.trans h'.children
  scopes := h.scopes.trans h'.scopes
  vars := h.vars.trans h'.vars

theorem of_eq (hstream : s'.stream = s.stream) (hscopes : s'.scopes = s.scopes)
    (hcalls : s'.calls = s.calls) (hroot : s'.streamRoot = s.streamRoot) : Framed s s' where
  calls := hcalls
  streamRoot := hroot
  name := hstream ▸ rfl
  isInline := hstream ▸ rfl
  insts := hstream ▸ List.prefix_rfl
  errors := hstream ▸ List.prefix_rfl
  warnings := hstream ▸ List.prefix_rfl
  children := hstream ▸ List.prefix_rfl
  scopes := hscopes ▸ .refl _
  vars := hscopes ▸ List.prefix_rfl

/-- A diagnostic is recorded. -/
theorem invalidated (s : State) (m : Message) (log : Array Event) :
    Framed s { s with stream := s.stream.invalidate m, log } where
  __ := refl s
  errors := by simp [Stream.invalidate]

theorem minor (h : Minor s s') : Framed s s' where
  calls := h.calls
  streamRoot := h.streamRoot
  name := h.name
  isInline := h.isInline
  insts := h.insts
  errors := h.errors ▸ List.prefix_rfl
  warnings := h.warnings
  children := h.children ▸ List.prefix_rfl
  scopes := h.scopes ▸ .refl _
  vars := h.scopes ▸ List.prefix_rfl

theorem opening (s : State) (p : ScopeId) (kind : ScopeKind) : Framed s (s.opening p kind) where
  __ := refl s
  scopes := ScopeTree.grows_openUnder p kind
  vars := List.prefix_rfl

theorem openingSink (s : State) (p : ScopeId) (kind : ScopeKind)
    (sinks : List (ScopeId × BreakSink)) : Framed s { s.opening p kind with sinks } :=
  (opening s p kind).trans (of_eq rfl rfl rfl rfl)

theorem declaring (s : State) (p : ScopeId) (r : BindingRequest) :
    Framed s (s.declaring p r) where
  __ := refl s
  scopes := ScopeTree.grows_addVar p r
  vars := by simp [State.declaring, ScopeTree.addVar]

/-- An evaluation that was opened is closed again. -/
theorem popped {frame : SourceIr.Frame} (h : Framed { s with calls := s.calls.push frame } s') :
    Framed s { s' with calls := s'.calls.pop.2 } where
  __ := h
  calls := by simp [h.calls, CallStack.push, CallStack.pop]

/-- The stream of a compile-time block is taken in. -/
theorem around {node : Node} {frame : SourceIr.Frame}
    (h : Framed { s.inBlock node c with calls := s.calls.push frame } s') :
    Framed s ((s.opening c .comptime).around { s' with calls := s'.calls.pop.2 }) where
  calls := by simp [State.around, h.calls, CallStack.push, CallStack.pop]
  streamRoot := rfl
  name := by simp [State.around, Stream.addChild_eq, State.opening]
  isInline := by simp [State.around, Stream.addChild_eq, State.opening]
  insts := by simp [State.around, Stream.addChild_eq, State.opening]
  errors := by simp [State.around, Stream.addChild_eq, State.opening]
  warnings := by simp [State.around, Stream.addChild_eq, State.opening]
  children := by simp [State.around, Stream.addChild_eq, State.opening]
  scopes := (ScopeTree.grows_openUnder c .comptime).trans h.scopes
  vars := h.vars

end Framed

/-- Whatever a lowering does and however it ends, it leaves the call stack, the root and the stream
as they were, but for what it added. -/
theorem Course.frame (h : Course env ok l t c s s') : Framed s s' := by
  induction h with
  | refl | lost => exact .refl _
  | trans _ _ ih ih' | resume _ _ ih ih' => exact ih.trans ih'
  | minor h => exact .minor h
  | opened kind => exact .opening _ _ _
  | declared => exact .trans (.declaring _ _ _) (.of_eq rfl rfl rfl rfl)
  | marked => exact .of_eq rfl rfl rfl rfl
  | deferred => exact .trans (.opening _ _ _) (.of_eq rfl rfl rfl rfl)
  | failed | tooDeep => exact .invalidated _ _ _
  | part _ _ _ ih | args _ _ _ _ ih => exact ih
  | comptimePart _ _ _ _ ih | exitPart _ _ _ _ ih | inPlace _ _ _ _ ih =>
    exact (Framed.opening _ _ _).trans ih
  | framed _ _ _ _ ih => exact ih.popped
  | framedComptime _ _ _ _ ih => exact .trans (.opening _ _ _) (.popped ih)
  | block _ _ _ _ ih => exact ih.around
  | sink _ _ ih => exact ((Framed.openingSink _ _ _ _).trans ih).trans (.of_eq rfl rfl rfl rfl)
  | sinkLeft _ _ ih => exact (Framed.openingSink _ _ _ _).trans ih

/-! ### What returns reports nothing -/

/-- Scopes are well formed, and the sinks and deferred expressions belong to scopes that are
there. -/
structure Settled (s : State) : Prop where
  scopes : s.scopes.WellFormed
  sinks : ∀ entry ∈ s.sinks, entry.1.index < s.scopes.scopes.size
  deferred : ∀ entry ∈ s.deferred, entry.1.index < s.scopes.scopes.size

namespace Settled

theorem of_eq (hs : Settled s) (hscopes : s'.scopes = s.scopes) (hsinks : s'.sinks = s.sinks)
    (hdeferred : s'.deferred = s.deferred) : Settled s' where
  scopes := hscopes ▸ hs.scopes
  sinks := hsinks ▸ hscopes ▸ hs.sinks
  deferred := hdeferred ▸ hscopes ▸ hs.deferred

theorem opening (hs : Settled s) (hp : p.index < s.scopes.scopes.size) (kind : ScopeKind) :
    Settled (s.opening p kind) where
  scopes := hs.scopes.openUnder hp
  sinks entry h := Nat.lt_of_lt_of_le (hs.sinks entry h) (by simp [State.opening])
  deferred entry h := Nat.lt_of_lt_of_le (hs.deferred entry h) (by simp [State.opening])

theorem declaring (hs : Settled s) (p : ScopeId) (r : BindingRequest) :
    Settled (s.declaring p r) where
  scopes := hs.scopes.addVar r
  sinks := by simpa [State.declaring] using hs.sinks
  deferred := by simpa [State.declaring] using hs.deferred

/-- A sink is opened with its scope. -/
theorem openSink (hs : Settled s) (hp : p.index < s.scopes.scopes.size) (kind : ScopeKind)
    (sink : BreakSink) :
    Settled { s.opening p kind with sinks := (s.top, sink) :: s.sinks } where
  __ := hs.opening hp kind
  sinks := List.forall_mem_cons.2
    ⟨by simp [State.top, State.opening], (hs.opening hp kind).sinks⟩

/-- The scope of an expression that is deferred. -/
theorem defer (hs : Settled s) (hp : p.index < s.scopes.scopes.size) (kind : DeferKind)
    (expr : Node) :
    Settled { s.opening p (.deferred kind) with deferred := (s.top, expr) :: s.deferred } where
  __ := hs.opening hp (.deferred kind)
  deferred := List.forall_mem_cons.2
    ⟨by simp [State.top, State.opening], (hs.opening hp (.deferred kind)).deferred⟩

/-- A stream of its own starts without sinks. -/
theorem inBlock (hs : Settled s) (hp : p.index < s.scopes.scopes.size) (node : Node)
    (calls : CallStack) : Settled { s.inBlock node p with calls } where
  scopes := hs.scopes.openUnder hp
  sinks := nofun
  deferred := (hs.opening hp .comptime).deferred

theorem minor (hs : Settled s) (h : Minor s s') : Settled s' where
  scopes := h.scopes ▸ hs.scopes
  sinks entry hentry := by
    have hmem := List.mem_map_of_mem (f := Prod.fst) hentry
    rw [h.sinks.map_fst] at hmem
    obtain ⟨entry', hentry', he⟩ := List.mem_map.1 hmem
    rw [h.scopes, ← he]
    exact hs.sinks entry' hentry'
  deferred := by
    rw [h.deferred, h.scopes]
    exact hs.deferred

end Settled

theorem Course.settled (h : Course env ok l t c s s') (hs : Settled s) : Settled s' := by
  induction h with
  | refl | lost | marked | failed | tooDeep => exact hs.of_eq rfl rfl rfl
  | trans _ _ ih ih' | resume _ _ ih ih' => exact ih' (ih hs)
  | minor h => exact hs.minor h
  | opened kind hp => exact hs.opening hp kind
  | declared => exact (hs.declaring _ _).of_eq rfl rfl rfl
  | deferred _ hc => exact hs.defer hc _ _
  | part _ _ _ ih | args _ _ _ _ ih => exact ih hs
  | comptimePart _ _ hlt _ ih | exitPart _ _ hlt _ ih | inPlace _ _ hlt _ ih =>
    exact ih (hs.opening hlt _)
  | framed _ _ _ _ ih => exact (ih (hs.of_eq rfl rfl rfl)).of_eq rfl rfl rfl
  | framedComptime _ _ hlt _ ih =>
    exact (ih ((hs.opening hlt .comptime).of_eq rfl rfl rfl)).of_eq rfl rfl rfl
  | block _ _ hlt h ih =>
    have ht := ih (hs.inBlock hlt _ _)
    have hle := ((ScopeTree.grows_openUnder _ _).trans h.grows).size_le
    exact ⟨ht.scopes, fun entry he => Nat.lt_of_lt_of_le (hs.sinks entry he) hle, ht.deferred⟩
  | sink hp _ ih =>
    have ht := ih (hs.openSink hp _ _)
    exact ⟨ht.scopes, fun entry he => ht.sinks entry (List.mem_of_mem_filter he), ht.deferred⟩
  | sinkLeft hp _ ih => exact ih (hs.openSink hp _ _)

/-- A sink that was opened last is closed again. -/
theorem Flowed.closed {sinks sinks' : List (ScopeId × BreakSink)} {scope : ScopeId}
    {sink : BreakSink} (h : Flowed ((scope, sink) :: sinks) sinks')
    (hnew : ∀ entry ∈ sinks, entry.1 ≠ scope) : Flowed sinks (sinks'.filter (·.1 != scope)) := by
  cases h with
  | @cons _ y _ rest hx htail =>
    rw [List.filter_cons_of_neg (by simp [hx.1]), List.filter_eq_self.2]
    · exact htail
    · intro entry hentry
      have hmem := List.mem_map_of_mem (f := Prod.fst) hentry
      rw [Flowed.map_fst htail] at hmem
      obtain ⟨entry', hentry', he⟩ := List.mem_map.1 hmem
      simpa [he] using hnew entry' hentry'

/-- What returns has reported nothing, and the sinks that were open are open. -/
theorem Course.clean (h : Course env ok l t c s s') (hok : ok = true) (hs : Settled s) :
    s'.stream.errors = s.stream.errors ∧ Flowed s.sinks s'.sinks := by
  induction h with
  | lost | failed | tooDeep | resume | sinkLeft => cases hok
  | refl | marked | opened | declared | deferred => exact ⟨rfl, .refl _⟩
  | trans h _ ih ih' =>
    obtain ⟨he, hf⟩ := ih rfl hs
    obtain ⟨he', hf'⟩ := ih' hok (h.settled hs)
    exact ⟨he'.trans he, hf.trans hf'⟩
  | minor h => exact ⟨h.errors, h.sinks⟩
  | part _ _ _ ih | args _ _ _ _ ih => exact ih hok hs
  | comptimePart _ _ hlt _ ih | exitPart _ _ hlt _ ih | inPlace _ _ hlt _ ih =>
    exact ih hok (hs.opening hlt _)
  | framed _ _ _ _ ih => exact ih hok (hs.of_eq rfl rfl rfl)
  | framedComptime _ _ hlt _ ih =>
    exact ih hok ((hs.opening hlt .comptime).of_eq rfl rfl rfl)
  | block _ _ hlt _ ih =>
    have he := (ih hok (hs.inBlock hlt _ _)).1
    refine ⟨?_, .refl _⟩
    simp only [State.around, Stream.addChild_eq, he]
    simp [State.inBlock, State.inChild, State.opening, Stream.new]
  | sink hp _ ih =>
    obtain ⟨he, hf⟩ := ih hok (hs.openSink hp _ _)
    refine ⟨he, hf.closed fun entry hentry => ?_⟩
    intro he
    exact absurd (hs.sinks entry hentry) (by simp [he, State.top])

/-! ### Positions -/

/-- Where the lowering of a node has got to. -/
structure Position where
  /-- How many more levels of nesting are allowed. -/
  levels : Nat
  task : Task
  /-- Whether everything in the scope is evaluated at compile time. -/
  forced : Bool
  /-- Whether everything in the stream is evaluated at compile time. -/
  isInline : Bool
  /-- The open evaluations, oldest first. -/
  frames : List SourceIr.Frame

namespace Position

/-- Whether everything is evaluated at compile time. -/
def isComptime (w : Position) : Bool := w.isInline || w.forced

/-- A diagnostic that is issued at a position, on one of the nodes there: it names the open
evaluations, the most recent one first, and it is about the depth where no level is left. -/
structure Issues (env : Env) (w : Position) (m : Message) : Prop where
  place : ∃ n ∈ w.task.blamed, m.location = n.location
  frames : m.callStack = (w.frames.reverse.take env.options.callStackLimit).map fun frame =>
    ⟨frame.location, "called from here"⟩
  depth : m.kind = .recursionLimitExceeded ↔ w.levels = 0

end Position

/-- The position at a task in a scope. -/
def State.position (s : State) (l : Nat) (t : Task) (c : ScopeId) : Position :=
  ⟨l, t, s.scopes.isForcedComptime c, s.stream.isInline, s.calls.frames⟩

/-- An expression is deferred in a scope where everything is evaluated at compile time, or not. -/
def State.Defers (s : State) (expr : Node) (forced : Bool) : Prop :=
  ∃ after y, (after, expr) ∈ s.deferred ∧ s.scopes.scope? after = some y ∧
    s.scopes.isForcedComptime (y.parent.getD after) = forced

/-- The positions that are reached from one, where some expressions are deferred at the start.  A
level is spent on every expression and statement, and on nothing else; a call opens an evaluation
for its arguments if it happens at compile time, and a compile-time block does for its body unless
everything is evaluated then already. -/
inductive Reached (start : Position) (deferred : Node → Bool → Prop) : Position → Prop
  | start : Reached start deferred start
  | part {w : Position} {l : Nat} {part : Task} (h : Reached start deferred w)
    (hl : w.levels = l + 1) (hp : part ∈ w.task.parts) :
    Reached start deferred { w with levels := part.level l, task := part }
  | comptimePart {w : Position} {l : Nat} {expr : Node} (h : Reached start deferred w)
    (hl : w.levels = l + 1) (he : expr ∈ w.task.comptimeParts) :
    Reached start deferred { w with levels := l, task := .expr expr, forced := true }
  | args {w : Position} {l : Nat} {node callee : Node} {args : List Node} {modifier : CallModifier}
    (h : Reached start deferred w) (hl : w.levels = l + 1) (ht : w.task = .expr node)
    (hk : node.kind = .call callee args modifier) :
    Reached start deferred { w with
      task := .args node
      forced := w.forced || modifier = .compileTime
      frames :=
        if w.isComptime || modifier = .compileTime then
          w.frames ++ [⟨node.location, s!"call to {calleeName callee}"⟩]
        else w.frames }
  | inPlace {w : Position} {l : Nat} {node expr : Node} (h : Reached start deferred w)
    (hl : w.levels = l + 1) (ht : w.task = .expr node) (hk : node.kind = .comptime expr)
    (hc : w.isComptime = true) :
    Reached start deferred { w with levels := l, task := .expr expr, forced := true }
  | block {w : Position} {l : Nat} {node expr : Node} (h : Reached start deferred w)
    (hl : w.levels = l + 1) (ht : w.task = .expr node) (hk : node.kind = .comptime expr)
    (hc : w.isComptime = false) :
    Reached start deferred { w with
      task := .body node
      forced := true
      isInline := true
      frames := w.frames ++ [⟨node.location, "comptime block"⟩] }
  /-- An expression that was deferred at the start. -/
  | old {w : Position} {l : Nat} {node expr : Node} {forced : Bool} (h : Reached start deferred w)
    (hl : w.levels = l + 1) (ht : w.task = .exit node) (hd : deferred expr forced) :
    Reached start deferred { w with levels := l, task := .expr expr, forced }
  /-- An expression that was deferred by a statement on the way. -/
  | deferred {w w' : Position} {l : Nat} {node stmt expr : Node} {kind : DeferKind}
    (h : Reached start deferred w) (hl : w.levels = l + 1) (ht : w.task = .exit node)
    (h' : Reached start deferred w') (ht' : w'.task = .stmt stmt)
    (hk : stmt.kind = .deferred kind expr) :
    Reached start deferred { w with levels := l, task := .expr expr, forced := w'.forced }

/-! ### Where diagnostics are issued -/

section Positions

theorem State.position_eq (h : Framed s s') (hc : c.index < s.scopes.scopes.size) :
    s'.position l t c = s.position l t c := by
  simp only [position, h.scopes.isForcedComptime_eq hc, h.isInline, h.calls]

theorem State.position_inside (h : s.scopes.Inside c p) :
    s.position l t p = s.position l t c := by
  simp only [position, h.isForcedComptime_eq]

theorem State.position_opening (hp : p.index < s.scopes.scopes.size) {kind : ScopeKind}
    (hk : kind ≠ .comptime) : (s.opening p kind).position l t s.top = s.position l t p := by
  have hin : (s.opening p kind).scopes.Inside p s.top := ScopeTree.inside_opened hp hk
  rw [position_inside hin, position_eq (.opening s p kind) hp]

theorem State.position_comptime (hp : p.index < s.scopes.scopes.size) :
    (s.opening p .comptime).position l t s.top = { s.position l t p with forced := true } := by
  simp only [position, isForcedComptime_opening hp]
  rfl

theorem State.top_lt_opening (s : State) (p : ScopeId) (kind : ScopeKind) :
    s.top.index < (s.opening p kind).scopes.scopes.size := by simp [top, opening]

/-- What is deferred later in an earlier scope is deferred there. -/
theorem State.Defers.of_grows {expr : Node} {forced : Bool} (h : s'.Defers expr forced)
    (hs : Settled s) (hg : s.scopes.Grows s'.scopes) (hd : s'.deferred = s.deferred) :
    s.Defers expr forced := by
  obtain ⟨after, y', hmem, hy', rfl⟩ := h
  rw [hd] at hmem
  have hlt := hs.deferred _ hmem
  have hy : s.scopes.scope? after = some s.scopes.scopes[after.index] :=
    Array.getElem?_eq_getElem hlt
  obtain ⟨z, hz, -, hparent, -⟩ := hg after.index _ hy
  obtain rfl := Option.some.inj (hz.symm.trans hy')
  refine ⟨after, _, hmem, hy, ?_⟩
  rw [hparent, hg.isForcedComptime_eq]
  cases hp : s.scopes.scopes[after.index].parent with
  | none => exact hlt
  | some q => exact Nat.lt_trans (hs.scopes.parent _ _ hy q hp) hlt

variable {start : Position} {owed : Node → Bool → Prop}

/-- What is deferred was so at the start, or is so by a statement that is reached. -/
def Traced (start : Position) (owed : Node → Bool → Prop) (s : State) : Prop :=
  ∀ expr forced, s.Defers expr forced → owed expr forced ∨ ∃ w stmt kind,
    Reached start owed w ∧ w.task = .stmt stmt ∧ stmt.kind = .deferred kind expr ∧
      w.forced = forced

theorem Traced.of_grows (h : Traced start owed s) (hs : Settled s)
    (hg : s.scopes.Grows s'.scopes) (hd : s'.deferred = s.deferred) : Traced start owed s' :=
  fun expr forced hmem => h expr forced (hmem.of_grows hs hg hd)

theorem Traced.opening (h : Traced start owed s) (hs : Settled s) (p : ScopeId)
    (kind : ScopeKind) : Traced start owed (s.opening p kind) :=
  h.of_grows hs (ScopeTree.grows_openUnder p kind) rfl

/-- Diagnostics of some kind are recorded. -/
def Reports (P : Message → Prop) (s s' : State) : Prop :=
  ∃ new, s'.stream.errors.toList = s.stream.errors.toList ++ new ∧ ∀ m ∈ new, P m

theorem Reports.of_eq {P : Message → Prop} (h : s'.stream.errors = s.stream.errors) :
    Reports P s s' := ⟨[], by simp [h], nofun⟩

theorem Reports.trans {P : Message → Prop} (h : Reports P s s') (h' : Reports P s' s'') :
    Reports P s s'' := by
  obtain ⟨new, he, hP⟩ := h
  obtain ⟨new', he', hP'⟩ := h'
  refine ⟨new ++ new', by rw [he', he, List.append_assoc], fun m hm => ?_⟩
  exact (List.mem_append.1 hm).elim (hP m) (hP' m)

/-- The stream of a compile-time block gives its diagnostics to the one around it. -/
theorem Reports.around {P : Message → Prop} {inner : State} {name : String} {root : ScopeId}
    {calls : CallStack} (h : Reports P { s.inChild name root with calls } inner) :
    Reports P s (s.around inner) := by
  obtain ⟨new, he, hP⟩ := h
  rw [show ({ s.inChild name root with calls } : State).stream.errors.toList = [] from rfl,
    List.nil_append] at he
  refine ⟨if inner.stream.isPoisoned then new else [], ?_, fun m hm => ?_⟩
  · simp only [State.around, Stream.addChild_eq]
    split <;> simp [he]
  · split at hm
    · exact hP m hm
    · cases hm

theorem issues_recorded {w : Position} {m : Message} {n : Node} (hm : IsError m)
    (hn : n ∈ w.task.blamed) (hl : m.location = n.location) (hframes : s.calls.frames = w.frames)
    (hlevels : w.levels ≠ 0) : w.Issues env (s.recorded env.options.callStackLimit m) := by
  rw [State.recorded, if_pos hm.isFatal]
  refine ⟨⟨n, hn, hl⟩, ?_, ⟨fun hk => absurd hk hm.kind_ne, fun h => absurd h hlevels⟩⟩
  simp [Message.withCallers, hm.callStack, CallStack.mostRecentFirst, hframes]

/-- A task fails at its position. -/
theorem Fails.issues {m : Message} (h : Fails env s t c m) :
    (s.position (l + 1) t c).Issues env (s.recorded env.options.callStackLimit m) := by
  cases h with
  | undeclared ht => exact issues_recorded (isError_ofKind rfl) ht rfl rfl nofun
  | other hm hn hl => exact issues_recorded hm hn hl rfl nofun
  | @taken p r m hr h =>
    have hrefused : s.scopes.declare p r env.table = .error m := by rw [ScopeTree.declare, h]
    obtain ⟨hm, hl⟩ := isError_of_declare hrefused
    cases hname : r.name with
    | none => simp [ScopeTree.bindingError?, hname] at h
    | some name =>
      obtain ⟨n, hn, hplace⟩ := (hr name hname).exists_blamed
      exact issues_recorded hm hn (hl.trans hplace.symm) rfl nofun

theorem issues_tooDeep (ht : t.node ∈ t.blamed) :
    (s.position 0 t c).Issues env
      (s.recorded env.options.callStackLimit (tooDeep env t.node)) := by
  refine ⟨⟨t.node, ht, rfl⟩, ?_, ⟨fun _ => rfl, fun _ => rfl⟩⟩
  simp [State.recorded, tooDeep, Message.ofKind, Message.isFatal, DiagnosticKind.level,
    Level.isFatal, Message.withCallers, CallStack.mostRecentFirst, State.position]

/-- A diagnostic is issued at a position that is reached. -/
def Issued (env : Env) (start : Position) (owed : Node → Bool → Prop) (m : Message) : Prop :=
  ∃ w, Reached start owed w ∧ w.Issues env m

theorem Reports.invalidated {P : Message → Prop} {m : Message} {log : Array Event} (h : P m) :
    Reports P s { s with stream := s.stream.invalidate m, log } :=
  ⟨[m], by simp [Stream.invalidate], by simpa using h⟩

/-- Whatever is reported is issued at a position that is reached, and so it is for what is deferred
on the way. -/
theorem Course.issued (h : Course env ok l t c s s') (hs : Settled s)
    (hc : c.index < s.scopes.scopes.size) (hw : Reached start owed (s.position l t c))
    (ht : Traced start owed s) :
    Traced start owed s' ∧ Reports (Issued env start owed) s s' := by
  induction h with
  | refl | lost | marked => exact ⟨ht, .of_eq rfl⟩
  | trans h _ ih ih' | resume h _ ih ih' =>
    obtain ⟨ht', hr⟩ := ih hs hc hw ht
    have hw' := State.position_eq h.frame hc ▸ hw
    obtain ⟨ht'', hr'⟩ := ih' (h.settled hs) (Nat.lt_of_lt_of_le hc h.grows.size_le) hw' ht'
    exact ⟨ht'', hr.trans hr'⟩
  | minor h => exact ⟨ht.of_grows hs (h.scopes ▸ .refl _) h.deferred, .of_eq h.errors⟩
  | opened => exact ⟨ht.opening hs _ _, .of_eq rfl⟩
  | declared => exact ⟨ht.of_grows hs (ScopeTree.grows_addVar _ _) rfl, .of_eq rfl⟩
  | @deferred l c s node expr kind hk _ =>
    refine ⟨fun e forced he => ?_, .of_eq rfl⟩
    obtain ⟨after, y, hmem, hy, hf⟩ := he
    rcases List.mem_cons.1 hmem with he | hmem
    · obtain ⟨rfl, rfl⟩ := Prod.mk.inj he
      refine .inr ⟨_, node, kind, hw, rfl, hk, ?_⟩
      obtain rfl := Option.some.inj (hy.symm.trans (ScopeTree.scope?_openUnder c _))
      rw [← hf]
      exact ((ScopeTree.grows_openUnder c _).isForcedComptime_eq hc).symm
    · exact ht.opening hs c (.deferred kind) e forced ⟨after, y, hmem, hy, hf⟩
  | failed h => exact ⟨ht, .invalidated ⟨_, hw, h.issues⟩⟩
  | tooDeep h => exact ⟨ht, .invalidated ⟨_, hw, issues_tooDeep h⟩⟩
  | part hp hin _ ih =>
    refine ih hs (hin.lt hc) ?_ ht
    rw [State.position_inside hin]
    exact hw.part rfl hp
  | @comptimePart _ _ _ _ _ s _ _ he hin hlt _ ih =>
    refine ih (hs.opening hlt _) (s.top_lt_opening _ _) ?_ (ht.opening hs _ _)
    rw [State.position_comptime hlt, State.position_inside hin]
    exact hw.comptimePart rfl he
  | @exitPart _ l c after s _ node expr y hd hy hlt _ ih =>
    refine ih (hs.opening hlt _) (s.top_lt_opening _ _) ?_ (ht.opening hs _ _)
    rw [State.position_opening hlt (nofun : ScopeKind.deferredBody ≠ .comptime)]
    rcases ht expr _ ⟨after, y, hd, hy, rfl⟩ with h | ⟨w, stmt, kind, hr, hstmt, hk, hf⟩
    · exact hw.old rfl rfl h
    · have := hw.deferred rfl rfl hr hstmt hk
      rwa [hf] at this
  | args hk hm hcomp _ ih =>
    refine ih hs hc ?_ ht
    simpa [Position.isComptime, State.position, hm, Bool.or_eq_false_iff.1 hcomp]
      using hw.args rfl rfl hk
  | @framed _ l c s _ node callee args modifier hk hcomp hm _ ih =>
    refine ih (hs.of_eq rfl rfl rfl) hc ?_ ht
    have hforced : (s.scopes.isForcedComptime c || decide (modifier = .compileTime)) =
        s.scopes.isForcedComptime c := by
      by_cases h : modifier = .compileTime
      · simp [hm h]
      · simp [h]
    have hopen : (s.position (l + 1) (.expr node) c).isComptime = true := hcomp
    have := hw.args rfl rfl hk
    rw [hopen] at this
    simpa [State.position, CallStack.push, hforced] using this
  | @framedComptime _ l c s _ node callee args hk hf hlt _ ih =>
    refine ih ((hs.opening hlt .comptime).of_eq rfl rfl rfl) (s.top_lt_opening _ _) ?_
      (ht.opening hs _ _)
    change Reached start owed ⟨l + 1, .args node, (s.opening c .comptime).scopes.isForcedComptime
      s.top, s.stream.isInline, s.calls.frames ++ [_]⟩
    rw [isForcedComptime_opening hlt]
    simpa [State.position] using hw.args rfl rfl hk
  | @inPlace _ _ _ s _ _ _ hk hcomp hlt _ ih =>
    refine ih (hs.opening hlt _) (s.top_lt_opening _ _) ?_ (ht.opening hs _ _)
    rw [State.position_comptime hlt]
    exact hw.inPlace rfl rfl hk hcomp
  | @block _ l c s _ node _ hk hcomp hlt _ ih =>
    have hblock := ih (hs.inBlock hlt _ _) (s.top_lt_opening _ _) ?_ (ht.opening hs c .comptime)
    · exact ⟨hblock.1, hblock.2.around⟩
    change Reached start owed ⟨l + 1, .body node, (s.opening c .comptime).scopes.isForcedComptime
      s.top, true, s.calls.frames ++ [_]⟩
    rw [isForcedComptime_opening hlt]
    exact hw.block rfl rfl hk hcomp
  | @sink _ _ c p s _ kind loc hlt _ ih | @sinkLeft _ _ c p s _ kind loc hlt _ ih =>
    have hopen := Framed.openingSink s p kind ((s.top, ⟨loc, []⟩) :: s.sinks)
    refine ih (hs.openSink hlt _ _) (Nat.lt_of_lt_of_le hc hopen.scopes.size_le) ?_
      (ht.opening hs _ _)
    exact State.position_eq hopen hc ▸ hw

end Positions

/-! ### Expressions, statements, places and exits -/

/-- How a lowering from a position ends: it leaves the frame, and what it returns with reports
nothing and keeps the open sinks, while what it fails with is issued at positions that are
reached. -/
def EndsFramed {α : Type} (env : Env) (start : Position) (s : State) :
    Except Stop α × State → Prop
  | (.ok _, s') => Framed s s' ∧ Settled s' ∧ s'.stream.errors = s.stream.errors ∧
      Flowed s.sinks s'.sinks
  | (.error .poisoned, s') => Framed s s' ∧ Settled s' ∧
      Reports (Issued env start s.Defers) s s'
  | (.error (.fault _), _) => True

/-- A routine that keeps to a course leaves the frame. -/
theorem Steers.endsFramed {α : Type} {x : LowerM α} {inner : α → List ScopeId}
    (h : Steers env l t c [c] x inner) (hs : Settled s) (hlt : c.index < s.scopes.scopes.size) :
    EndsFramed env (s.position l t c) s (outcome x env s) := by
  have ho := h.ends s fun p hp => List.mem_singleton.1 hp ▸ .refl _ _
  rcases h' : outcome x env s with ⟨(_ | _) | a, s'⟩ <;> rw [h'] at ho
  · have hc : Course env false l t c s s' := ho
    exact ⟨hc.frame, hc.settled hs, (hc.issued hs hlt .start fun _ _ => .inl).2⟩
  · trivial
  · obtain ⟨hc, -⟩ := ho
    exact ⟨hc.frame, hc.settled hs, hc.clean rfl hs⟩

/-- The lowerings of a node that leave the frame, from a state on. -/
structure LowersFramed (env : Env) (levels : Nat) (node : Node) (scope : ScopeId) (s : State) :
    Prop where
  expr : ∀ loc, EndsFramed env (s.position levels (.expr node) scope) s
    (outcome ((nested levels).expr node scope loc) env s)
  statement : EndsFramed env (s.position levels (.stmt node) scope) s
    (outcome ((nested levels).statement node scope) env s)
  place : EndsFramed env (s.position (levels + 1) (.place node) scope) s
    (outcome (lowerPlace (nested levels) scope node) env s)
  exit : ∀ target path, EndsFramed env (s.position (levels + 1) (.exit node) scope) s
    (outcome (runDefers (nested levels) scope target path) env s)

/-- Whether it returns or fails, and whatever the policy is, the lowering of a node leaves the call
stack, the root and the stream as they were, but for what it added to their ends.  What it reports
names the evaluations that were open before, and those that are opened on the way to the place of
the failure. -/
theorem lowering_framed (env : Env) (levels : Nat) (node : Node) {scope : ScopeId}
    (hs : Settled s) (hscope : scope.index < s.scopes.scopes.size) :
    LowersFramed env levels node scope s := by
  have hp := tracksParts_nested env levels
  exact {
    expr := fun loc => (hp.expr node scope loc).endsFramed hs hscope
    statement := (hp.statement node scope).endsFramed hs hscope
    place := (tracks_lowerPlace hp node).endsFramed hs hscope
    exit := fun target path => (tracks_exit hp target path).endsFramed hs hscope }

/-- Scopes are all that there is at the start of a unit. -/
theorem settled_start (g : Generator) (stream : Stream) {scopes : ScopeTree} (root : ScopeId)
    (h : scopes.WellFormed) : Settled (g.start stream scopes root) := ⟨h, nofun, nofun⟩

/-- Two statements that fail, the first one in a call inside a compile-time block. -/
def failsTwice : Node :=
  .bare (.block none [
    .bare (.comptime (.bare (.call (.bare (.intLiteral 1)) [.bare (.symbol "x")] .auto))),
    .bare (.symbol "y")])

theorem lowering_framed_failsTwice :
    LowersFramed ⟨.empty "", { errorPolicy := .proceed }⟩ 5 failsTwice ⟨0⟩ Generator.bareStart ∧
      ((outcome ((nested 5).expr failsTwice ⟨0⟩ .none) ⟨.empty "", { errorPolicy := .proceed }⟩
        Generator.bareStart).2.stream.errors.toList.map fun m =>
          (m.message, m.callStack.length)) =
        [("use of undeclared identifier 'x'", 2), ("use of undeclared identifier 'y'", 0)] :=
  ⟨lowering_framed _ _ _ (settled_start _ _ _ (Generator.opened_unitScopes _ []).scopes)
    (by decide), by decide +kernel⟩

end SourceIr.Lower
