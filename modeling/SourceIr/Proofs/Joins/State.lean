import SourceIr.Lower.Jump
import SourceIr.Proofs.Logic.Basic
import SourceIr.Proofs.Run
import SourceIr.Proofs.Scope.Jump
import SourceIr.Proofs.Stream.Joins

/-!
# States in which values are collected

The values that arrive at a join are collected on the way, in the sink of a scope or by the routine
that made the join.  While a part of a construct is lowered, only what is collected in an open sink
grows with the branches; all other joins are left alone.

* `Joined`, what holds in the middle of a lowering;
* `Join.In`, the scopes in which code may be lowered;
* `Join.Since` and `Join.Le`, how states change;
* `Join.Open` and `Join.Sunk`, a join whose values are collected by a routine, or in a sink;
* the steps: what grows without a branch, branches, joins that are made, opened, closed and started.
-/

namespace SourceIr.Lower

open SourceIr.Stream

namespace Join

/-- The block in which a `break` to a scope ends. -/
def stop? (s : State) (scope : ScopeId) : Option BlockId :=
  (s.scopes.scope? scope).bind (breakBlock? ·.kind)

/-- What is collected in the sink of a scope arrives at a block. -/
def Feeds (s : State) (scope : ScopeId) (stop : BlockId) : Prop :=
  stop? s scope = some stop ∧ (s.sinks.lookup scope).isSome

/-- A block that is no join. -/
def Plain (s : State) (b : BlockId) : Prop :=
  b.index < s.stream.blocks.size ∧ ¬ s.stream.IsJoin b

/-- Code may be lowered in a scope: what the jumps that do not leave the stream carry is collected
in an open sink, and a loop is continued at a block that is no join. -/
structure In (s : State) (scope : ScopeId) : Prop where
  index : scope.index < s.scopes.scopes.size
  sink : ∀ x ∈ s.scopes.inside s.streamRoot scope, ∀ stop, breakBlock? x.2 = some stop →
    (s.sinks.lookup x.1).isSome
  step : ∀ x ∈ s.scopes.inside s.streamRoot scope, ∀ step, continueBlock? x.2 = some step →
    Plain s step

/-- One state comes after another, with a part of a unit lowered in between.  What the sinks do not
collect for the joins that were there is as before.  Of the joins that were made since, only those
in the list are still to be started. -/
structure Since (s₀ : State) (unstarted : List BlockId) (s : State) : Prop where
  stream : s₀.stream.Grows s.stream
  joins : ∀ b, b.index < s₀.stream.blocks.size → (s.stream.IsJoin b ↔ s₀.stream.IsJoin b)
  scopes : s₀.scopes.Grows s.scopes
  root : s.streamRoot = s₀.streamRoot
  empty : ∀ b, s₀.stream.IsJoin b → s₀.stream.instsIn b = [] → s.stream.instsIn b = []
  arrivals : ∀ b, s₀.stream.IsJoin b → (∀ scope, ¬ Feeds s₀ scope b) →
    s.stream.arrivals b = s₀.stream.arrivals b
  sinks : ∀ scope, (s₀.sinks.lookup scope).isSome → (s.sinks.lookup scope).isSome
  feeds : ∀ scope stop, Feeds s scope stop →
    Feeds s₀ scope stop ∨ s₀.stream.blocks.size ≤ stop.index
  started : ∀ b, s₀.stream.blocks.size ≤ b.index → s.stream.IsJoin b → b ∉ unstarted →
    s.stream.instsIn b ≠ []

/-- One state comes after another, and every join that was made since has been started. -/
abbrev Le (s s' : State) : Prop := Since s [] s'

/-- A join was made since a state, and what arrives there is collected by a routine. -/
structure Open (s₀ : State) (stop : BlockId) (incoming : List (BlockId × InstId)) (s : State) :
    Prop where
  since : Since s₀ [stop] s
  new : s₀.stream.blocks.size ≤ stop.index
  awaits : s.stream.Awaits stop incoming
  apart : ∀ scope, ¬ Feeds s scope stop

/-- A join was made since a state, and what arrives there is collected in the sink of a scope. -/
structure Sunk (s₀ : State) (stop : BlockId) (scope : ScopeId) (s : State) : Prop where
  since : Since s₀ [stop] s
  new : s₀.stream.blocks.size ≤ stop.index
  feeds : Feeds s scope stop
  fresh : s₀.sinks.lookup scope = none

end Join

open Join

/-- What holds in the middle of a lowering. -/
structure Joined (s : State) : Prop where
  stream : s.stream.Joining
  scopes : s.scopes.WellFormed
  root : ∃ x, s.scopes.scope? s.streamRoot = some x ∧ exits x.kind = []
  sinks : ∀ scope sink, s.sinks.lookup scope = some sink →
    ∃ stop, stop? s scope = some stop ∧ s.stream.Awaits stop sink.incoming
  /-- No two scopes have the same end. -/
  apart : ∀ a b stop, Feeds s a stop → Feeds s b stop → a = b
  children : ∀ c ∈ s.stream.children, ∀ t, PartOf t c → t.JoinsMatch

variable {s₀ s s' s'' : State} {scope : ScopeId} {stop b : BlockId} {unstarted : List BlockId}
  {incoming : List (BlockId × InstId)} {kind : InstKind}

namespace Join

/-! ### What changes with states -/

/-- The end of a scope does not change. -/
theorem stop?_grows (h : stop? s scope = some stop) (hg : s.scopes.Grows s'.scopes) :
    stop? s' scope = some stop := by
  obtain ⟨x, hx, hk⟩ := Option.bind_eq_some_iff.1 h
  obtain ⟨x', hx', -, -, hk'⟩ := hg _ x hx
  exact Option.bind_eq_some_iff.2 ⟨x', hx', by rw [hk', hk]⟩

theorem index_lt_of_stop? (h : stop? s scope = some stop) :
    scope.index < s.scopes.scopes.size := by
  obtain ⟨x, hx, -⟩ := Option.bind_eq_some_iff.1 h
  exact (Array.getElem?_eq_some_iff.1 hx).1

/-- What belongs to the sink of a scope that was there before the scopes grew. -/
theorem Feeds.of_grows (h : Feeds s' scope stop) (hs : Joined s) (hg : s.scopes.Grows s'.scopes)
    (hsinks : (s'.sinks.lookup scope).isSome → (s.sinks.lookup scope).isSome) :
    Feeds s scope stop := by
  obtain ⟨sink, hsink⟩ := Option.isSome_iff_exists.1 (hsinks h.2)
  obtain ⟨stop', hstop', -⟩ := hs.sinks scope sink hsink
  exact ⟨hstop'.trans ((stop?_grows hstop' hg).symm.trans h.1), hsinks h.2⟩

/-- An open sink collects for a join. -/
theorem Feeds.awaits (h : Feeds s scope stop) (hs : Joined s) :
    ∃ sink, s.sinks.lookup scope = some sink ∧ s.stream.Awaits stop sink.incoming := by
  obtain ⟨sink, hsink⟩ := Option.isSome_iff_exists.1 h.2
  obtain ⟨stop', hstop', hawaits⟩ := hs.sinks scope sink hsink
  obtain rfl := Option.some.inj (hstop'.symm.trans h.1)
  exact ⟨sink, hsink, hawaits⟩

namespace Since

theorem refl (s : State) : Le s s :=
  ⟨.refl _, fun _ _ => Iff.rfl, .refl _, rfl, fun _ _ => id, fun _ _ _ => rfl, fun _ => id,
    fun _ _ => .inl, fun _ hb hj => absurd hj.lt (Nat.not_lt.2 hb)⟩

theorem isJoin (h : Since s₀ unstarted s) (hb : s₀.stream.IsJoin b) : s.stream.IsJoin b :=
  (h.joins b hb.lt).2 hb

theorem le (h : Since s₀ unstarted s) (h' : Le s s') : Since s₀ unstarted s' where
  stream := h.stream.trans h'.stream
  joins b hb := (h'.joins b (Nat.lt_of_lt_of_le hb h.stream.blocks)).trans (h.joins b hb)
  scopes := h.scopes.trans h'.scopes
  root := h'.root.trans h.root
  empty b hb hnil := h'.empty b (h.isJoin hb) (h.empty b hb hnil)
  arrivals b hb hfree := by
    refine (h'.arrivals b (h.isJoin hb) fun scope hf => ?_).trans (h.arrivals b hb hfree)
    rcases h.feeds scope b hf with hf | hle
    · exact hfree scope hf
    · exact absurd hb.lt (Nat.not_lt.2 hle)
  sinks scope hsome := h'.sinks scope (h.sinks scope hsome)
  feeds scope stop hf := by
    rcases h'.feeds scope stop hf with hf | hle
    · exact h.feeds scope stop hf
    · exact .inr (Nat.le_trans h.stream.blocks hle)
  started b hb hj hmem := by
    rcases Nat.lt_or_ge b.index s.stream.blocks.size with hlt | hge
    · have hne := h.started b hb ((h'.joins b hlt).1 hj) hmem
      exact fun hnil => hne (List.prefix_nil.1 (hnil ▸ h'.stream.instsIn b))
    · exact h'.started b hge hj List.not_mem_nil

/-- All joins have been started when the last one has. -/
theorem start (h : Since s₀ [stop] s) (hne : s.stream.instsIn stop ≠ []) : Le s₀ s :=
  { h with
    started := fun b hb hj _ => by
      by_cases hbs : b = stop
      · rwa [hbs]
      · exact h.started b hb hj (by simpa using hbs) }

end Since

theorem Plain.since (h : Plain s b) (e : Since s unstarted s') : Plain s' b :=
  ⟨Nat.lt_of_lt_of_le h.1 e.stream.blocks, fun hj => h.2 ((e.joins b h.1).1 hj)⟩

theorem Feeds.since (h : Feeds s scope stop) (e : Since s unstarted s') : Feeds s' scope stop :=
  ⟨stop?_grows h.1 e.scopes, e.sinks scope h.2⟩

theorem In.since (h : In s scope) (e : Since s unstarted s') : In s' scope where
  index := Nat.lt_of_lt_of_le h.index e.scopes.size_le
  sink x hx stop hstop := by
    rw [e.root, e.scopes.inside_eq h.index] at hx
    exact e.sinks x.1 (h.sink x hx stop hstop)
  step x hx step hstep := by
    rw [e.root, e.scopes.inside_eq h.index] at hx
    exact (h.step x hx step hstep).since e

theorem Open.le (h : Open s₀ stop incoming s) (h' : Le s s') : Open s₀ stop incoming s' where
  since := h.since.le h'
  new := h.new
  awaits := ⟨h'.isJoin h.awaits.join, h'.empty stop h.awaits.join h.awaits.empty,
    h.awaits.arrivals.trans (h'.arrivals stop h.awaits.join h.apart).symm⟩
  apart scope hf := by
    rcases h'.feeds scope stop hf with hf | hle
    · exact h.apart scope hf
    · exact absurd h.awaits.join.lt (Nat.not_lt.2 hle)

theorem Sunk.le (h : Sunk s₀ stop scope s) (h' : Le s s') : Sunk s₀ stop scope s' :=
  ⟨h.since.le h', h.new, h.feeds.since h', h.fresh⟩

end Join

theorem Joined.root_lt (hs : Joined s) : s.streamRoot.index < s.scopes.scopes.size := by
  obtain ⟨x, hx, -⟩ := hs.root
  exact (Array.getElem?_eq_some_iff.1 hx).1

theorem Joined.lookup_eq_none (hs : Joined s) (h : s.scopes.scopes.size ≤ scope.index) :
    s.sinks.lookup scope = none := by
  cases hl : s.sinks.lookup scope with
  | none => rfl
  | some sink =>
    obtain ⟨stop, hstop, -⟩ := hs.sinks scope sink hl
    exact absurd (index_lt_of_stop? hstop) (Nat.not_lt.2 h)

theorem Joined.root_grows (hs : Joined s) {scopes : ScopeTree} (hg : s.scopes.Grows scopes) :
    ∃ x, scopes.scope? s.streamRoot = some x ∧ exits x.kind = [] := by
  obtain ⟨x, hx, hk⟩ := hs.root
  obtain ⟨x', hx', -, -, hk'⟩ := hg _ x hx
  exact ⟨x', hx', by rw [hk', hk]⟩

/-! ### Steps without a branch -/

/-- The scopes may grow. -/
theorem Joined.withScopes (hs : Joined s) {scopes : ScopeTree} (hg : s.scopes.Grows scopes)
    (hwf : scopes.WellFormed) : Joined { s with scopes } ∧ Le s { s with scopes } := by
  have hfeeds : ∀ x stop, Feeds { s with scopes } x stop → Feeds s x stop :=
    fun x stop h => h.of_grows hs hg id
  refine ⟨⟨hs.stream, hwf, hs.root_grows hg, fun x sink h => ?_, fun x y stop hx hy => ?_,
    hs.children⟩,
    { Since.refl s with scopes := hg, feeds := fun x stop h => .inl (hfeeds x stop h) }⟩
  · obtain ⟨stop, hstop, hawaits⟩ := hs.sinks x sink h
    exact ⟨stop, stop?_grows hstop hg, hawaits⟩
  · exact hs.apart x y stop (hfeeds x stop hx) (hfeeds y stop hy)

/-- What has no part in control flow may change. -/
theorem Joined.quiet (hs : Joined s) (h : Quiet s s') : Joined s' ∧ Le s s' := by
  obtain ⟨scopes, stream, calls, root, deferred, sinks, failedVars, nameHint, nodesMade, log⟩ := s'
  obtain ⟨rfl, rfl, rfl, rfl, rfl, rfl⟩ := h
  exact ⟨⟨hs.stream, hs.scopes, hs.root, hs.sinks, hs.apart, hs.children⟩, { Since.refl s with }⟩

/-- What is remembered for the end of a block has no part in joins. -/
theorem Joined.withDeferred (hs : Joined s) (deferred : List (ScopeId × Node)) :
    Joined { s with deferred } ∧ Le s { s with deferred } :=
  ⟨⟨hs.stream, hs.scopes, hs.root, hs.sinks, hs.apart, hs.children⟩, { Since.refl s with }⟩

/-- The stream may change if what is awaited stays. -/
theorem Joined.withStream (hs : Joined s) {stream : Stream} (hj : stream.Joining)
    (hawaits : ∀ stop incoming, s.stream.Awaits stop incoming → stream.Awaits stop incoming)
    (hchildren : stream.children = s.stream.children) : Joined { s with stream } := by
  refine ⟨hj, hs.scopes, hs.root, fun x sink h => ?_, hs.apart, fun c hc => ?_⟩
  · obtain ⟨stop, hstop, h⟩ := hs.sinks x sink h
    exact ⟨stop, hstop, hawaits stop _ h⟩
  · exact hs.children c (hchildren ▸ hc)

theorem Joined.addWarning (hs : Joined s) (m : Message) :
    Joined { s with stream := s.stream.addWarning m } ∧
      Le s { s with stream := s.stream.addWarning m } :=
  ⟨hs.withStream (hs.stream.addWarning m) (fun _ _ h => ⟨h.join, h.empty, h.arrivals⟩) rfl,
    { Since.refl s with stream := ⟨fun _ _ => id, Nat.le_refl _⟩ }⟩

/-- The lowering may go on in any block that is no join. -/
theorem Joined.goto (hs : Joined s) (hb : Plain s b) :
    Joined { s with stream := s.stream.goto b } ∧ Le s { s with stream := s.stream.goto b } :=
  ⟨hs.withStream (hs.stream.goto hb.1 hb.2) (fun _ _ h => ⟨h.join, h.empty, h.arrivals⟩) rfl,
    { Since.refl s with stream := ⟨fun _ _ => id, Nat.le_refl _⟩ }⟩

/-- A scope without jumps of its own may be used like its parent. -/
theorem Join.In.openUnder (hs : Joined s) (h : In s scope) {kind : ScopeKind}
    (hk : exits kind = []) :
    In { s with scopes := (s.scopes.openUnder scope kind).2 } ⟨s.scopes.scopes.size⟩ := by
  have hin := ScopeTree.inside_openUnder h.index hs.root_lt kind
  refine ⟨by simp, fun x hx stop hstop => ?_, fun x hx step hstep => ?_⟩
  · rcases List.mem_cons.1 (hin ▸ hx) with rfl | hx
    · cases kind <;> simp_all [exits, breakBlock?]
    · exact h.sink x hx stop hstop
  · rcases List.mem_cons.1 (hin ▸ hx) with rfl | hx
    · cases kind <;> simp_all [exits, continueBlock?]
    · exact h.step x hx step hstep

/-! ### Blocks that are made -/

theorem Join.Since.newBlock (s : State) (name : String) :
    Since s [⟨s.stream.blocks.size⟩] { s with stream := (s.stream.newBlock name).2 } where
  stream := grows_newBlock
  joins _ hb := isJoin_newBlock hb
  scopes := .refl _
  root := rfl
  empty _ _ := id
  arrivals _ _ _ := rfl
  sinks _ := id
  feeds _ _ := .inl
  started b hb hj hmem := by
    have hlt : b.index < s.stream.blocks.size + 1 := by simpa [Stream.newBlock] using hj.lt
    have hne : b.index ≠ s.stream.blocks.size := fun h => hmem (by simp [← h])
    omega

theorem Joined.newBlock (hs : Joined s) (name : String) :
    Joined { s with stream := (s.stream.newBlock name).2 } :=
  hs.withStream (hs.stream.newBlock name) (fun _ _ h => h.newBlock name) rfl

theorem Join.le_newBlock (s : State) {name : String}
    (hname : isJoinName name = false) :
    Le s { s with stream := (s.stream.newBlock name).2 } ∧
      Plain { s with stream := (s.stream.newBlock name).2 } ⟨s.stream.blocks.size⟩ := by
  have hj : ¬ (s.stream.newBlock name).2.IsJoin ⟨s.stream.blocks.size⟩ := fun hj => by
    rw [isJoin_newBlock_self, hname] at hj
    cases hj
  refine ⟨{ Since.newBlock s name with started := fun b hb hjoin _ => ?_ },
    by simp [Stream.newBlock], hj⟩
  refine (Since.newBlock s name).started b hb hjoin fun hmem => hj ?_
  rwa [← List.mem_singleton.1 hmem]

theorem Joined.newJoin (hs : Joined s) {name : String}
    (hname : isJoinName name) :
    Open s ⟨s.stream.blocks.size⟩ [] { s with stream := (s.stream.newBlock name).2 } where
  since := .newBlock s name
  new := Nat.le_refl _
  awaits := hs.stream.awaits_newBlock hname
  apart scope hf := by
    have hf : Feeds s scope ⟨s.stream.blocks.size⟩ := hf
    obtain ⟨sink, -, hawaits⟩ := hf.awaits hs
    exact absurd hawaits.join.lt (Nat.lt_irrefl _)

/-! ### Instructions -/

/-- An instruction may be appended that leads to joins only that were made since or that have a
sink. -/
theorem Join.Since.append (h : Since s₀ unstarted s) (ha : Appends kind s s')
    (hcurrent : s₀.stream.IsJoin s.stream.currentBlock →
      s.stream.instsIn s.stream.currentBlock ≠ [])
    (ht : ∀ t ∈ kind.targets, s₀.stream.IsJoin t → ∃ scope, Feeds s₀ scope t) :
    Since s₀ unstarted s' := by
  obtain ⟨-, scope, location, force, gen, rfl⟩ := ha
  refine ⟨h.stream.trans grows_withNext, fun b hb => isJoin_withNext.trans (h.joins b hb), h.scopes,
    h.root, fun b hb hnil => ?_, fun b hb hfree => ?_, h.sinks, h.feeds, fun b hb hj hmem => ?_⟩
  · have hnil := h.empty b hb hnil
    rw [State.withNext, instsIn_withNext, if_neg, hnil]
    rintro rfl
    exact hcurrent hb hnil
  · rw [← h.arrivals b hb hfree]
    refine arrivals_withNext_of_notMem fun hmem => ?_
    obtain ⟨x, hx⟩ := ht b hmem hb
    exact hfree x hx
  · have hne := h.started b hb (isJoin_withNext.1 hj) hmem
    exact fun hnil => hne (List.prefix_nil.1 (hnil ▸ grows_withNext.instsIn b))

/-- Where the lowering goes on, an instruction may be appended that joins no values, if all sinks
collect for their joins afterwards. -/
theorem Joined.append (hs : Joined s) {l : List (ScopeId × BreakSink)}
    (ha : Appends kind { s with sinks := l } s') (hphi : kind.isPhi = false)
    (ht : ∀ t ∈ kind.targets, t.index < s.stream.blocks.size ∧
      (s.stream.IsJoin t → s.stream.instsIn t = []))
    (hopen : ∀ x, (l.lookup x).isSome → (s.sinks.lookup x).isSome)
    (hsinks : ∀ x sink, l.lookup x = some sink →
      ∃ stop, stop? s x = some stop ∧ s'.stream.Awaits stop sink.incoming) : Joined s' := by
  obtain ⟨hd, scope, location, force, gen, rfl⟩ := ha
  exact ⟨hs.stream.withNext hd hphi ht, hs.scopes, hs.root, hsinks,
    fun x y stop hx hy => hs.apart x y stop ⟨hx.1, hopen x hx.2⟩ ⟨hy.1, hopen y hy.2⟩, hs.children⟩

/-- The values of a sink to whose join no branch leads stay those that are collected. -/
theorem Join.awaits_append (hs : Joined s) (h : s.stream.Awaits stop incoming)
    {l : List (ScopeId × BreakSink)} (ha : Appends kind { s with sinks := l } s')
    (hstop : stop ∉ kind.targets) : s'.stream.Awaits stop incoming := by
  obtain ⟨-, scope, location, force, gen, rfl⟩ := ha
  exact h.withNext_of_notMem (h.ne_current hs.stream) hstop

/-- A branch to a join brings a value from the current block. -/
theorem Join.awaits_arrive (hs : Joined s) (h : s.stream.Awaits stop incoming)
    {l : List (ScopeId × BreakSink)} (ha : Appends kind { s with sinks := l } s')
    (hstop : stop ∈ kind.targets) (value : InstId) :
    s'.stream.Awaits stop (incoming ++ [(s.stream.currentBlock, value)]) := by
  obtain ⟨-, scope, location, force, gen, rfl⟩ := ha
  exact h.withNext_of_mem (h.ne_current hs.stream) hstop value

/-- The lowering does not go on in a join that has not been started. -/
theorem Joined.current (hs : Joined s) (h : Since s₀ unstarted s)
    (hj : s₀.stream.IsJoin s.stream.currentBlock) :
    s.stream.instsIn s.stream.currentBlock ≠ [] :=
  hs.stream.current (h.isJoin hj)

/-- An instruction that leads to no join. -/
theorem Joined.appendPlain (hs : Joined s) (ha : Appends kind s s') (hphi : kind.isPhi = false)
    (ht : ∀ t ∈ kind.targets, Plain s t) : Joined s' ∧ Le s s' := by
  refine ⟨hs.append (l := s.sinks) ha hphi
    (fun t h => ⟨(ht t h).1, fun hj => absurd hj (ht t h).2⟩) (fun _ => id)
    fun x sink hx => ?_, (Since.refl s).append ha (hs.current (.refl s))
    fun t h hj => absurd hj (ht t h).2⟩
  obtain ⟨stop, hstop, hawaits⟩ := hs.sinks x sink hx
  exact ⟨stop, hstop, awaits_append hs hawaits (l := s.sinks) ha
    fun h => (ht stop h).2 hawaits.join⟩

/-- An instruction that leads to a join whose values are collected by a routine. -/
theorem Joined.appendOpen (hs : Joined s) (o : Open s₀ stop incoming s) (ha : Appends kind s s')
    (hphi : kind.isPhi = false) (hmem : stop ∈ kind.targets)
    (ht : ∀ t ∈ kind.targets, t ≠ stop → Plain s t) (value : InstId) :
    Joined s' ∧ Open s₀ stop (incoming ++ [(s.stream.currentBlock, value)]) s' := by
  have hawaits := o.awaits
  refine ⟨hs.append (l := s.sinks) ha hphi (fun t h => ?_) (fun _ => id) fun x sink hx => ?_,
    ?_, o.new, awaits_arrive hs hawaits (l := s.sinks) ha hmem value, ?_⟩
  · by_cases hts : t = stop
    · exact hts ▸ ⟨hawaits.join.lt, fun _ => hawaits.empty⟩
    · exact ⟨(ht t h hts).1, fun hj => absurd hj (ht t h hts).2⟩
  · obtain ⟨end', hend, haw⟩ := hs.sinks x sink hx
    refine ⟨end', hend, awaits_append hs haw (l := s.sinks) ha fun h => ?_⟩
    by_cases hes : end' = stop
    · exact o.apart x ⟨hes ▸ hend, by simp [hx]⟩
    · exact (ht end' h hes).2 haw.join
  · refine o.since.append ha (hs.current o.since) fun t h hj => ?_
    by_cases hts : t = stop
    · exact absurd hj.lt (Nat.not_lt.2 (hts ▸ o.new))
    · exact absurd (o.since.isJoin hj) (ht t h hts).2
  · obtain ⟨-, _, _, _, _, rfl⟩ := ha
    exact o.apart

/-- A branch to the end of a scope whose sink has taken the value that it brings. -/
theorem Joined.appendSunk (hs : Joined s) (h : Feeds s scope stop) (value : InstId)
    (ha : Appends (.br stop)
      { s with sinks := s.sinks.map fun entry => if entry.1 = scope then
          (scope, entry.2.push s.stream.currentBlock value) else entry } s') :
    Joined s' ∧ Le s s' := by
  obtain ⟨sink₀, hsink₀, hawaits₀⟩ := h.awaits hs
  have hopen : ∀ x, ((s.sinks.map fun entry : ScopeId × BreakSink => if entry.1 = scope then
      (scope, entry.2.push s.stream.currentBlock value) else entry).lookup x).isSome ↔
      (s.sinks.lookup x).isSome := fun x => by rw [lookup_flowInto, Option.isSome_map]
  have htargets : ∀ t ∈ (InstKind.br stop).targets, t = stop := fun t => List.mem_singleton.1
  refine ⟨hs.append ha rfl (fun t ht => ?_) (fun x => (hopen x).1) fun x sink hx => ?_, ?_⟩
  · exact htargets t ht ▸ ⟨hawaits₀.join.lt, fun _ => hawaits₀.empty⟩
  · rw [lookup_flowInto] at hx
    obtain ⟨old, hold, rfl⟩ := Option.map_eq_some_iff.1 hx
    by_cases hxs : x = scope
    · subst hxs
      obtain rfl := Option.some.inj (hold.symm.trans hsink₀)
      rw [if_pos rfl]
      exact ⟨stop, h.1, awaits_arrive hs hawaits₀ ha (by simp [InstKind.targets]) value⟩
    · rw [if_neg hxs]
      obtain ⟨end', hend, haw⟩ := hs.sinks x old hold
      refine ⟨end', hend, awaits_append hs haw ha fun ht => hxs ?_⟩
      exact hs.apart x scope stop ⟨htargets end' ht ▸ hend, by simp [hold]⟩ h
  · have hpush : Le s { s with sinks := s.sinks.map fun entry => if entry.1 = scope then
        (scope, entry.2.push s.stream.currentBlock value) else entry } :=
      { Since.refl s with
        sinks := fun x => (hopen x).2
        feeds := fun x _ hx => .inl ⟨hx.1, (hopen x).1 hx.2⟩ }
    exact hpush.append ha (hs.current (.refl s)) fun t ht _ => ⟨scope, htargets t ht ▸ h⟩

/-- A join is started with the values that have been collected for it. -/
theorem Joined.start (hs : Joined s) (o : Open s₀ stop incoming s)
    (ha : Appends kind { s with stream := s.stream.goto stop } s')
    (hk : Starts kind (s.stream.arrivals stop)) : Joined s' ∧ Le s₀ s' := by
  have hstream : Since s₀ [stop] { s with stream := s.stream.goto stop } :=
    { o.since with stream := ⟨o.since.stream.inst, o.since.stream.blocks⟩ }
  have hnil : kind.targets = [] := hk.targets_eq
  have hsince := hstream.append ha (fun hj => absurd hj.lt (Nat.not_lt.2 o.new)) (by simp [hnil])
  obtain ⟨hd, scope, location, force, gen, rfl⟩ := ha
  refine ⟨⟨hs.stream.start o.awaits.join o.awaits.empty hd hk, hs.scopes, hs.root,
    fun x sink hx => ?_, hs.apart, hs.children⟩, hsince.start ?_⟩
  · obtain ⟨end', hend, haw⟩ := hs.sinks x sink hx
    have hgoto : (s.stream.goto stop).Awaits end' sink.incoming :=
      ⟨haw.join, haw.empty, haw.arrivals⟩
    refine ⟨end', hend, hgoto.withNext_of_notMem ?_ (by simp [hnil])⟩
    rintro rfl
    exact o.apart x ⟨hend, Option.isSome_iff_exists.2 ⟨sink, hx⟩⟩
  · simp [State.withNext, instsIn_withNext, Stream.goto]

/-! ### Sinks -/

/-- A scope is opened whose sink collects what arrives at a join. -/
theorem Joined.withTarget (hs : Joined s) (o : Open s₀ stop [] s) {kind : ScopeKind}
    (hscope : In s scope) (hstop : breakBlock? kind = some stop)
    (hstep : ∀ step, continueBlock? kind = some step → Plain s step) (loc : ResultLoc) :
    let s' : State := { s with
      scopes := (s.scopes.openUnder scope kind).2
      sinks := (⟨s.scopes.scopes.size⟩, ⟨loc, []⟩) :: s.sinks }
    Joined s' ∧ Sunk s₀ stop ⟨s.scopes.scopes.size⟩ s' ∧ In s' ⟨s.scopes.scopes.size⟩ := by
  intro s'
  have hg := ScopeTree.grows_openUnder (t := s.scopes) scope kind
  have hnone : s.sinks.lookup ⟨s.scopes.scopes.size⟩ = none := hs.lookup_eq_none (Nat.le_refl _)
  have hself : Feeds s' ⟨s.scopes.scopes.size⟩ stop := by
    refine ⟨?_, by simp [s']⟩
    rw [stop?, ScopeTree.scope?_openUnder]
    exact hstop
  have hother : ∀ x, x ≠ ⟨s.scopes.scopes.size⟩ → s'.sinks.lookup x = s.sinks.lookup x :=
    fun x hx => by simp only [s', List.lookup_cons, beq_eq_false_iff_ne.2 hx]
  have hopen : ∀ x, (s.sinks.lookup x).isSome → (s'.sinks.lookup x).isSome := fun x h => by
    rwa [hother x fun hx => by simp [hx, hnone] at h]
  have hfeeds : ∀ x end', Feeds s' x end' →
      Feeds s x end' ∨ x = ⟨s.scopes.scopes.size⟩ ∧ end' = stop := fun x end' h => by
    by_cases hx : x = ⟨s.scopes.scopes.size⟩
    · subst hx
      exact .inr ⟨rfl, Option.some.inj (h.1.symm.trans hself.1)⟩
    · exact .inl (h.of_grows hs hg (by rw [hother x hx]; exact id))
  refine ⟨⟨hs.stream, hs.scopes.openUnder hscope.index, hs.root_grows hg, fun x sink h => ?_,
    fun x y end' hx hy => ?_, hs.children⟩, ⟨{ o.since with
      scopes := o.since.scopes.trans hg
      sinks := fun x h => hopen x (o.since.sinks x h)
      feeds := fun x end' h => ?_ }, o.new, hself, ?_⟩, ?_⟩
  · by_cases hx : x = ⟨s.scopes.scopes.size⟩
    · subst hx
      obtain rfl : (⟨loc, []⟩ : BreakSink) = sink := by simpa [s'] using h
      exact ⟨stop, hself.1, o.awaits⟩
    · rw [hother x hx] at h
      obtain ⟨end', hend, hawaits⟩ := hs.sinks x sink h
      exact ⟨end', stop?_grows hend hg, hawaits⟩
  · rcases hfeeds x end' hx with hx | ⟨hx, hex⟩ <;> rcases hfeeds y end' hy with hy | ⟨hy, hey⟩
    · exact hs.apart x y end' hx hy
    · exact absurd (hey ▸ hx) (o.apart x)
    · exact absurd (hex ▸ hy) (o.apart y)
    · exact hx.trans hy.symm
  · rcases hfeeds x end' h with h | ⟨-, rfl⟩
    · exact o.since.feeds x end' h
    · exact .inr o.new
  · cases h : s₀.sinks.lookup ⟨s.scopes.scopes.size⟩ with
    | none => rfl
    | some sink =>
      have := o.since.sinks _ (by rw [h]; rfl)
      simp [hnone] at this
  · have hin := ScopeTree.inside_openUnder hscope.index hs.root_lt kind
    refine ⟨by simp [s'], fun x hx end' hend => ?_, fun x hx step h => ?_⟩
    · rcases List.mem_cons.1 (hin ▸ hx) with rfl | hx
      · exact hself.2
      · exact hopen x.1 (hscope.sink x hx end' hend)
    · rcases List.mem_cons.1 (hin ▸ hx) with rfl | hx
      · exact hstep step h
      · exact hscope.step x hx step h

/-- The sink of a scope is closed, and a routine takes over what was collected. -/
theorem Joined.closeSink (hs : Joined s) (h : Sunk s₀ stop scope s) :
    let s' : State := { s with sinks := s.sinks.filter (·.1 != scope) }
    Joined s' ∧ Open s₀ stop (((s.sinks.lookup scope).map (·.incoming)).getD []) s' := by
  intro s'
  obtain ⟨sink, hsink, hawaits⟩ := h.feeds.awaits hs
  have hlookup : ∀ x, s'.sinks.lookup x = if x = scope then none else s.sinks.lookup x :=
    fun x => lookup_closeSink
  have hopen : ∀ x, (s'.sinks.lookup x).isSome → (s.sinks.lookup x).isSome ∧ x ≠ scope := by
    intro x hx
    rw [hlookup] at hx
    split at hx
    · cases hx
    · exact ⟨hx, ‹_›⟩
  refine ⟨⟨hs.stream, hs.scopes, hs.root, fun x sink hx => ?_, fun x y end' hx hy => ?_,
    hs.children⟩, { h.since with
      sinks := fun x hx => ?_
      feeds := fun x end' hx => h.since.feeds x end' ⟨hx.1, (hopen x hx.2).1⟩ }, h.new, ?_,
    fun x hx => ?_⟩
  · rw [hlookup] at hx
    split at hx
    · cases hx
    · exact hs.sinks x sink hx
  · exact hs.apart x y end' ⟨hx.1, (hopen x hx.2).1⟩ ⟨hy.1, (hopen y hy.2).1⟩
  · rw [hlookup, if_neg]
    · exact h.since.sinks x hx
    · rintro rfl
      simp [h.fresh] at hx
  · rw [hsink]
    exact hawaits
  · exact (hopen x hx.2).2 (hs.apart x scope stop ⟨hx.1, (hopen x hx.2).1⟩ h.feeds)

/-! ### Streams inside streams -/

/-- Once every join has been started, a stream and all streams inside match their branches. -/
theorem Joined.joinsMatch (hs : Joined s) (h : ∀ b, s.stream.IsJoin b → s.stream.instsIn b ≠ [])
    {t : Stream} (ht : PartOf t s.stream) : t.JoinsMatch := by
  cases ht with
  | self => exact hs.stream.joinsMatch h
  | child hc ht => exact hs.children _ hc t ht

/-- The state at the start of a stream. -/
theorem joined_start {name : String} {isInline : Bool} (hstream : s.stream = .new name isInline)
    (hsinks : s.sinks = []) (hscopes : s.scopes.WellFormed)
    (hroot : ∃ x, s.scopes.scope? s.streamRoot = some x ∧ exits x.kind = []) : Joined s where
  stream := hstream ▸ joining_new name isInline
  scopes := hscopes
  root := hroot
  sinks := by simp [hsinks]
  apart _ _ _ h := by simp [Feeds, hsinks] at h
  children := by simp [hstream, Stream.new]

/-- At the end of a stream all joins that it has are started. -/
theorem Join.Since.started_of_new {name : String} {isInline : Bool} (h : Le s s')
    (hstream : s.stream = .new name isInline) (hb : s'.stream.IsJoin b) :
    s'.stream.instsIn b ≠ [] := by
  rcases Nat.lt_or_ge b.index s.stream.blocks.size with hlt | hge
  · obtain ⟨k, hk, hj⟩ := (h.joins b hlt).1 hb
    rw [hstream] at hk hlt
    obtain rfl : b = .entry := by
      cases b
      simpa [Stream.new, BlockId.entry] using hlt
    obtain rfl : (⟨.entry, "entry", #[]⟩ : BasicBlock) = k := Option.some.inj hk
    exact absurd hj (by decide)
  · exact h.started b hge hb List.not_mem_nil

/-- A stream that matches its branches becomes a child. -/
theorem Joined.withChild (hs : Joined s) {inner : State} (hg : s.scopes.Grows inner.scopes)
    (hwf : inner.scopes.WellFormed) (hchild : ∀ t, PartOf t inner.stream → t.JoinsMatch) :
    Joined (s.around inner) ∧ Le s (s.around inner) := by
  have hstream := hs.stream.addChild inner.stream
  obtain ⟨h, le⟩ := hs.withScopes hg hwf
  rw [State.around]
  rw [addChild_eq] at hstream ⊢
  refine ⟨⟨hstream, hwf, h.root, fun x sink hx => ?_, h.apart, fun c hc t ht => ?_⟩,
    { le with stream := ⟨fun _ _ => id, Nat.le_refl _⟩ }⟩
  · obtain ⟨stop, hstop, hawaits⟩ := h.sinks x sink hx
    exact ⟨stop, hstop, hawaits.join, hawaits.empty, hawaits.arrivals⟩
  rcases List.mem_append.1 hc with hc | hc
  · exact hs.children c hc t ht
  · rw [List.mem_singleton.1 hc] at ht
    exact hchild t ht

end SourceIr.Lower
