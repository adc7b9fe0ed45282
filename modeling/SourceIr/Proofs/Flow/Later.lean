import SourceIr.Proofs.Flow.Machine
import SourceIr.Proofs.Run
import SourceIr.Proofs.Scope.Growth

/-!
# States during a lowering

How a state changes while a part of a body is lowered: the blocks that were there are left alone,
except the one that code is added to, and what was known of scopes stays known.

* `State.here`, the place in the stream at which the lowering goes on;
* `Later`, how states change, with one lemma for each primitive step;
* `Waiting`, a block that is still to be filled; `Fed`, a sink that something has flowed into;
* `Appends.later` and those like it, what the machine does where an instruction is appended.
-/

namespace SourceIr.Lower

open SourceIr.Stream

variable {s₀ s s' s'' : State} {b : BlockId} {scope : ScopeId}

/-- The place at which the lowering goes on. -/
def State.here (s : State) : Pos :=
  ⟨s.stream.currentBlock, (s.stream.instsIn s.stream.currentBlock).length⟩

/-- The stream and the scopes of a state are in order. -/
structure Fine (s : State) : Prop where
  stream : s.stream.Coherent
  scopes : s.scopes.WellFormed

/-- A block is there, and nothing is in it yet. -/
structure Waiting (s : State) (b : BlockId) : Prop where
  lt : b.index < s.stream.blocks.size
  ne : b ≠ s.stream.currentBlock
  empty : s.stream.instsIn b = []

/-- A scope is there, and if its sink is open, something has flowed into it. -/
structure Fed (s : State) (scope : ScopeId) : Prop where
  lt : scope.index < s.scopes.scopes.size
  sink : ∀ sink, s.sinks.lookup scope = some sink → sink.incoming ≠ []

/-- One state comes after another, with a part of a body lowered in between. -/
structure Later (s s' : State) : Prop where
  fine : Fine s → Fine s'
  stream : s.stream.Grows s'.stream
  /-- The blocks that were there are left alone. -/
  others : ∀ b, b.index < s.stream.blocks.size → b ≠ s.stream.currentBlock →
    s'.stream.instsIn b = s.stream.instsIn b
  current : s'.stream.currentBlock = s.stream.currentBlock ∨
    s.stream.blocks.size ≤ s'.stream.currentBlock.index
  scopes : ∀ (i : Nat) (x : Scope), s.scopes.scopes[i]? = some x → s'.scopes.scopes[i]? = some x
  deferred : ∀ scope, scope.index < s.scopes.scopes.size →
    s'.deferred.lookup scope = s.deferred.lookup scope
  /-- The sinks that were open are open. -/
  sinks : ∀ scope, scope.index < s.scopes.scopes.size → (s.sinks.lookup scope).isSome →
    (s'.sinks.lookup scope).isSome
  fed : ∀ scope, Fed s scope → Fed s' scope

namespace Later

theorem refl (s : State) : Later s s :=
  ⟨id, .refl _, fun _ _ _ => rfl, .inl rfl, fun _ _ => id, fun _ _ => rfl, fun _ _ => id,
    fun _ => id⟩

theorem size_scopes (h : Later s s') : s.scopes.scopes.size ≤ s'.scopes.scopes.size := by
  refine Nat.le_of_not_lt fun hlt => ?_
  have := h.scopes s'.scopes.scopes.size _ (Array.getElem?_eq_getElem hlt)
  simp at this

theorem trans (h : Later s s') (h' : Later s' s'') : Later s s'' where
  fine := h'.fine ∘ h.fine
  stream := h.stream.trans h'.stream
  others b hb hne := by
    have hblocks := h.stream.blocks
    rw [h'.others b (Nat.lt_of_lt_of_le hb hblocks), h.others b hb hne]
    rintro rfl
    exact h.current.elim hne fun hle => absurd hb (by omega)
  current := by
    rcases h'.current with e | hle
    · rw [e]
      exact h.current
    · exact .inr (Nat.le_trans h.stream.blocks hle)
  scopes i x hx := h'.scopes i x (h.scopes i x hx)
  deferred scope hs := by
    rw [h'.deferred scope (Nat.lt_of_lt_of_le hs h.size_scopes), h.deferred scope hs]
  sinks scope hs ho :=
    h'.sinks scope (Nat.lt_of_lt_of_le hs h.size_scopes) (h.sinks scope hs ho)
  fed scope hf := h'.fed scope (h.fed scope hf)

theorem lt_scopes (h : Later s s') (hs : scope.index < s.scopes.scopes.size) :
    scope.index < s'.scopes.scopes.size :=
  Nat.lt_of_lt_of_le hs h.size_scopes

theorem scope? (h : Later s s') {x : Scope} (hx : s.scopes.scope? scope = some x) :
    s'.scopes.scope? scope = some x := h.scopes _ x hx

/-- A block that is waiting is left alone. -/
theorem waiting (h : Later s s') (hb : Waiting s b) : Waiting s' b where
  lt := Nat.lt_of_lt_of_le hb.lt h.stream.blocks
  ne := by
    rintro rfl
    exact h.current.elim hb.ne fun hle => absurd hb.lt (by omega)
  empty := by rw [h.others b hb.lt hb.ne, hb.empty]

/-- The chain of a scope that is there does not change. -/
theorem chain_eq (h : Later s s') (hs : Fine s) (hscope : scope.index < s.scopes.scopes.size) :
    s'.scopes.chain scope = s.scopes.chain scope := by
  obtain ⟨i⟩ := scope
  induction i using Nat.strongRecOn with
  | ind i ih =>
    have hx : s.scopes.scopes[i]? = some s.scopes.scopes[i] := Array.getElem?_eq_getElem hscope
    rw [(h.fine hs).scopes.chain_eq (h.scopes i _ hx), hs.scopes.chain_eq hx]
    cases hp : (s.scopes.scopes[i]).parent with
    | none => rfl
    | some p =>
      have hlt := hs.scopes.parent i _ hx p hp
      simp only [Option.map_some, Option.getD_some]
      rw [ih p.index hlt (Nat.lt_trans hlt hscope)]

theorem lookup_eq (h : Later s s') (hs : Fine s) (hscope : scope.index < s.scopes.scopes.size)
    (name : String) (table : DeclTable) :
    s'.scopes.lookup scope name table = s.scopes.lookup scope name table := by
  rw [ScopeTree.lookup, h.chain_eq hs hscope, ScopeTree.lookup]

theorem inDeferredBody_eq (h : Later s s') (hs : Fine s)
    (hscope : scope.index < s.scopes.scopes.size) :
    s'.scopes.inDeferredBody scope = s.scopes.inDeferredBody scope := by
  rw [ScopeTree.inDeferredBody, ScopeTree.within, h.chain_eq hs hscope, ScopeTree.inDeferredBody,
    ScopeTree.within]

end Later

/-! ### The primitive steps -/

/-- What has no part in control flow may change. -/
theorem later_of_eq (hstream : s'.stream = s.stream) (hscopes : s'.scopes = s.scopes)
    (hdeferred : s'.deferred = s.deferred) (hsinks : s'.sinks = s.sinks) : Later s s' where
  fine h := ⟨hstream ▸ h.stream, hscopes ▸ h.scopes⟩
  stream := hstream ▸ .refl _
  others := by simp [hstream]
  current := by simp [hstream]
  scopes := by simp [hscopes]
  deferred := by simp [hdeferred]
  sinks := by simp [hsinks]
  fed scope h := ⟨hscopes ▸ h.lt, hsinks ▸ h.sink⟩

/-- What has no part in scopes may change. -/
theorem later_of_stream {stream : Stream} (hf : s.stream.Coherent → stream.Coherent)
    (hg : s.stream.Grows stream)
    (ho : ∀ b, b.index < s.stream.blocks.size → b ≠ s.stream.currentBlock →
      stream.instsIn b = s.stream.instsIn b)
    (hc : stream.currentBlock = s.stream.currentBlock) :
    Later s { s with stream } where
  fine h := ⟨hf h.stream, h.scopes⟩
  stream := hg
  others := ho
  current := .inl hc
  scopes _ _ := id
  deferred _ _ := rfl
  sinks _ _ := id
  fed _ h := ⟨h.lt, h.sink⟩

theorem later_newBlock {name : String} :
    Later s { s with stream := (s.stream.newBlock name).2 } :=
  later_of_stream (·.newBlock name) grows_newBlock (fun _ _ _ => rfl) rfl

theorem waiting_newBlock (hs : Fine s) {name : String} :
    Waiting { s with stream := (s.stream.newBlock name).2 } ⟨s.stream.blocks.size⟩ where
  lt := by simp [Stream.newBlock]
  ne := by
    intro e
    have := congrArg BlockId.index e
    exact absurd hs.stream.current
      (by rw [show s.stream.currentBlock.index = _ from this.symm]; simp)
  empty := hs.stream.instsIn_eq_nil (Nat.le_refl _)

/-- A block may be gone to that was not there at the start. -/
theorem Later.goto (h : Later s₀ s) (hb : s₀.stream.blocks.size ≤ b.index)
    (hlt : b.index < s.stream.blocks.size) :
    Later s₀ { s with stream := s.stream.goto b } where
  fine hs := ⟨(h.fine hs).stream.goto hlt, (h.fine hs).scopes⟩
  stream := ⟨h.stream.inst, h.stream.blocks⟩
  others := h.others
  current := .inr hb
  scopes := h.scopes
  deferred := h.deferred
  sinks := h.sinks
  fed scope hf := ⟨(h.fed scope hf).lt, (h.fed scope hf).sink⟩

theorem Waiting.goto (h : Waiting s b) {b' : BlockId} (hne : b ≠ b') :
    Waiting { s with stream := s.stream.goto b' } b :=
  ⟨h.lt, hne, h.empty⟩

/-- The lowering goes on at the start of a block that was waiting. -/
theorem Waiting.here_goto (h : Waiting s b) :
    ({ s with stream := s.stream.goto b } : State).here = .start b := by
  change Pos.mk b (s.stream.instsIn b).length = .start b
  rw [h.empty]
  rfl

/-! ### Scopes and sinks -/

section Scopes

variable {parent : ScopeId} {kind : ScopeKind}

theorem later_openScope (hp : parent.index < s.scopes.scopes.size) :
    Later s { s with scopes := (s.scopes.openUnder parent kind).2 } where
  fine h := ⟨h.stream, h.scopes.openUnder hp⟩
  stream := .refl _
  others _ _ _ := rfl
  current := .inl rfl
  scopes i x hx := by
    have := (Array.getElem?_eq_some_iff.1 hx).1
    rw [ScopeTree.getElem?_openUnder, if_neg (by omega), hx]
  deferred _ _ := rfl
  sinks _ _ := id
  fed scope h := ⟨Nat.lt_trans h.lt (by simp), h.sink⟩

/-- What is remembered for a scope that was not there at the start is not looked for. -/
theorem Later.remember (h : Later s₀ s) (hb : s₀.scopes.scopes.size ≤ scope.index) (expr : Node) :
    Later s₀ { s with deferred := (scope, expr) :: s.deferred } where
  fine := fun hs => ⟨(h.fine hs).stream, (h.fine hs).scopes⟩
  stream := h.stream
  others := h.others
  current := h.current
  scopes := h.scopes
  deferred x hx := by
    have hne : (x == scope) = false := by
      rw [beq_eq_false_iff_ne]
      rintro rfl
      omega
    rw [List.lookup_cons, hne]
    exact h.deferred x hx
  sinks := h.sinks
  fed x hf := ⟨(h.fed x hf).lt, (h.fed x hf).sink⟩

/-- A change of the sinks that opens and closes only those of scopes that were not there at the
start, and drops nothing that has flowed into a sink. -/
theorem Later.withSinks (h : Later s₀ s) {sinks : List (ScopeId × BreakSink)}
    (ho : ∀ x, x.index < s₀.scopes.scopes.size → (s.sinks.lookup x).isSome →
      (sinks.lookup x).isSome)
    (hf : ∀ x, x.index < s₀.scopes.scopes.size → ∀ b, sinks.lookup x = some b →
      ∃ b', s.sinks.lookup x = some b' ∧ (b'.incoming ≠ [] → b.incoming ≠ [])) :
    Later s₀ { s with sinks } where
  fine := fun hs => ⟨(h.fine hs).stream, (h.fine hs).scopes⟩
  stream := h.stream
  others := h.others
  current := h.current
  scopes := h.scopes
  deferred := h.deferred
  sinks x hx hs := ho x hx (h.sinks x hx hs)
  fed x hx := by
    refine ⟨(h.fed x hx).lt, fun b hb => ?_⟩
    obtain ⟨b', hb', himp⟩ := hf x hx.lt b hb
    exact himp ((h.fed x hx).sink b' hb')

theorem Later.openSink (h : Later s₀ s) (hb : s₀.scopes.scopes.size ≤ scope.index)
    (loc : ResultLoc) : Later s₀ { s with sinks := (scope, ⟨loc, []⟩) :: s.sinks } := by
  have hne : ∀ x : ScopeId, x.index < s₀.scopes.scopes.size → (x == scope) = false := by
    intro x hx
    rw [beq_eq_false_iff_ne]
    rintro rfl
    omega
  refine h.withSinks (fun x hx hs => ?_) fun x hx b hlook => ?_
  · rw [List.lookup_cons, hne x hx]
    exact hs
  · rw [List.lookup_cons, hne x hx] at hlook
    exact ⟨b, hlook, id⟩

theorem Later.closeSink (h : Later s₀ s) (hb : s₀.scopes.scopes.size ≤ scope.index) :
    Later s₀ { s with sinks := s.sinks.filter (·.1 != scope) } := by
  have hne : ∀ x : ScopeId, x.index < s₀.scopes.scopes.size → x ≠ scope := by
    rintro x hx rfl
    omega
  refine h.withSinks (fun x hx hs => ?_) fun x hx b hlook => ?_
  · rwa [lookup_closeSink, if_neg (hne x hx)]
  · rw [lookup_closeSink, if_neg (hne x hx)] at hlook
    exact ⟨b, hlook, id⟩

theorem later_flowInto (scope : ScopeId) (block : BlockId) (value : InstId) :
    Later s { s with sinks := s.sinks.map fun entry =>
      if entry.1 = scope then (scope, entry.2.push block value) else entry } := by
  refine (Later.refl s).withSinks (fun x _ hs => ?_) fun x _ b hlook => ?_
  · rw [lookup_flowInto, Option.isSome_map]
    exact hs
  · rw [lookup_flowInto] at hlook
    obtain ⟨b', hb', rfl⟩ := Option.map_eq_some_iff.1 hlook
    refine ⟨b', hb', fun hne => ?_⟩
    split
    · simp [BreakSink.push]
    · exact hne

/-- Something has flowed into a sink. -/
theorem fed_flowInto (hs : scope.index < s.scopes.scopes.size) (block : BlockId) (value : InstId) :
    Fed { s with sinks := s.sinks.map fun entry =>
      if entry.1 = scope then (scope, entry.2.push block value) else entry } scope where
  lt := hs
  sink b hb := by
    rw [lookup_flowInto] at hb
    obtain ⟨b', -, rfl⟩ := Option.map_eq_some_iff.1 hb
    simp [BreakSink.push]

end Scopes

/-! ### Instructions -/

namespace Appends

variable {kind : InstKind}

theorem current (h : Appends kind s s') : s'.stream.currentBlock = s.stream.currentBlock := by
  obtain ⟨-, _, _, _, _, rfl⟩ := h
  rfl

theorem later (h : Appends kind s s') : Later s s' := by
  obtain ⟨hd, scope, location, force, gen, rfl⟩ := h
  refine ⟨fun hs => ⟨hs.stream.withNext hd, hs.scopes⟩, grows_withNext, fun b _ hne => ?_, .inl rfl,
    fun _ _ => id, fun _ _ => rfl, fun _ _ => id, fun _ h => ⟨h.lt, h.sink⟩⟩
  rw [State.withNext, instsIn_withNext, if_neg (Ne.symm hne)]

/-- The lowering goes on after the instruction. -/
theorem here (h : Appends kind s s') : s'.here = s.here.next := by
  obtain ⟨-, _, _, _, _, rfl⟩ := h
  simp [State.here, State.withNext, instsIn_withNext, Pos.next]

theorem isTerminated (h : Appends kind s s') (hs : Fine s) :
    s'.stream.isTerminated = kind.isNoreturn := by
  obtain ⟨-, _, _, _, _, rfl⟩ := h
  exact isTerminated_withNext hs.stream.current

/-- What refers to the instruction finds it. -/
theorem inst? (h : Appends kind s s') {F : Stream} (hF : s'.stream.Grows F) :
    (F.inst? s.stream.next).map Inst.kind = some kind := by
  obtain ⟨-, scope, location, force, gen, rfl⟩ := h
  rw [hF.inst s.stream.next _ (by rw [State.withNext, inst?_withNext]; exact if_pos rfl)]
  rfl

/-- The machine finds the instruction at its place. -/
theorem fetch? (h : Appends kind s s') {F : Stream} (hc : F.Coherent) (hF : s'.stream.Grows F) :
    (F.fetch? s.here).map Inst.kind = some kind := by
  obtain ⟨-, scope, location, force, gen, rfl⟩ := h
  obtain ⟨rest, hrest⟩ := hF.instsIn s.here.block
  rw [hc.fetch?_eq, ← hrest, State.withNext, instsIn_withNext]
  simp [State.here]

section Machine

variable {F : Stream} {tests : Nat → Bool} {w : Track}

theorem silent (h : Appends kind s s') (hc : F.Coherent) (hF : s'.stream.Grows F)
    (hk : kind.isSilent = true) : Silent F tests s.here s'.here := by
  intro w
  rw [h.here]
  exact .of_step (step_of_isSilent (h.fetch? hc hF) hk)

theorem jumps {target : BlockId} (h : Appends (.br target) s s') (hc : F.Coherent)
    (hF : s'.stream.Grows F) : Silent F tests s.here (.start target) := by
  refine fun w => .of_step ?_
  rw [step, h.fetch? hc hF]

theorem asks {cond : InstId} {thenBlock elseBlock : BlockId}
    (h : Appends (.condBr cond thenBlock elseBlock) s s') (hc : F.Coherent)
    (hF : s'.stream.Grows F) :
    Walk F tests (s.here, w) (.start (if tests w.asked then thenBlock else elseBlock), w.ask) := by
  refine .of_step ?_
  rw [step, h.fetch? hc hF]

theorem calls {callee : InstId} {args : List InstId} {modifier : CallModifier}
    {ptr : Option InstId} (h : Appends (.call callee args modifier ptr) s s') (hc : F.Coherent)
    (hF : s'.stream.Grows F) :
    Walk F tests (s.here, w) (s'.here, w.call (F.calleeName callee)) := by
  refine .of_step ?_
  rw [step, h.fetch? hc hF, h.here]

theorem halts {operand : Option InstId} (h : Appends (.ret operand) s s') (hc : F.Coherent)
    (hF : s'.stream.Grows F) : Halts F tests s.here := by
  intro w
  rw [step, h.fetch? hc hF]

end Machine

end Appends

end SourceIr.Lower
