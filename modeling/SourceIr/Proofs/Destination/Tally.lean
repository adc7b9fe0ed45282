import Mathlib.Data.Set.Insert
import Mathlib.Logic.Function.Basic
import SourceIr.Proofs.Destination.Value
import SourceIr.Proofs.Scope.Exit
import SourceIr.Proofs.Trim.Control

/-!
# Counting writes during a lowering

In the middle of a lowering, every block has the counts with which control may get to it; the code
that is added keeps to them.  A routine starts with the counts at the end of the code so far, and it
ends with others: those of the pointer that it was told to write to.

* `Probe`, the storage that is watched, and `Tally`, a state with the counts of its blocks;
* `Tally.Sound`, what holds in the middle of a lowering;
* `Tally.Since` and `Tally.Le`, how tallies change, and `Tally.Reserved`, the blocks still to be
  filled;
* `Tally.In`, the scopes in which code may be lowered, and `Tally.Dest`, the locations to which an
  expression may be brought;
* `Tally.Sound.withNext` and the like, the steps of a lowering;
* `Tally.Sound.writesOnce`, what a lowering that is sound whatever is watched says of its streams.
-/

namespace SourceIr.Lower

open SourceIr.Stream

/-- The storage that is watched.  With `strict`, it counts only where the initializers that may be
meant for it have a value on every path. -/
structure Probe where
  root : Node
  ptr : InstId
  strict : Prop

namespace Probe

variable (k : Probe)

/-- The counts with which control should get to the declaration of the variable. -/
def ok : Set Nat := {n | n ≤ 1 ∧ (k.strict → n = 1)}

/-- An instruction makes storage that is watched. -/
def Marks (x : Inst) : Prop :=
  x.isLocal ∧ (k.strict → ∀ decl ∈ k.root.nodes, ∀ init, decl.Stores init x → init.Fills)

/-- There is something to watch: if the instruction is there, it makes storage that counts. -/
def Live (s : Stream) : Prop := ∀ x, s.inst? k.ptr = some x → k.Marks x

/-- The counts once an expression has been brought to a location. -/
def after (c : Set Nat) (loc : ResultLoc) : Set Nat := if loc = .existing k.ptr then k.ok else c

variable {k} {c : Set Nat} {loc : ResultLoc} {s s' : Stream} {x : Inst} {i : InstId}

theorem subset_ok (hc : c ⊆ {0}) (hs : ¬ k.strict) : c ⊆ k.ok := fun n hn => by
  rw [Set.mem_singleton_iff.1 (hc hn)]
  exact ⟨Nat.zero_le 1, fun h => absurd h hs⟩

theorem one_mem_ok : 1 ∈ k.ok := ⟨Nat.le_refl 1, fun _ => rfl⟩

theorem Live.of_grows (h : k.Live s') (hg : s.Grows s') : k.Live s :=
  fun x hx => h x (hg.inst _ x hx)

/-- What is no storage of a local variable is not watched. -/
theorem Live.ne (h : k.Live s) (hx : s.inst? i = some x) (hl : ¬ x.isLocal) : i ≠ k.ptr := by
  rintro rfl
  exact hl (h x hx).1

theorem after_existing : k.after c (.existing k.ptr) = k.ok := if_pos rfl

theorem after_of_ne (h : loc ≠ .existing k.ptr) : k.after c loc = c := if_neg h

@[simp] theorem after_none : k.after c .none = c := after_of_ne nofun

@[simp] theorem after_discard : k.after c .discard = c := after_of_ne nofun

@[simp] theorem after_ret : k.after c .ret = c := after_of_ne nofun

@[simp] theorem after_alloc : k.after c .alloc = c := after_of_ne nofun

/-- A location to which nothing is brought. -/
theorem subset_after (h : loc = .existing k.ptr → c ⊆ {0} ∧ ¬ k.strict) : c ⊆ k.after c loc := by
  by_cases hloc : loc = .existing k.ptr
  · obtain ⟨hc, hs⟩ := h hloc
    rw [hloc, after_existing]
    exact subset_ok hc hs
  · rw [after_of_ne hloc]

end Probe

/-- A state with the counts with which control may get to its blocks. -/
structure Tally where
  state : State
  counts : BlockId → Set Nat

namespace Tally

/-- Two states with the same code, and with the same sinks for the same locations. -/
structure Steady (s s' : State) : Prop extends Still s s' where
  grows : s.scopes.Grows s'.scopes
  root : s'.streamRoot = s.streamRoot
  sinks : ∀ scope, (s'.sinks.lookup scope).map (·.resultLoc) =
    (s.sinks.lookup scope).map (·.resultLoc)

/-- What holds in the middle of a lowering, where control may be at the end of the code so far with
certain counts. -/
structure Sound (k : Probe) (c : Set Nat) (w : Tally) : Prop extends Fine w.state where
  root : ∃ x, w.state.scopes.scope? w.state.streamRoot = some x ∧ exits x.kind = []
  sinks : ∀ scope sink, w.state.sinks.lookup scope = some sink →
    scope.index < w.state.scopes.scopes.size
  deferred : ∀ d ∈ w.state.deferred, d.2 ∈ k.root.nodes
  children : ∀ child ∈ w.state.stream.children, ∀ t, PartOf t child → t.WritesOnce k.root
  /-- The last instruction of the current block is the last one. -/
  newest : ∀ x, w.state.stream.lastInBlock? = some x → w.state.stream.last? = some x.id
  counted : k.Live w.state.stream → w.state.stream.Counted k.ptr k.ok w.counts
  ends : k.Live w.state.stream → w.state.stream.endCounts k.ptr w.counts ⊆ c

/-- One tally comes after another. -/
structure Since (w w' : Tally) : Prop where
  stream : w.state.stream.Grows w'.state.stream
  scopes : w.state.scopes.Grows w'.state.scopes
  root : w'.state.streamRoot = w.state.streamRoot
  /-- The sinks that were open are open, for the same location. -/
  sinks : ∀ scope sink, w.state.sinks.lookup scope = some sink →
    ∃ sink', w'.state.sinks.lookup scope = some sink' ∧ sink'.resultLoc = sink.resultLoc
  counts : ∀ b, b.index < w.state.stream.blocks.size → w'.counts b = w.counts b

/-- One tally comes after another, and the blocks that were there are left alone, except the one
that code is added to. -/
structure Le (w w' : Tally) : Prop extends Since w w' where
  adds : Adds w.state w'.state

/-- Control may get to a block with certain counts. -/
structure Admits (k : Probe) (c : Set Nat) (w : Tally) (b : BlockId) : Prop where
  lt : b.index < w.state.stream.blocks.size
  counts : k.Live w.state.stream → c ⊆ w.counts b

/-- What is known of a jump that ends at a block: where its value goes to, and with which counts
control gets there.  A label that leads to the storage that is watched is one of a given set. -/
structure Catches (k : Probe) (c : Set Nat) (D : Option String → Prop) (w : Tally)
    (loc : ResultLoc) (stop : BlockId) (label : Option String) : Prop
    extends Admits k (k.after c loc) w stop where
  ptr : ∀ p ∈ loc.ptr?, p.index < w.state.stream.insts.size
  target : k.Live w.state.stream → loc = .existing k.ptr → c ⊆ {0} ∧ D label

/-- Code may be lowered in a scope from certain counts on: the jumps that do not leave the stream
lead to blocks that may be entered with the counts that they bring. -/
structure In (k : Probe) (c : Set Nat) (D : Option String → Prop) (w : Tally) (scope : ScopeId) :
    Prop where
  index : scope.index < w.state.scopes.scopes.size
  /-- As long as there is no storage, nothing is written to it. -/
  start : w.state.stream.insts.size ≤ k.ptr.index → c = {0}
  stop : ∀ label target kind stop,
    w.state.scopes.target? w.state.streamRoot scope label = some (target, kind) →
    breakBlock? kind = some stop →
    ∃ sink, w.state.sinks.lookup target = some sink ∧ Catches k c D w sink.resultLoc stop label
  step : ∀ label target kind step,
    w.state.scopes.target? w.state.streamRoot scope label = some (target, kind) →
    continueBlock? kind = some step → Admits k c w step

/-- An instruction may be read, and it is not the storage that is watched. -/
def Val (k : Probe) (w : Tally) (v : InstId) : Prop :=
  v.index < w.state.stream.insts.size ∧ (k.Live w.state.stream → v ≠ k.ptr)

/-- An expression may be brought to a location: if this is the storage that is watched, nothing has
been written to it, and the expression has a value on every path if it has to. -/
structure Dest (k : Probe) (c : Set Nat) (w : Tally) (node : Node) (loc : ResultLoc) : Prop where
  ptr : ∀ p ∈ loc.ptr?, p.index < w.state.stream.insts.size
  target : k.Live w.state.stream → loc = .existing k.ptr →
    c ⊆ {0} ∧ (k.strict → node.Fills)

/-- The blocks that were made since a tally and that are still to be filled, with their counts. -/
structure Reserved (w₀ w : Tally) (bs : List (BlockId × Set Nat)) : Prop where
  since : Since w₀ w
  blocks : Unfilled w₀.state w.state (bs.map (·.1))
  counts : ∀ b ∈ bs, w.counts b.1 = b.2

end Tally

open Tally

variable {env : Env} {k : Probe} {c c' c₁ : Set Nat} {D : Option String → Prop}
  {w₀ w w' w'' : Tally} {s s' : State} {scope : ScopeId} {b : BlockId} {v : InstId}
  {node : Node} {loc : ResultLoc} {kind : InstKind} {S S' : Set Nat}
  {bs : List (BlockId × Set Nat)}

namespace Tally

/-! ### What changes with tallies -/

theorem Since.refl (w : Tally) : Since w w :=
  ⟨.refl _, .refl _, rfl, fun _ sink h => ⟨sink, h, rfl⟩, fun _ _ => rfl⟩

theorem Since.trans (h : Since w w') (h' : Since w' w'') : Since w w'' where
  stream := h.stream.trans h'.stream
  scopes := h.scopes.trans h'.scopes
  root := h'.root.trans h.root
  sinks scope sink hs := by
    obtain ⟨sink', hs', e⟩ := h.sinks scope sink hs
    obtain ⟨sink'', hs'', e'⟩ := h'.sinks scope sink' hs'
    exact ⟨sink'', hs'', e'.trans e⟩
  counts b hb := (h'.counts b (Nat.lt_of_lt_of_le hb h.stream.blocks)).trans (h.counts b hb)

theorem Le.refl (w : Tally) : Le w w := ⟨.refl w, .refl _⟩

theorem Le.trans (h : Le w w') (h' : Le w' w'') : Le w w'' :=
  ⟨h.toSince.trans h'.toSince, h.adds.trans h'.adds⟩

theorem Since.size_le (h : Since w w') :
    w.state.stream.insts.size ≤ w'.state.stream.insts.size := by
  refine Nat.le_of_not_lt fun hlt => ?_
  have := h.stream.inst ⟨w'.state.stream.insts.size⟩ _ (Array.getElem?_eq_getElem hlt)
  simp [Stream.inst?] at this

theorem Since.live (h : Since w w') (hl : k.Live w'.state.stream) : k.Live w.state.stream :=
  hl.of_grows h.stream

theorem Val.since (h : Val k w v) (e : Since w w') : Val k w' v :=
  ⟨Nat.lt_of_lt_of_le h.1 e.size_le, fun hl => h.2 (e.live hl)⟩

theorem Dest.since (h : Dest k c w node loc) (e : Since w w') : Dest k c w' node loc :=
  ⟨fun p hp => Nat.lt_of_lt_of_le (h.ptr p hp) e.size_le, fun hl => h.target (e.live hl)⟩

theorem Admits.since (h : Admits k c w b) (e : Since w w') : Admits k c w' b where
  lt := Nat.lt_of_lt_of_le h.lt e.stream.blocks
  counts hl := by
    rw [e.counts b h.lt]
    exact h.counts (e.live hl)

theorem Catches.since {stop : BlockId} {label : Option String}
    (h : Catches k c D w loc stop label) (e : Since w w') : Catches k c D w' loc stop label where
  toAdmits := h.toAdmits.since e
  ptr p hp := Nat.lt_of_lt_of_le (h.ptr p hp) e.size_le
  target hl := h.target (e.live hl)

theorem In.since (h : In k c D w scope) (e : Since w w') : In k c D w' scope where
  index := Nat.lt_of_lt_of_le h.index e.scopes.size_le
  start hle := h.start (Nat.le_trans e.size_le hle)
  stop label target kind stop ht hstop := by
    rw [e.root, e.scopes.target?_eq h.index] at ht
    obtain ⟨sink, hsink, hc⟩ := h.stop label target kind stop ht hstop
    obtain ⟨sink', hsink', hloc⟩ := e.sinks target sink hsink
    exact ⟨sink', hsink', hloc ▸ hc.since e⟩
  step label target kind step ht hstep := by
    rw [e.root, e.scopes.target?_eq h.index] at ht
    exact (h.step label target kind step ht hstep).since e

/-- A location that is no storage, or another one than that which is watched. -/
theorem dest_of_ptr? (h : ∀ p ∈ loc.ptr?, Val k w p) : Dest k c w node loc where
  ptr p hp := (h p hp).1
  target hl := by
    rintro rfl
    exact absurd rfl ((h k.ptr rfl).2 hl)

theorem dest_none : Dest k c w node .none := dest_of_ptr? nofun

theorem dest_discard : Dest k c w node .discard := dest_of_ptr? nofun

/-- What a location is for is known of all expressions that have a value if another one has. -/
theorem Dest.imp {node' : Node} (h : Dest k c w node loc) (hn : node.Fills → node'.Fills) :
    Dest k c w node' loc :=
  ⟨h.ptr, fun hl hloc => (h.target hl hloc).imp_right fun hs hst => hn (hs hst)⟩

/-- Where nothing is brought to a location, an expression has no value. -/
theorem Dest.subset (h : Dest k c w node loc) (hl : k.Live w.state.stream) (hn : ¬ node.Fills) :
    c ⊆ k.after c loc :=
  Probe.subset_after fun hloc =>
    ⟨(h.target hl hloc).1, fun hs => hn ((h.target hl hloc).2 hs)⟩

namespace Reserved

theorem nil (e : Le w₀ w) : Reserved w₀ w [] := ⟨e.toSince, .of_adds e.adds, nofun⟩

theorem le (p : Reserved w₀ w bs) : Le w₀ w := ⟨p.since, p.blocks.adds⟩

theorem lt (p : Reserved w₀ w bs) (hb : (b, S) ∈ bs) : b.index < w.state.stream.blocks.size :=
  (p.blocks.waiting b (List.mem_map_of_mem hb)).lt

theorem after (p : Reserved w₀ w bs) (e : Le w w') : Reserved w₀ w' bs :=
  ⟨p.since.trans e.toSince, p.blocks.after e.adds, fun b hb => by
    rw [e.counts b.1 (p.lt hb), p.counts b hb]⟩

theorem swap {b' : BlockId} (p : Reserved w₀ w ((b, S) :: (b', S') :: bs)) :
    Reserved w₀ w ((b', S') :: (b, S) :: bs) :=
  ⟨p.since, p.blocks.swap, fun b hb => p.counts b ((List.Perm.swap _ _ _).mem_iff.1 hb)⟩

/-- Control may get to a block that is still to be filled with the counts that it has. -/
theorem admits (p : Reserved w₀ w bs) (hb : (b, S) ∈ bs) : Admits k S w b :=
  ⟨p.lt hb, fun _ => (p.counts _ hb).superset⟩

end Reserved

/-! ### Steps that add no code -/

namespace Sound

theorem withEnds (h : Sound k c w)
    (ends : k.Live w.state.stream → w.state.stream.endCounts k.ptr w.counts ⊆ c') :
    Sound k c' w :=
  { h with ends }

theorem mono (h : Sound k c w) (hc : k.Live w.state.stream → c ⊆ c') : Sound k c' w :=
  h.withEnds fun hl => (h.ends hl).trans (hc hl)

/-- Where control does not go on, all that is said of the counts is true. -/
theorem of_isTerminated (h : Sound k c w) (ht : w.state.stream.isTerminated = true) :
    Sound k c' w :=
  h.withEnds fun _ => by
    rw [h.stream.endCounts_of_isTerminated ht]
    exact Set.empty_subset c'

theorem root_lt (h : Sound k c w) :
    w.state.streamRoot.index < w.state.scopes.scopes.size := by
  obtain ⟨x, hx, -⟩ := h.root
  exact (Array.getElem?_eq_some_iff.1 hx).1

theorem root_grows (h : Sound k c w) {scopes : ScopeTree} (hg : w.state.scopes.Grows scopes) :
    ∃ x, scopes.scope? w.state.streamRoot = some x ∧ exits x.kind = [] := by
  obtain ⟨x, hx, hk⟩ := h.root
  obtain ⟨x', hx', -, -, hk'⟩ := hg _ x hx
  exact ⟨x', hx', by rw [hk', hk]⟩

/-- The code may stay as it is, with more scopes. -/
theorem steady (h : Sound k c w) (e : Steady w.state s') :
    Sound k c ⟨s', w.counts⟩ ∧ Le w ⟨s', w.counts⟩ := by
  have hlive : k.Live s'.stream → k.Live w.state.stream := fun hl x hx =>
    hl x (by rwa [Stream.inst?, e.insts])
  have hlast : s'.stream.lastInBlock? = w.state.stream.lastInBlock? := by
    simp only [Stream.lastInBlock?, Stream.block?, Stream.inst?, e.insts, e.blocks, e.current]
  refine ⟨⟨e.fine h.toFine, e.root ▸ h.root_grows e.grows, fun scope sink hs => ?_, ?_, ?_,
    fun x hx => ?_, fun hl => ?_, fun hl => ?_⟩,
    ⟨⟨fun i x hx => ?_, ?_⟩, e.grows, e.root, fun scope sink hs => ?_, fun _ _ => rfl⟩, e.adds⟩
  · have := e.sinks scope
    rw [hs, Option.map_some, eq_comm, Option.map_eq_some_iff] at this
    obtain ⟨old, hold, -⟩ := this
    exact Nat.lt_of_lt_of_le (h.sinks scope old hold) e.grows.size_le
  · exact e.deferred ▸ h.deferred
  · exact e.children ▸ h.children
  · rw [Stream.last?, e.insts]
    exact h.newest x (hlast ▸ hx)
  · exact (h.counted (hlive hl)).mono h.stream e.instsIn (Nat.le_of_eq (by rw [e.blocks]))
      fun _ _ => rfl
  · have hends := h.ends (hlive hl)
    rwa [endCounts, e.current, e.instsIn]
  · rwa [Stream.inst?, e.insts]
  · exact Nat.le_of_eq (by rw [e.blocks])
  · have := e.sinks scope
    rw [hs, Option.map_some, Option.map_eq_some_iff] at this
    exact this

/-- What is remembered for the end of a block is part of the tree. -/
theorem withDeferred (h : Sound k c w) {expr : Node} (he : expr ∈ k.root.nodes) :
    let w' : Tally := ⟨{ w.state with deferred := (scope, expr) :: w.state.deferred }, w.counts⟩
    Sound k c w' ∧ Le w w' :=
  ⟨{ h with
      deferred := fun d hd => by
        rcases List.mem_cons.1 hd with rfl | hd
        · exact he
        · exact h.deferred d hd },
    { Since.refl w with }, ⟨Nat.le_refl _, fun _ _ _ => rfl, .inl rfl⟩⟩

/-! ### Steps that add code -/

/-- An instruction is appended. -/
theorem withNext (h : Sound k c w) (c' : Set Nat) (scope : ScopeId) (location : Option Location)
    (force gen : Bool) (hd : ∀ d ∈ kind.operands, d.index < w.state.stream.insts.size)
    (ht : ∀ t ∈ kind.targets, Admits k c w t)
    (hs : kind.storage? = some k.ptr → k.Live w.state.stream → c ⊆ k.ok)
    (hc : ∀ x : Inst, x.id = w.state.stream.next → x.kind = kind → x.location = location →
      x.isGen = gen →
      k.Live (w.state.withNext kind scope location force gen).stream →
      (w.state.withNext kind scope location force gen).stream.inst? x.id = some x →
      x.counts k.ptr c ⊆ c') :
    let w' : Tally := ⟨w.state.withNext kind scope location force gen, w.counts⟩
    Sound k c' w' ∧ Le w w' := by
  intro w'
  have happ : Appends kind w.state w'.state := ⟨hd, scope, location, force, gen, rfl⟩
  have hgrows : w.state.stream.Grows w'.state.stream := grows_withNext
  have hfine : Fine w'.state := happ.later.fine h.toFine
  let x : Inst := ⟨w.state.stream.next, kind, w.state.stream.currentBlock, scope, location,
    force || isComptimeIn w.state.stream w.state.scopes scope, gen⟩
  have hx : w'.state.stream.inst? x.id = some x := by
    rw [show w'.state.stream = w.state.stream.withNext _ _ _ _ _ from rfl, inst?_withNext]
    exact if_pos rfl
  have hcode : w'.state.stream.instsIn w'.state.stream.currentBlock =
      w.state.stream.instsIn w.state.stream.currentBlock ++ [x] := by
    rw [show w'.state.stream = w.state.stream.withNext _ _ _ _ _ from rfl, instsIn_withNext]
    exact if_pos rfl
  refine ⟨⟨hfine, h.root, h.sinks, h.deferred, h.children, fun y hy => ?_, fun hl => ?_,
    fun hl => ?_⟩, { Since.refl w with stream := hgrows },
    happ.later.stream.blocks, happ.later.others, happ.later.current⟩
  · rw [hfine.stream.lastInBlock?_eq, hcode, List.getLast?_concat] at hy
    obtain rfl := Option.some.inj hy
    simp [w', State.withNext, Stream.withNext, Stream.last?, x]
  · have hl := hl.of_grows hgrows
    exact (h.counted hl).withNext
      (fun t htt => ⟨(ht t htt).lt, (h.ends hl).trans ((ht t htt).counts hl)⟩)
      fun hst => (h.ends hl).trans (hs hst hl)
  · rw [show w'.state.stream = w.state.stream.withNext _ _ _ _ _ from rfl, endCounts_withNext]
    exact (Inst.counts_mono (h.ends (hl.of_grows hgrows))).trans (hc x rfl rfl rfl rfl hl hx)

/-- A block is made, to be entered with some counts. -/
theorem newBlock (h : Sound k c w) (p : Reserved w₀ w bs) (name : String) (S : Set Nat) :
    let w' : Tally := ⟨{ w.state with stream := (w.state.stream.newBlock name).2 },
      Function.update w.counts ⟨w.state.stream.blocks.size⟩ S⟩
    Sound k c w' ∧ Since w w' ∧ Reserved w₀ w' (bs ++ [(⟨w.state.stream.blocks.size⟩, S)]) := by
  intro w'
  have hcounts : ∀ b, b.index < w.state.stream.blocks.size → w'.counts b = w.counts b := by
    intro b hb
    have hne : b ≠ ⟨w.state.stream.blocks.size⟩ := by
      rintro rfl
      exact Nat.lt_irrefl _ hb
    simp only [w', Function.update_of_ne hne]
  have hsince : Since w w' :=
    ⟨grows_newBlock, .refl _, rfl, fun _ sink hs => ⟨sink, hs, rfl⟩, hcounts⟩
  refine ⟨⟨⟨h.stream.newBlock name, h.scopes⟩, h.root, h.sinks, h.deferred, h.children,
    fun x hx => ?_, fun hl => ?_, fun hl => ?_⟩, hsince, p.since.trans hsince, ?_, fun d hd => ?_⟩
  · have hlast : (w.state.stream.newBlock name).2.lastInBlock? = w.state.stream.lastInBlock? := by
      rw [(h.stream.newBlock name).lastInBlock?_eq, h.stream.lastInBlock?_eq]
      rfl
    exact h.newest x (hlast ▸ hx)
  · exact (h.counted hl).mono h.stream (fun _ => rfl) (by simp [w', Stream.newBlock]) hcounts
  · have hends := h.ends hl
    rwa [endCounts, ← hcounts _ h.stream.current] at hends
  · rw [List.map_append]
    exact p.blocks.newBlock h.toFine name
  · rcases List.mem_append.1 hd with hd | hd
    · rw [hcounts d.1 (p.lt hd), p.counts d hd]
    · rw [List.mem_singleton.1 hd]
      simp only [w', Function.update_self]

/-- Control goes on in a block that is still to be filled. -/
theorem goto (h : Sound k c w) (p : Reserved w₀ w ((b, S) :: bs)) :
    let w' : Tally := ⟨{ w.state with stream := w.state.stream.goto b }, w.counts⟩
    Sound k S w' ∧ Since w w' ∧ Reserved w₀ w' bs := by
  intro w'
  have hb : Waiting w.state b := p.blocks.waiting b (by simp)
  have hcoh := h.stream.goto hb.lt
  have hempty : w'.state.stream.instsIn w'.state.stream.currentBlock = [] := hb.empty
  have hsince : Since w w' := { Since.refl w with stream := ⟨fun _ _ => id, Nat.le_refl _⟩ }
  refine ⟨⟨⟨hcoh, h.scopes⟩, h.root, h.sinks, h.deferred, h.children, fun x hx => ?_,
    fun hl => ?_, fun hl => ?_⟩, hsince, p.since.trans hsince, p.blocks.goto,
    fun d hd => p.counts d (by simp [hd])⟩
  · rw [hcoh.lastInBlock?_eq, hempty] at hx
    cases hx
  · exact (h.counted hl).mono h.stream (fun _ => rfl) (Nat.le_refl _) fun _ _ => rfl
  · rw [endCounts, hempty, countsAfter_nil]
    exact (p.counts (b, S) (by simp)).subset

/-! ### Sinks -/

/-- A scope is opened, with a sink for what arrives at its end. -/
theorem withTarget (h : Sound k c w) (p : Reserved w₀ w bs)
    (hs : scope.index < w.state.scopes.scopes.size) (kind : ScopeKind) (loc : ResultLoc) :
    let w' : Tally := ⟨{ w.state with
      scopes := (w.state.scopes.openUnder scope kind).2
      sinks := (⟨w.state.scopes.scopes.size⟩, ⟨loc, []⟩) :: w.state.sinks }, w.counts⟩
    Sound k c w' ∧ Since w w' ∧ Reserved w₀ w' bs ∧
      w₀.state.sinks.lookup ⟨w.state.scopes.scopes.size⟩ = none := by
  intro w'
  have hg := ScopeTree.grows_openUnder (t := w.state.scopes) scope kind
  have hnew : ∀ x sink, w.state.sinks.lookup x = some sink → x ≠ ⟨w.state.scopes.scopes.size⟩ := by
    rintro _ sink hsink rfl
    exact Nat.lt_irrefl _ (h.sinks _ sink hsink)
  have hother : ∀ x, x ≠ ⟨w.state.scopes.scopes.size⟩ →
      w'.state.sinks.lookup x = w.state.sinks.lookup x :=
    fun x hx => by simp only [w', List.lookup_cons, beq_eq_false_iff_ne.2 hx]
  have hsince : Since w w' := ⟨.refl _, hg, rfl, fun x sink hsink =>
    ⟨sink, (hother x (hnew x sink hsink)).trans hsink, rfl⟩, fun _ _ => rfl⟩
  have hadds : Adds w.state w'.state := ⟨Nat.le_refl _, fun _ _ _ => rfl, .inl rfl⟩
  refine ⟨⟨⟨h.stream, h.scopes.openUnder hs⟩, h.root_grows hg, fun x sink hsink => ?_,
    h.deferred, h.children, h.newest, h.counted, h.ends⟩, hsince, p.after ⟨hsince, hadds⟩, ?_⟩
  · by_cases hx : x = ⟨w.state.scopes.scopes.size⟩
    · rw [hx]
      simp [w']
    · exact Nat.lt_of_lt_of_le (h.sinks x sink (hother x hx ▸ hsink)) hg.size_le
  · refine Option.eq_none_iff_forall_not_mem.2 fun sink hsink => ?_
    obtain ⟨sink', hsink', -⟩ := p.since.sinks _ sink hsink
    exact hnew _ sink' hsink' rfl

/-- A sink is closed that was not open at first. -/
theorem closeSink (h : Sound k c w) (p : Reserved w₀ w bs)
    (hfresh : w₀.state.sinks.lookup scope = none) :
    let w' : Tally := ⟨{ w.state with sinks := w.state.sinks.filter (·.1 != scope) }, w.counts⟩
    Sound k c w' ∧ Reserved w₀ w' bs := by
  intro w'
  have hlookup : ∀ x, w'.state.sinks.lookup x =
      if x = scope then none else w.state.sinks.lookup x := fun x => lookup_closeSink
  refine ⟨⟨⟨h.stream, h.scopes⟩, h.root, fun x sink hx => ?_, h.deferred, h.children, h.newest,
    h.counted, h.ends⟩, { p.since with sinks := fun x sink hx => ?_ }, ?_, p.counts⟩
  · rw [hlookup] at hx
    split at hx
    · cases hx
    · exact h.sinks x sink hx
  · rw [hlookup, if_neg]
    · exact p.since.sinks x sink hx
    · rintro rfl
      simp [hfresh] at hx
  · have hadds : Adds w.state w'.state := ⟨Nat.le_refl _, fun _ _ _ => rfl, .inl rfl⟩
    exact p.blocks.after hadds

/-! ### Streams inside streams -/

/-- The state at the start of a stream. -/
theorem start {name : String} {isInline : Bool} (hstream : s.stream = .new name isInline)
    (hsinks : s.sinks = []) (hscopes : s.scopes.WellFormed)
    (hroot : ∃ x, s.scopes.scope? s.streamRoot = some x ∧ exits x.kind = [])
    (hdeferred : ∀ d ∈ s.deferred, d.2 ∈ k.root.nodes) : Sound k {0} ⟨s, fun _ => {0}⟩ where
  stream := hstream ▸ coherent_new name isInline
  scopes := hscopes
  root := hroot
  sinks := by simp [hsinks]
  deferred := hdeferred
  children := by simp [hstream, Stream.new]
  newest x hx := by
    rw [hstream] at hx
    simp [Stream.lastInBlock?, Stream.block?, Stream.new, BlockId.entry] at hx
  counted _ := counted_of_insts_eq (by rw [hstream]; rfl)
  ends _ := by
    simp [hstream, endCounts, instsIn, Stream.new]

/-- The storage of every local variable of a stream is written to as it should be, if that is so
whatever is watched. -/
theorem writesOnce {root : Node} (h : ∀ p strict, ∃ c counts,
    Sound ⟨root, p, strict⟩ c ⟨s, counts⟩) : ∀ t, PartOf t s.stream → t.WritesOnce root := by
  have own : s.stream.WritesOnce root := by
    intro q r x y var n hq hx hr hy hw
    have hcoh : s.stream.Coherent := by
      obtain ⟨c, counts, hs⟩ := h x.id False
      exact hs.stream
    obtain ⟨name, type, isComptime, hkind⟩ : ∃ name type isComptime,
        x.kind = .alloca name type isComptime := by
      have halloca := hx.1
      cases hk : x.kind <;> rw [hk] at halloca <;> first | exact ⟨_, _, _, rfl⟩ | cases halloca
    have hmem : ∀ strict : Prop, (strict → ∀ decl ∈ root.nodes, ∀ init, decl.Stores init x →
        init.Fills) → n ∈ (⟨root, x.id, strict⟩ : Probe).ok := by
      intro strict hstrict
      obtain ⟨c, counts, hs⟩ := h x.id strict
      refine (hs.counted fun z hz => ?_).mem_of_way hcoh hq hkind rfl hr (by rw [hy]; rfl) hw
      obtain rfl := Option.some.inj (hz.symm.trans (hcoh.inst?_of_fetch? hq))
      exact ⟨hx, hstrict⟩
    exact ⟨(hmem False nofun).1, fun hall => (hmem True fun _ => hall).2 trivial⟩
  intro t ht
  cases ht with
  | self => exact own
  | child hc ht =>
    obtain ⟨c, counts, hs⟩ := h ⟨0⟩ False
    exact hs.children _ hc t ht

/-- A stream is taken in by the one around it. -/
theorem withChild (h : Sound k c w) {inner : State} (hg : w.state.scopes.Grows inner.scopes)
    (hwf : inner.scopes.WellFormed) (hdeferred : ∀ d ∈ inner.deferred, d.2 ∈ k.root.nodes)
    (hchild : ∀ t, PartOf t inner.stream → t.WritesOnce k.root) :
    let w' : Tally := ⟨w.state.around inner, w.counts⟩
    Sound k c w' ∧ Le w w' := by
  have hstream := h.stream.addChild inner.stream
  rw [State.around]
  rw [addChild_eq] at hstream ⊢
  refine ⟨⟨⟨hstream, hwf⟩, h.root_grows hg, fun x sink hx =>
    Nat.lt_of_lt_of_le (h.sinks x sink hx) hg.size_le, hdeferred, fun child hc t ht => ?_, h.newest,
    fun hl => ?_, h.ends⟩, ⟨⟨fun _ _ => id, Nat.le_refl _⟩, hg, rfl,
      fun _ sink hs => ⟨sink, hs, rfl⟩, fun _ _ => rfl⟩, Nat.le_refl _, fun _ _ _ => rfl, .inl rfl⟩
  · rcases List.mem_append.1 hc with hc | hc
    · exact h.children child hc t ht
    · rw [List.mem_singleton.1 hc] at ht
      exact hchild t ht
  · exact (h.counted hl).mono h.stream (fun _ => rfl) (Nat.le_refl _) fun _ _ => rfl

end Sound

end Tally

end SourceIr.Lower
