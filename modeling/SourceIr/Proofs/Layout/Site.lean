import Mathlib.Logic.Function.Basic
import SourceIr.Proofs.Logic.Basic
import SourceIr.Proofs.Run
import SourceIr.Proofs.Scope.Jump
import SourceIr.Proofs.Scope.Visible
import SourceIr.Proofs.Stream.Variables

/-!
# Sites

A place in the middle of a lowering: the state, with the tree along which the blocks are laid out
and the blocks that were made and not gone to yet.  At every site the stream is laid out along the
tree, every block that was left has an end, and what the scopes promise to a jump is kept: the
blocks that it may lead to, and the storage that its value goes to.

* `Site`, with `Site.Avail`, `Site.Target` and `Site.In`, what may be used in a block;
* `Site.Shape`, what holds of the blocks, and `Site.Ext`, how sites change;
* `Site.DeclaresFrom`, where variables are declared meanwhile;
* the steps: `Shape.withNext`, `Shape.withBlock`, `Shape.adopt`, `Shape.goto` and those on scopes
  and sinks.
-/

namespace SourceIr.Lower

open SourceIr.Stream

/-- A place in the middle of a lowering. -/
structure Site where
  state : State
  /-- The block above each block, as far as it has been decided. -/
  parent : BlockId → Option BlockId
  /-- The blocks that were made and not gone to yet. -/
  pending : BlockId → Prop
  /-- The variables before this position are those of the streams around. -/
  base : Nat

namespace Site

variable {w w' w'' : Site} {a b c t : BlockId} {v : InstId} {scope : ScopeId} {loc : ResultLoc}

/-- The block at which the lowering goes on. -/
abbrev current (w : Site) : BlockId := w.state.stream.currentBlock

/-- A block is above another one, or the same. -/
def Above (w : Site) (a b : BlockId) : Prop := Stream.Above w.parent a b

/-- The value of an instruction may be used in a block. -/
def Avail (w : Site) (b : BlockId) (v : InstId) : Prop := w.state.stream.Available w.parent b v

/-- A branch may lead from a block to another one. -/
def Target (w : Site) (b t : BlockId) : Prop := w.state.stream.Targetable w.parent b t

/-- The pointer of a result location may be used in a block. -/
def Loc (w : Site) (b : BlockId) (loc : ResultLoc) : Prop := ∀ p ∈ loc.ptr?, w.Avail b p

theorem loc_discard {w : Site} {b : BlockId} : w.Loc b .discard := nofun

/-- Code may be lowered in a scope and a block: the jumps that do not leave the stream lead to
blocks that may be gone to from here, and their values to storage that may be used here; the
variables of the scopes around are declared above, and not in the streams inside. -/
structure In (w : Site) (b : BlockId) (scope : ScopeId) : Prop where
  index : scope.index < w.state.scopes.scopes.size
  inside : ∀ x ∈ w.state.scopes.inside w.state.streamRoot scope,
    x.1.index < w.state.scopes.scopes.size
  target : ∀ x ∈ w.state.scopes.inside w.state.streamRoot scope, ∀ t ∈ exits x.2, w.Target b t
  sink : ∀ x ∈ w.state.scopes.inside w.state.streamRoot scope, ∀ sink,
    w.state.sinks.lookup x.1 = some sink → w.Loc b sink.resultLoc
  rooted : w.state.scopes.OnChain w.state.streamRoot scope
  declared : ∀ i x, w.state.stream.inst? i = some x → x.kind.declares?.isSome →
    w.state.scopes.Around x.scope scope → w.Above x.block b
  apart : ∀ c ∈ w.state.stream.children, ∀ d ∈ c.decls, ¬ w.state.scopes.Around d.2 scope

/-- What holds of the blocks in the middle of a lowering. -/
structure Shape (w : Site) : Prop where
  laid : w.state.stream.Laid w.parent
  /-- The instructions of the current block are the last ones. -/
  tail : ∀ i j, i ≤ j → j < w.state.stream.insts.size →
    w.state.stream.blockAt i = some w.current → w.state.stream.blockAt j = some w.current
  pending : ∀ b, w.pending b → b ≠ w.current ∧ b ≠ .entry ∧
    b.index < w.state.stream.blocks.size ∧ w.state.stream.instsIn b = []
  settled : ∀ b, b.index < w.state.stream.blocks.size → b ≠ w.current → ¬ w.pending b →
    w.state.stream.Ends b
  parent : ∀ b q, w.parent b = some q → b.index < w.state.stream.blocks.size
  scopes : w.state.scopes.WellFormed
  root : ∃ x, w.state.scopes.scope? w.state.streamRoot = some x ∧ exits x.kind = []
  sinks : ∀ entry ∈ w.state.sinks, entry.1.index < w.state.scopes.scopes.size ∧
    ∀ f ∈ entry.2.incoming, w.Avail f.1 f.2
  children : ∀ c ∈ w.state.stream.children, ∀ t, PartOf t c → t.Closed ∧ t.IsSSA

/-- How sites change: nothing is taken back, except sinks. -/
structure Ext (w w' : Site) : Prop where
  stream : w.state.stream.Grows w'.state.stream
  parent : Extends w.parent w'.parent
  scopes : w.state.scopes.Grows w'.state.scopes
  vars : ∀ (i : Nat) (x : Variable), w.state.scopes.vars[i]? = some x →
    w'.state.scopes.vars[i]? = some x
  root : w'.state.streamRoot = w.state.streamRoot
  base : w'.base = w.base
  sinks : ∀ scope, scope.index < w.state.scopes.scopes.size → ∀ sink',
    w'.state.sinks.lookup scope = some sink' →
      ∃ sink, w.state.sinks.lookup scope = some sink ∧ sink'.resultLoc = sink.resultLoc

theorem Ext.refl (w : Site) : Ext w w :=
  ⟨.refl _, fun _ _ => id, .refl _, fun _ _ => id, rfl, rfl, fun _ _ sink h => ⟨sink, h, rfl⟩⟩

theorem Ext.trans (h : Ext w w') (h' : Ext w' w'') : Ext w w'' where
  stream := h.stream.trans h'.stream
  parent b q hq := h'.parent b q (h.parent b q hq)
  scopes := h.scopes.trans h'.scopes
  vars i x hx := h'.vars i x (h.vars i x hx)
  root := h'.root.trans h.root
  base := h'.base.trans h.base
  sinks scope hs sink'' hsink := by
    obtain ⟨sink', hsink', heq'⟩ :=
      h'.sinks scope (Nat.lt_of_lt_of_le hs h.scopes.size_le) sink'' hsink
    obtain ⟨sink, hsink, heq⟩ := h.sinks scope hs sink' hsink'
    exact ⟨sink, hsink, heq'.trans heq⟩

theorem Above.ext (h : w.Above a b) (e : Ext w w') : w'.Above a b := Stream.Above.mono e.parent h

theorem Avail.ext (h : w.Avail b v) (e : Ext w w') : w'.Avail b v :=
  Available.mono e.stream e.parent h

theorem Avail.lt (h : w.Avail b v) : v.index < w.state.stream.insts.size := by
  obtain ⟨x, hx, -⟩ := h
  exact (Array.getElem?_eq_some_iff.1 hx).1

theorem Avail.below (h : w.Avail a v) (hab : w.Above a b) : w.Avail b v := Available.below h hab

theorem Target.ext (h : w.Target b t) (e : Ext w w') : w'.Target b t :=
  Targetable.mono e.stream e.parent h

theorem Target.below (h : w.Target a t) (hab : w.Above a b) : w.Target b t :=
  Targetable.below h hab

theorem Loc.ext (h : w.Loc b loc) (e : Ext w w') : w'.Loc b loc := fun p hp => (h p hp).ext e

theorem Loc.below (h : w.Loc a loc) (hab : w.Above a b) : w.Loc b loc :=
  fun p hp => (h p hp).below hab

/-! ### Where variables are declared -/

/-- On the way from one site to another, variables are declared in scopes from the position `n` on;
if the scope was there before, the declaration is above the block at which one arrives. -/
structure DeclaresFrom (n : Nat) (w w' : Site) : Prop where
  here : ∀ i x, w.state.stream.insts.size ≤ i.index → w'.state.stream.inst? i = some x →
    x.kind.declares?.isSome → n ≤ x.scope.index ∧
      (x.scope.index < w.state.scopes.scopes.size → w'.Above x.block w'.current)
  nested : ∀ c ∈ w'.state.stream.children, c ∉ w.state.stream.children →
    ∀ d ∈ c.decls, w.state.scopes.scopes.size ≤ d.2.index

/-- On the way from one site to another, variables are declared in new scopes only. -/
abbrev DeclaresInside (w w' : Site) : Prop := DeclaresFrom w.state.scopes.scopes.size w w'

namespace DeclaresFrom

variable {m n : Nat}

/-- Where neither instructions nor streams are added, nothing is declared. -/
theorem of_eq (hinsts : w'.state.stream.insts = w.state.stream.insts)
    (hchildren : w'.state.stream.children = w.state.stream.children) : DeclaresFrom n w w' where
  here i x hi hx := by
    have hlt := (Array.getElem?_eq_some_iff.1 hx).1
    rw [hinsts] at hlt
    exact absurd hlt (Nat.not_lt_of_le hi)
  nested c hc hnew := absurd (hchildren ▸ hc) hnew

theorem refl (n : Nat) (w : Site) : DeclaresFrom n w w := of_eq rfl rfl

theorem mono (h : DeclaresFrom n w w') (hm : m ≤ n) : DeclaresFrom m w w' where
  here i x hi hx hk := ⟨Nat.le_trans hm (h.here i x hi hx hk).1, (h.here i x hi hx hk).2⟩
  nested := h.nested

/-- Two stretches, of which the second one leads further down. -/
theorem trans (h : DeclaresFrom n w w') (h' : DeclaresFrom n w' w'') (e : Ext w w')
    (e' : Ext w' w'') (hab : w''.Above w'.current w''.current) : DeclaresFrom n w w'' where
  here i x hi hx hk := by
    by_cases hlt : i.index < w'.state.stream.insts.size
    · have hx' : w'.state.stream.inst? i = some w'.state.stream.insts[i.index] :=
        Array.getElem?_eq_getElem hlt
      obtain rfl := Option.some.inj ((e'.stream.inst i _ hx').symm.trans hx)
      obtain ⟨hn, habove⟩ := h.here i _ hi hx' hk
      exact ⟨hn, fun hs => ((habove hs).mono e'.parent).trans hab⟩
    · obtain ⟨hn, habove⟩ := h'.here i x (Nat.le_of_not_lt hlt) hx hk
      exact ⟨hn, fun hs => habove (Nat.lt_of_lt_of_le hs e.scopes.size_le)⟩
  nested c hc hnew d hd := by
    by_cases hmem : c ∈ w'.state.stream.children
    · exact h.nested c hmem hnew d hd
    · exact Nat.le_trans e.scopes.size_le (h'.nested c hc hmem d hd)

/-- All that a stream declares that was empty is declared in new scopes. -/
theorem decls (h : DeclaresInside w w') (hinsts : w.state.stream.insts = #[])
    (hchildren : w.state.stream.children = []) :
    ∀ d ∈ w'.state.stream.decls, w.state.scopes.scopes.size ≤ d.2.index := by
  intro d hd
  rcases mem_decls.1 hd with hown | ⟨c, hc, hd⟩
  · obtain ⟨i, x, hx, hk, hs⟩ := mem_ownDecls.1 hown
    exact hs ▸ (h.here i x (by simp [hinsts]) hx (by rw [hk]; rfl)).1
  · exact h.nested c hc (by simp [hchildren]) d hd

/-- What is declared in new scopes need not be above the block at which one arrives. -/
theorem congr (h : DeclaresInside w w') (hinsts : w''.state.stream.insts = w'.state.stream.insts)
    (hchildren : w''.state.stream.children = w'.state.stream.children) : DeclaresInside w w'' where
  here i x hi hx hk := by
    have hx : w'.state.stream.inst? i = some x := by rwa [inst?, ← hinsts]
    obtain ⟨hn, -⟩ := h.here i x hi hx hk
    exact ⟨hn, fun hlt => absurd hn (Nat.not_le_of_gt hlt)⟩
  nested c hc := h.nested c (hchildren ▸ hc)

end DeclaresFrom

/-- Code may still be lowered in a scope if what has been declared in it meanwhile is above. -/
theorem In.ext_of (h : w.In a scope) (e : Ext w w') (hab : w'.Above a b)
    (hnew : ∀ i x, w.state.stream.insts.size ≤ i.index → w'.state.stream.inst? i = some x →
      x.kind.declares?.isSome → x.scope.index < w.state.scopes.scopes.size → w'.Above x.block b)
    (hnested : ∀ c ∈ w'.state.stream.children, c ∉ w.state.stream.children →
      ∀ d ∈ c.decls, w.state.scopes.scopes.size ≤ d.2.index) : w'.In b scope where
  index := Nat.lt_of_lt_of_le h.index e.scopes.size_le
  inside x hx := by
    rw [e.root, e.scopes.inside_eq h.index] at hx
    exact Nat.lt_of_lt_of_le (h.inside x hx) e.scopes.size_le
  target x hx t ht := by
    rw [e.root, e.scopes.inside_eq h.index] at hx
    exact ((h.target x hx t ht).ext e).below hab
  sink x hx sink' hsink' := by
    rw [e.root, e.scopes.inside_eq h.index] at hx
    obtain ⟨sink, hsink, heq⟩ := e.sinks x.1 (h.inside x hx) sink' hsink'
    rw [heq]
    exact ((h.sink x hx sink hsink).ext e).below hab
  rooted := by
    rw [e.root]
    exact (e.scopes.onChain_iff h.index).2 h.rooted
  declared i x hx hk hon := by
    have hon := (e.scopes.around_iff h.index).1 hon
    by_cases hlt : i.index < w.state.stream.insts.size
    · have hx' : w.state.stream.inst? i = some w.state.stream.insts[i.index] :=
        Array.getElem?_eq_getElem hlt
      obtain rfl := Option.some.inj ((e.stream.inst i _ hx').symm.trans hx)
      exact ((h.declared i _ hx' hk hon).ext e).trans hab
    · exact hnew i x (Nat.le_of_not_lt hlt) hx hk
        (Nat.lt_of_le_of_lt hon.1 h.index)
  apart c hc d hd hon := by
    have hon := (e.scopes.around_iff h.index).1 hon
    by_cases hmem : c ∈ w.state.stream.children
    · exact h.apart c hmem d hd hon
    · exact Nat.not_lt_of_le (hnested c hc hmem d hd) (Nat.lt_of_le_of_lt hon.1 h.index)

theorem In.ext (h : w.In b scope) (e : Ext w w') (hd : DeclaresInside w w') : w'.In b scope :=
  h.ext_of e .refl (fun i x hi hx hk hlt => absurd (hd.here i x hi hx hk).1 (Nat.not_le_of_gt hlt))
    hd.nested

theorem In.below (h : w.In a scope) (hab : w.Above a b) : w.In b scope where
  index := h.index
  inside := h.inside
  target x hx t ht := (h.target x hx t ht).below hab
  sink x hx sink hsink := (h.sink x hx sink hsink).below hab
  rooted := h.rooted
  declared i x hx hk hon := (h.declared i x hx hk hon).trans hab
  apart := h.apart

/-! ### Steps on the stream -/

section Emit

variable {kind : InstKind} {location : Option Location} {isComptime isGen : Bool}

/-- The site after an instruction was appended. -/
def withNext (w : Site) (kind : InstKind) (scope : ScopeId) (location : Option Location)
    (isComptime isGen : Bool) (log : Array Event) : Site :=
  { w with
    state := { w.state with
      stream := w.state.stream.withNext kind scope location isComptime isGen
      log } }

theorem ext_withNext {log : Array Event} :
    Ext w (w.withNext kind scope location isComptime isGen log) :=
  ⟨grows_withNext, fun _ _ => id, .refl _, fun _ _ => id, rfl, rfl,
    fun _ _ sink h => ⟨sink, h, rfl⟩⟩

theorem Shape.withNext (hw : w.Shape) {log : Array Event}
    (ht : ∀ t ∈ kind.targets, w.Target w.current t)
    (hr : w.state.stream.Readable w.parent w.current kind) :
    (w.withNext kind scope location isComptime isGen log).Shape := by
  have e : Ext w (w.withNext kind scope location isComptime isGen log) := ext_withNext
  have other : ∀ b, b ≠ w.current →
      (w.state.stream.withNext kind scope location isComptime isGen).instsIn b =
        w.state.stream.instsIn b := fun b hb => by
    rw [instsIn_withNext, if_neg (Ne.symm hb)]
  constructor
  · constructor
    · exact hw.laid.coherent.withNext hr.lt
    · intro i j k b hij hjk hi hk
      simp only [Site.withNext, blockAt_withNext] at hi hk ⊢
      split at hk
      next hkn =>
        cases hk
        split
        next => rfl
        next hj =>
          rw [if_neg (by omega)] at hi
          exact hw.tail i j hij (by omega) hi
      next hkn =>
        have := lt_of_blockAt hk
        rw [if_neg (by omega)] at hi ⊢
        exact hw.laid.run i j k b hij hjk hi hk
    · exact hw.laid.entry
    · intro i x hx
      simp only [Site.withNext, inst?_withNext] at hx
      split at hx
      · cases hx
        exact fun t h => (ht t h).ext e
      · exact fun t h => Target.ext (hw.laid.targets i x hx t h) e
    · intro i x hx
      simp only [Site.withNext, inst?_withNext] at hx
      split at hx
      · cases hx
        exact hr.mono e.stream e.parent
      · exact (hw.laid.reads i x hx).mono e.stream e.parent
  · intro i j hij hj hi
    simp only [Site.withNext, blockAt_withNext, withNext_size_insts] at hi hj ⊢
    split
    next => rfl
    next hjn =>
      rw [if_neg (by omega)] at hi
      exact hw.tail i j hij (by omega) hi
  · intro b hb
    obtain ⟨hne, hentry, hlt, hnil⟩ := hw.pending b hb
    exact ⟨hne, hentry, by simpa [Site.withNext] using hlt, (other b hne).trans hnil⟩
  · intro b hlt hne hp
    obtain ⟨x, hx, hn⟩ := hw.settled b (by simpa [Site.withNext] using hlt) hne hp
    exact ⟨x, (congrArg List.getLast? (other b hne)).trans hx, hn⟩
  · intro b q hq
    simpa [Site.withNext] using hw.parent b q hq
  · exact hw.scopes
  · exact hw.root
  · exact fun entry he =>
      ⟨(hw.sinks entry he).1, fun f hf => ((hw.sinks entry he).2 f hf).ext e⟩
  · exact hw.children

/-- The new instruction may be used from now on. -/
theorem avail_withNext {log : Array Event} :
    (w.withNext kind scope location isComptime isGen log).Avail w.current w.state.stream.next :=
  ⟨⟨w.state.stream.next, kind, w.current, scope, location, isComptime, isGen⟩,
    by simp [Site.withNext, inst?_withNext, Stream.next], .refl⟩

/-- The instruction behind a handle that is new. -/
theorem inst?_withNext_of_le {log : Array Event} {i : InstId} {x : Inst}
    (hi : w.state.stream.insts.size ≤ i.index)
    (hx : (w.withNext kind scope location isComptime isGen log).state.stream.inst? i = some x) :
    x.kind = kind ∧ x.scope = scope ∧ x.block = w.current := by
  have hx : (w.state.stream.withNext kind scope location isComptime isGen).inst? i = some x := hx
  rw [inst?_withNext] at hx
  split at hx
  · obtain rfl := Option.some.inj hx
    exact ⟨rfl, rfl, rfl⟩
  · exact absurd (Array.getElem?_eq_some_iff.1 hx).1 (Nat.not_lt_of_le hi)

/-- An instruction that declares nothing. -/
theorem declaresFrom_withNext {log : Array Event} {n : Nat} (hd : kind.declares? = none) :
    DeclaresFrom n w (w.withNext kind scope location isComptime isGen log) where
  here i x hi hx hk := by
    rw [(inst?_withNext_of_le hi hx).1, hd] at hk
    cases hk
  nested _ hc hnew := absurd hc hnew

/-- A variable is declared in the scope of the instruction that does it. -/
theorem declaresFrom_withDeclVar {log : Array Event} {v : VarId} {ptr : InstId} :
    DeclaresFrom scope.index w (w.withNext (.declVar v ptr) scope location isComptime isGen log)
    where
  here i x hi hx _ := by
    obtain ⟨-, hs, hb⟩ := inst?_withNext_of_le hi hx
    exact ⟨hs ▸ Nat.le_refl _, fun _ => hb ▸ .refl⟩
  nested _ hc hnew := absurd hc hnew

/-- An instruction that control does not go on from ends the current block. -/
theorem ends_withNext (h : kind.isNoreturn) :
    (w.state.stream.withNext kind scope location isComptime isGen).Ends w.current :=
  ⟨_, by rw [instsIn_withNext, if_pos rfl, List.getLast?_concat], h⟩

end Emit

/-- The site after a block was added, with a parent or without. -/
def withBlock (w : Site) (name : String) (q : Option BlockId) : Site where
  state := { w.state with stream := (w.state.stream.newBlock name).2 }
  parent := Function.update w.parent ⟨w.state.stream.blocks.size⟩ q
  pending b := w.pending b ∨ b = ⟨w.state.stream.blocks.size⟩
  base := w.base

theorem Shape.ext_withBlock (hw : w.Shape) {name : String} {q : Option BlockId} :
    Ext w (w.withBlock name q) where
  stream := grows_newBlock
  parent b p hp := by
    have hlt := hw.parent b p hp
    have hb : b ≠ ⟨w.state.stream.blocks.size⟩ := fun h => Nat.lt_irrefl _ (h ▸ hlt)
    exact (Function.update_of_ne hb q w.parent).trans hp
  scopes := .refl _
  vars _ _ := id
  root := rfl
  base := rfl
  sinks _ _ sink h := ⟨sink, h, rfl⟩

theorem Shape.withBlock (hw : w.Shape) {name : String} {q : Option BlockId} :
    (w.withBlock name q).Shape := by
  have e : Ext w (w.withBlock name q) := hw.ext_withBlock
  have hc := hw.laid.coherent
  have hsize : (w.withBlock name q).state.stream.blocks.size =
      w.state.stream.blocks.size + 1 := by simp [Site.withBlock, Stream.newBlock]
  have hcur : w.current.index < w.state.stream.blocks.size := hc.current
  have hnew : w.current ≠ ⟨w.state.stream.blocks.size⟩ := fun h => Nat.lt_irrefl _ (h ▸ hcur)
  have hentry : BlockId.entry ≠ ⟨w.state.stream.blocks.size⟩ := fun h => by
    have : 0 = w.state.stream.blocks.size := congrArg BlockId.index h
    omega
  constructor
  · constructor
    · exact hc.newBlock name
    · exact hw.laid.run
    · exact (Function.update_of_ne hentry q w.parent).trans hw.laid.entry
    · exact fun i x hx t ht => Target.ext (hw.laid.targets i x hx t ht) e
    · exact fun i x hx => (hw.laid.reads i x hx).mono e.stream e.parent
  · exact hw.tail
  · rintro b (hb | rfl)
    · obtain ⟨hne, hentry, hlt, hnil⟩ := hw.pending b hb
      exact ⟨hne, hentry, by omega, hnil⟩
    · exact ⟨hnew.symm, hentry.symm, by simp [hsize], hc.instsIn_eq_nil (Nat.le_refl _)⟩
  · intro b hlt hne hp
    have hne' : b ≠ ⟨w.state.stream.blocks.size⟩ := fun h => hp (.inr h)
    have hlt' : b.index < w.state.stream.blocks.size := by
      rcases Nat.lt_or_ge b.index w.state.stream.blocks.size with h | h
      · exact h
      · refine absurd ?_ hne'
        have : b.index = w.state.stream.blocks.size := by omega
        rw [← this]
    exact hw.settled b hlt' hne fun h => hp (.inl h)
  · intro b p hp
    by_cases hb : b = ⟨w.state.stream.blocks.size⟩
    · simp [hb, hsize]
    · change Function.update w.parent _ q b = some p at hp
      rw [Function.update_of_ne hb] at hp
      have := hw.parent b p hp
      omega
  · exact hw.scopes
  · exact hw.root
  · exact fun entry he =>
      ⟨(hw.sinks entry he).1, fun f hf => ((hw.sinks entry he).2 f hf).ext e⟩
  · exact hw.children

/-- The site where a block that was made gets its parent. -/
def adopt (w : Site) (b q : BlockId) : Site :=
  { w with parent := Function.update w.parent b (some q) }

@[simp] theorem current_adopt : (w.adopt b c).current = w.current := rfl

theorem ext_adopt (h : w.parent b = none) : Ext w (w.adopt b c) where
  stream := .refl _
  parent a p hp := by
    have ha : a ≠ b := by
      rintro rfl
      rw [h] at hp
      cases hp
    exact (Function.update_of_ne ha (some c) w.parent).trans hp
  scopes := .refl _
  vars _ _ := id
  root := rfl
  base := rfl
  sinks _ _ sink h := ⟨sink, h, rfl⟩

theorem Shape.adopt (hw : w.Shape) (hb : w.pending b) (h : w.parent b = none) :
    (w.adopt b c).Shape := by
  have e : Ext w (w.adopt b c) := ext_adopt h
  obtain ⟨-, hentry, hlt, -⟩ := hw.pending b hb
  constructor
  · constructor
    · exact hw.laid.coherent
    · exact hw.laid.run
    · exact (Function.update_of_ne hentry.symm (some c) w.parent).trans hw.laid.entry
    · exact fun i x hx t ht => Target.ext (hw.laid.targets i x hx t ht) e
    · exact fun i x hx => (hw.laid.reads i x hx).mono e.stream e.parent
  · exact hw.tail
  · exact hw.pending
  · exact hw.settled
  · intro a p hp
    by_cases ha : a = b
    · exact ha ▸ hlt
    · change Function.update w.parent b (some c) a = some p at hp
      rw [Function.update_of_ne ha] at hp
      exact hw.parent a p hp
  · exact hw.scopes
  · exact hw.root
  · exact fun entry he =>
      ⟨(hw.sinks entry he).1, fun f hf => ((hw.sinks entry he).2 f hf).ext e⟩
  · exact hw.children

/-- The site where the lowering goes on in a block that was made. -/
def goto (w : Site) (t : BlockId) : Site :=
  { w with
    state := { w.state with stream := w.state.stream.goto t }
    pending := fun b => w.pending b ∧ b ≠ t }

theorem ext_goto : Ext w (w.goto t) :=
  ⟨⟨fun _ _ => id, Nat.le_refl _⟩, fun _ _ => id, .refl _, fun _ _ => id, rfl, rfl,
    fun _ _ sink h => ⟨sink, h, rfl⟩⟩

theorem Shape.goto (hw : w.Shape) (hends : w.state.stream.Ends w.current) (ht : w.pending t) :
    (w.goto t).Shape := by
  obtain ⟨hne, hentry, hlt, hnil⟩ := hw.pending t ht
  constructor
  · exact ⟨hw.laid.coherent.goto hlt, hw.laid.run, hw.laid.entry, hw.laid.targets,
      hw.laid.reads⟩
  · -- The block is empty, so no instruction is the first of it.
    intro i j hij hj hi
    obtain ⟨x, hx, hxt⟩ := Option.map_eq_some_iff.1 hi
    have : x ∈ w.state.stream.instsIn t := by
      refine List.mem_filter.2 ⟨?_, decide_eq_true hxt⟩
      have hx : w.state.stream.insts[i]? = some x := hx
      exact List.mem_of_getElem? (by simpa using hx)
    rw [hnil] at this
    cases this
  · rintro b ⟨hb, hbt⟩
    obtain ⟨-, hentry, hlt, hnil⟩ := hw.pending b hb
    exact ⟨hbt, hentry, hlt, hnil⟩
  · intro b hlt hbt hp
    by_cases hb : b = w.current
    · exact hb ▸ hends
    · exact hw.settled b hlt hb fun h => hp ⟨h, hbt⟩
  · exact hw.parent
  · exact hw.scopes
  · exact hw.root
  · exact hw.sinks
  · exact hw.children

/-! ### Steps on scopes and sinks -/

/-- A change of what has no part in control flow. -/
theorem Shape.quiet (hw : w.Shape) {state : State} (h : Quiet w.state state) :
    Shape { w with state } ∧ Ext w { w with state } := by
  obtain ⟨scopes, stream, calls, root, deferred, sinks, failedVars, nameHint, nodesMade, log⟩ :=
    state
  obtain ⟨rfl, rfl, rfl, rfl, rfl, rfl⟩ := h
  exact ⟨⟨hw.laid, hw.tail, hw.pending, hw.settled, hw.parent, hw.scopes, hw.root, hw.sinks,
    hw.children⟩, ⟨.refl _, fun _ _ => id, .refl _, fun _ _ => id, rfl, rfl,
      fun _ _ sink h => ⟨sink, h, rfl⟩⟩⟩

/-- A warning is recorded. -/
theorem Shape.addWarning (hw : w.Shape) (m : Message) :
    Shape { w with state := { w.state with stream := w.state.stream.addWarning m } } :=
  ⟨⟨hw.laid.coherent.addWarning m, hw.laid.run, hw.laid.entry, hw.laid.targets, hw.laid.reads⟩,
    hw.tail, hw.pending, hw.settled, hw.parent, hw.scopes, hw.root, hw.sinks, hw.children⟩

theorem ext_addWarning (m : Message) :
    Ext w { w with state := { w.state with stream := w.state.stream.addWarning m } } :=
  ⟨⟨fun _ _ => id, Nat.le_refl _⟩, fun _ _ => id, .refl _, fun _ _ => id, rfl, rfl,
    fun _ _ sink h => ⟨sink, h, rfl⟩⟩

/-- The site after scopes were opened or variables declared. -/
def withScopes (w : Site) (scopes : ScopeTree) : Site :=
  { w with state := { w.state with scopes } }

theorem ext_withScopes {scopes : ScopeTree} (h : w.state.scopes.Grows scopes)
    (hvars : ∀ (i : Nat) (x : Variable), w.state.scopes.vars[i]? = some x →
      scopes.vars[i]? = some x) : Ext w (w.withScopes scopes) :=
  ⟨.refl _, fun _ _ => id, h, hvars, rfl, rfl, fun _ _ sink h => ⟨sink, h, rfl⟩⟩

theorem Shape.withScopes (hw : w.Shape) {scopes : ScopeTree} (h : w.state.scopes.Grows scopes)
    (hs : scopes.WellFormed) : (w.withScopes scopes).Shape where
  laid := hw.laid
  tail := hw.tail
  pending := hw.pending
  settled := hw.settled
  parent := hw.parent
  scopes := hs
  root := by
    obtain ⟨x, hx, hk⟩ := hw.root
    obtain ⟨x', hx', -, -, hk'⟩ := h _ x hx
    exact ⟨x', hx', by rw [hk', hk]⟩
  sinks entry he :=
    ⟨Nat.lt_of_lt_of_le (hw.sinks entry he).1 h.size_le, (hw.sinks entry he).2⟩
  children := hw.children

theorem Shape.root_lt (hw : w.Shape) : w.state.streamRoot.index < w.state.scopes.scopes.size := by
  obtain ⟨x, hx, -⟩ := hw.root
  exact (Array.getElem?_eq_some_iff.1 hx).1

/-- The sinks belong to scopes that are there. -/
theorem Shape.lookup_eq_none (hw : w.Shape) (h : w.state.scopes.scopes.size ≤ scope.index) :
    w.state.sinks.lookup scope = none := by
  cases hl : w.state.sinks.lookup scope with
  | none => rfl
  | some sink =>
    obtain ⟨l₁, l₂, hl, -⟩ := List.lookup_eq_some_iff.1 hl
    have := (hw.sinks (scope, sink) (by simp [hl])).1
    simp at this
    omega

variable {kind : ScopeKind}

/-- The site after a scope was opened that can be left early, with its sink. -/
def withTarget (w : Site) (scope : ScopeId) (kind : ScopeKind) (loc : ResultLoc) : Site :=
  { w with
    state := { w.state with
      scopes := (w.state.scopes.openUnder scope kind).2
      sinks := (⟨w.state.scopes.scopes.size⟩, ⟨loc, []⟩) :: w.state.sinks } }

theorem lookup_withTarget {x : ScopeId} (hx : x.index < w.state.scopes.scopes.size) :
    (w.withTarget scope kind loc).state.sinks.lookup x = w.state.sinks.lookup x := by
  have : x ≠ ⟨w.state.scopes.scopes.size⟩ := fun h => Nat.lt_irrefl _ (h ▸ hx)
  simp only [withTarget, List.lookup_cons, beq_eq_false_iff_ne.2 this]

theorem ext_withTarget : Ext w (w.withTarget scope kind loc) where
  stream := .refl _
  parent _ _ := id
  scopes := ScopeTree.grows_openUnder scope kind
  vars _ _ := id
  root := rfl
  base := rfl
  sinks x hx sink h := ⟨sink, by rwa [lookup_withTarget hx] at h, rfl⟩

theorem Shape.withTarget (hw : w.Shape) (hs : scope.index < w.state.scopes.scopes.size) :
    (w.withTarget scope kind loc).Shape := by
  have h := hw.withScopes (ScopeTree.grows_openUnder scope kind) (hw.scopes.openUnder hs)
  refine ⟨h.laid, h.tail, h.pending, h.settled, h.parent, h.scopes, h.root, ?_, h.children⟩
  intro entry he
  rcases List.mem_cons.1 he with rfl | he
  · exact ⟨by simp [Site.withTarget], nofun⟩
  · exact h.sinks entry he

/-- The site after a change of the sinks. -/
def withSinks (w : Site) (sinks : List (ScopeId × BreakSink)) : Site :=
  { w with state := { w.state with sinks } }

theorem ext_withSinks {sinks : List (ScopeId × BreakSink)}
    (h : ∀ scope sink', sinks.lookup scope = some sink' →
      ∃ sink, w.state.sinks.lookup scope = some sink ∧ sink'.resultLoc = sink.resultLoc) :
    Ext w (w.withSinks sinks) :=
  ⟨.refl _, fun _ _ => id, .refl _, fun _ _ => id, rfl, rfl, fun scope _ => h scope⟩

theorem Shape.withSinks (hw : w.Shape) {sinks : List (ScopeId × BreakSink)}
    (h : ∀ entry ∈ sinks, entry.1.index < w.state.scopes.scopes.size ∧
      ∀ f ∈ entry.2.incoming, w.Avail f.1 f.2) : (w.withSinks sinks).Shape :=
  ⟨hw.laid, hw.tail, hw.pending, hw.settled, hw.parent, hw.scopes, hw.root, h, hw.children⟩

/-! ### Whole streams -/

/-- The site at the start of a stream. -/
def start (state : State) : Site :=
  ⟨state, fun _ => none, fun _ => False, state.scopes.vars.size⟩

theorem shape_start {state : State} {name : String} {isInline : Bool}
    (hstream : state.stream = Stream.new name isInline) (hsinks : state.sinks = [])
    (hscopes : state.scopes.WellFormed)
    (hroot : ∃ x, state.scopes.scope? state.streamRoot = some x ∧ exits x.kind = []) :
    (start state).Shape := by
  have hc := hstream ▸ Stream.coherent_new name isInline
  have hinsts : state.stream.insts = #[] := hstream ▸ rfl
  have hblocks : state.stream.blocks.size = 1 := hstream ▸ rfl
  have hcur : state.stream.currentBlock = .entry := hstream ▸ rfl
  have hnone : ∀ i x, state.stream.inst? i ≠ some x := by simp [Stream.inst?, hinsts]
  constructor
  · exact ⟨hc, by simp [blockAt, start, hinsts], rfl, fun i x h => absurd h (hnone i x),
      fun i x h => absurd h (hnone i x)⟩
  · simp [start, hinsts]
  · rintro b ⟨⟩
  · rintro ⟨i⟩ hlt hne -
    refine absurd ?_ hne
    have : i = 0 := by
      simp only [start, hblocks] at hlt
      omega
    rw [this]
    exact hcur.symm
  · rintro b q ⟨⟩
  · exact hscopes
  · exact hroot
  · simp [start, hsinks]
  · simp [start, hstream, Stream.new]

/-- When every block has been gone to, and the last one has an end, the graph is closed. -/
theorem Shape.closed (hw : w.Shape) (hp : ∀ b, ¬ w.pending b)
    (hends : w.state.stream.Ends w.current) : w.state.stream.Closed := by
  refine hw.laid.closed fun b hb => ?_
  by_cases h : b = w.current
  · exact h ▸ hends
  · exact hw.settled b hb h (hp b)

/-- A closed stream, and the streams inside it. -/
theorem Shape.parts (hw : w.Shape) (h : w.state.stream.Closed) :
    ∀ t, PartOf t w.state.stream → t.Closed ∧ t.IsSSA := by
  intro t ht
  cases ht with
  | self => exact ⟨h, hw.laid.isSSA⟩
  | child hc ht => exact hw.children _ hc t ht

/-- The site around a child stream, after the child is done. -/
def withChild (w : Site) (inner : State) (log : Array Event) : Site :=
  { w with
    state := { inner with
      stream := (w.state.stream.addChild inner.stream).2
      streamRoot := w.state.streamRoot
      sinks := w.state.sinks
      log } }

theorem ext_withChild {inner : State} {log : Array Event}
    (hscopes : w.state.scopes.Grows inner.scopes)
    (hvars : ∀ (i : Nat) (x : Variable), w.state.scopes.vars[i]? = some x →
      inner.scopes.vars[i]? = some x) : Ext w (w.withChild inner log) := by
  refine ⟨?_, fun _ _ => id, hscopes, hvars, rfl, rfl, fun _ _ sink h => ⟨sink, h, rfl⟩⟩
  rw [withChild, Stream.addChild_eq]
  exact ⟨fun _ _ => id, Nat.le_refl _⟩

theorem current_withChild {inner : State} {log : Array Event} :
    (w.withChild inner log).current = w.current := by
  rw [current, withChild, Stream.addChild_eq]

/-- A child stream that was empty is done, and the instruction that evaluates it is appended. -/
theorem declaresInside_evaluating {w₀ w₁ : Site} {location : Option Location}
    {isComptime isGen : Bool} {log log' : Array Event} {k : Nat} (h : DeclaresInside w₀ w₁)
    (hinsts : w₀.state.stream.insts = #[]) (hchildren : w₀.state.stream.children = [])
    (hscopes : w₀.state.scopes = w.state.scopes) :
    DeclaresInside w ((w.withChild w₁.state log).withNext (.comptimeBlock k) scope location
      isComptime isGen log') where
  here i x hi hx hk := by
    have hi : (w.withChild w₁.state log).state.stream.insts.size ≤ i.index := by
      rwa [Site.withChild, Stream.addChild_eq]
    obtain ⟨hkind, -, -⟩ := inst?_withNext_of_le hi hx
    rw [hkind] at hk
    cases hk
  nested c hc hnew d hd := by
    have hc : c ∈ (w.withChild w₁.state log).state.stream.children := hc
    rw [Site.withChild, Stream.addChild_eq] at hc
    rcases List.mem_append.1 hc with hc | hc
    · exact absurd hc hnew
    · rw [List.mem_singleton.1 hc] at hd
      exact hscopes ▸ h.decls hinsts hchildren d hd

theorem Shape.withChild (hw : w.Shape) {inner : State} {log : Array Event}
    (hscopes : w.state.scopes.Grows inner.scopes) (hwf : inner.scopes.WellFormed)
    (hchild : ∀ t, PartOf t inner.stream → t.Closed ∧ t.IsSSA) :
    (w.withChild inner log).Shape := by
  have hc := hw.laid.coherent.addChild inner.stream
  have h := hw.withScopes hscopes hwf
  simp only [Site.withChild]
  rw [Stream.addChild_eq] at hc ⊢
  refine ⟨⟨hc, hw.laid.run, hw.laid.entry, hw.laid.targets, hw.laid.reads⟩, hw.tail, hw.pending,
    hw.settled, hw.parent, hwf, h.root, h.sinks, ?_⟩
  intro c hc t ht
  rcases List.mem_append.1 hc with hc | hc
  · exact hw.children c hc t ht
  · rw [List.mem_singleton.1 hc] at ht
    exact hchild t ht

end Site

end SourceIr.Lower
