import Mathlib.Logic.Relation
import SourceIr.Proofs.Stream.Coherent

/-!
# The control-flow graph of a stream

The blocks of a stream are the nodes of a graph, and every branch is an edge.  A parent for each
block makes a tree; where each edge goes from below the parent of its target, the blocks above a
block dominate it.

* `Stream.Edge`, `Stream.Path`, `Stream.Dominates`;
* `Stream.Closed`, a graph that nothing leads out of, and `Stream.IsSSA`;
* `Stream.PartOf`, a stream and the streams of the compile-time blocks inside;
* `Stream.dominates_of_above`, `Stream.Laid`, the tree behind the two.
-/

namespace SourceIr

/-- Whether an instruction joins values. -/
def InstKind.isPhi : InstKind → Bool
  | .phi _ => true
  | _ => false

namespace Stream

variable {s : Stream}

/-- A block lists an instruction. -/
def Lists (s : Stream) (b : BlockId) (i : InstId) : Prop :=
  ∃ k, s.block? b = some k ∧ i ∈ k.insts.toList

/-- One instruction comes before another in the list of a block. -/
def Precedes (s : Stream) (b : BlockId) (i j : InstId) : Prop :=
  ∃ k, s.block? b = some k ∧ [i, j].Sublist k.insts.toList

/-- An instruction of one block may go on to another. -/
def Edge (s : Stream) (a b : BlockId) : Prop :=
  ∃ i x, s.Lists a i ∧ s.inst? i = some x ∧ b ∈ x.kind.targets

/-- A path from the entry to a block, with the blocks on it. -/
inductive Path (s : Stream) : BlockId → List BlockId → Prop
  | entry : Path s .entry [.entry]
  | step {a b : BlockId} {l : List BlockId} : Path s a l → s.Edge a b → Path s b (b :: l)

/-- Every path from the entry to `b` goes through `a`. -/
def Dominates (s : Stream) (a b : BlockId) : Prop := ∀ l, s.Path b l → a ∈ l

/-- A stream and the streams of the compile-time blocks inside it. -/
inductive PartOf : Stream → Stream → Prop
  | self (s : Stream) : PartOf s s
  | child {t c s : Stream} : c ∈ s.children → PartOf t c → PartOf t s

/-- Every block ends, every branch leads to a block of the stream, and the blocks share out the
instructions, each a contiguous run of them. -/
structure Closed (s : Stream) : Prop where
  ends : ∀ k ∈ s.blocks.toList, ∃ i x, k.insts.toList.getLast? = some i ∧ s.inst? i = some x ∧
    x.kind.isNoreturn
  targets : ∀ x ∈ s.insts.toList, ∀ b ∈ x.kind.targets, ∃ k ∈ s.blocks.toList, k.id = b
  run : ∀ k ∈ s.blocks.toList, ∃ start,
    k.insts.toList = (List.range' start k.insts.size).map InstId.mk
  block : ∀ i x, s.inst? i = some x → x.id = i ∧ ∃ k ∈ s.blocks.toList, k.id = x.block ∧
    i ∈ k.insts.toList ∧ ∀ k' ∈ s.blocks.toList, i ∈ k'.insts.toList → k' = k

/-- Every operand is computed on every way to its use; a value that arrives at a join is computed
on every way to the block it arrives from. -/
structure IsSSA (s : Stream) : Prop where
  operand : ∀ b i x, s.Lists b i → s.inst? i = some x → x.kind.isPhi = false →
    ∀ d ∈ x.kind.operands, ∃ a, s.Lists a d ∧
      (a = b ∧ s.Precedes b d i ∨ a ≠ b ∧ s.Dominates a b)
  incoming : ∀ b i x l, s.Lists b i → s.inst? i = some x → x.kind = .phi l →
    ∀ f ∈ l, ∃ a, s.Lists a f.2 ∧ s.Dominates a f.1

/-! ### The lists of coherent streams -/

theorem Coherent.inst? (hs : s.Coherent) {i : InstId} {x : Inst} (h : s.inst? i = some x) :
    x.id = i := (hs.inst _ x h).1

theorem Coherent.block? (hs : s.Coherent) {b : BlockId} {k : BasicBlock}
    (h : s.block? b = some k) : k.id = b ∧ k.insts.toList = (s.instsIn b).map (·.id) :=
  hs.block _ k h

/-- A block lists the instructions that are made for it. -/
theorem Coherent.lists_iff (hs : s.Coherent) {b : BlockId} {i : InstId} :
    s.Lists b i ↔ ∃ x, s.inst? i = some x ∧ x.block = b := by
  constructor
  · rintro ⟨k, hk, hi⟩
    rw [(hs.block? hk).2] at hi
    obtain ⟨x, hx, rfl⟩ := List.mem_map.1 hi
    obtain ⟨hx, hb⟩ := List.mem_filter.1 hx
    obtain ⟨n, hn⟩ := List.mem_iff_getElem?.1 hx
    have hn' : s.insts[n]? = some x := by simpa using hn
    refine ⟨x, ?_, of_decide_eq_true hb⟩
    rw [(hs.inst n x hn').1]
    exact hn'
  · rintro ⟨x, hx, rfl⟩
    obtain ⟨-, hb, -⟩ := hs.inst _ x hx
    have hk : s.block? x.block = some s.blocks[x.block.index] := by simp [Stream.block?, hb]
    refine ⟨_, hk, ?_⟩
    rw [(hs.block? hk).2]
    refine List.mem_map.2 ⟨x, List.mem_filter.2 ⟨?_, by simp⟩, hs.inst? hx⟩
    have hx' : s.insts[i.index]? = some x := hx
    exact List.mem_of_getElem? (by simpa using hx')

theorem Coherent.edge_iff (hs : s.Coherent) {a b : BlockId} :
    s.Edge a b ↔ ∃ i x, s.inst? i = some x ∧ x.block = a ∧ b ∈ x.kind.targets := by
  constructor
  · rintro ⟨i, x, hl, hx, hb⟩
    obtain ⟨y, hy, rfl⟩ := hs.lists_iff.1 hl
    cases hx.symm.trans hy
    exact ⟨i, x, hx, rfl, hb⟩
  · rintro ⟨i, x, hx, rfl, hb⟩
    exact ⟨i, x, hs.lists_iff.2 ⟨x, hx, rfl⟩, hx, hb⟩

/-! ### Dominance from a tree -/

/-- A block is above another one in a tree, or the same. -/
def Above (parent : BlockId → Option BlockId) : BlockId → BlockId → Prop :=
  Relation.ReflTransGen fun a b => parent b = some a

variable {parent : BlockId → Option BlockId}

/-- Where every edge starts below the parent of its target, the blocks above a block dominate
it. -/
theorem dominates_of_above (hentry : parent .entry = none)
    (hedge : ∀ a b, s.Edge a b → ∃ q, parent b = some q ∧ Above parent q a) {a b : BlockId}
    (h : Above parent a b) : s.Dominates a b := by
  intro l hl
  induction hl generalizing a with
  | entry =>
    rcases Relation.ReflTransGen.cases_tail h with rfl | ⟨q, -, hq⟩
    · exact List.mem_singleton_self _
    · rw [hentry] at hq
      cases hq
  | @step p b l _ he ih =>
    obtain ⟨q, hq, hqp⟩ := hedge p b he
    rcases Relation.ReflTransGen.cases_tail h with rfl | ⟨q', haq, hq'⟩
    · exact List.mem_cons_self
    · rw [hq] at hq'
      cases hq'
      exact List.mem_cons_of_mem b (ih (haq.trans hqp))

/-! ### Contiguous runs -/

/-- The block of the instruction at a position. -/
def blockAt (s : Stream) (i : Nat) : Option BlockId := (s.insts[i]?).map (·.block)

/-- Where a property is lost for good, the elements that have it are the first ones. -/
theorem filter_eq_takeWhile {α : Type} {p : α → Bool} {l : List α}
    (h : ∀ (i j : Nat) (x y : α), i ≤ j → l[i]? = some x → l[j]? = some y → p y → p x) :
    l.filter p = l.takeWhile p := by
  induction l with
  | nil => rfl
  | cons x l ih =>
    have ih := ih fun i j y z hij hy hz => h (i + 1) (j + 1) y z (by omega) (by simpa) (by simpa)
    by_cases hx : p x
    · simp [hx, ih]
    · have : ∀ y ∈ l, ¬ p y := fun y hy hpy => by
        obtain ⟨j, hj⟩ := List.mem_iff_getElem?.1 hy
        exact hx (h 0 (j + 1) x y (by omega) rfl (by simpa) hpy)
      rw [List.filter_cons_of_neg hx, List.takeWhile_cons_of_neg hx, List.filter_eq_nil_iff]
      exact this

/-- A contiguous part of a list. -/
theorem filter_eq_take_drop {α : Type} {p : α → Bool} {l : List α}
    (h : ∀ (i j k : Nat) (x y z : α), i ≤ j → j ≤ k → l[i]? = some x → l[j]? = some y →
      l[k]? = some z → p x → p z → p y) : ∃ m n, l.filter p = (l.drop m).take n := by
  induction l with
  | nil => exact ⟨0, 0, rfl⟩
  | cons x l ih =>
    by_cases hx : p x
    · refine ⟨0, ((x :: l).takeWhile p).length, ?_⟩
      rw [List.drop_zero, filter_eq_takeWhile]
      · exact (List.prefix_iff_eq_take.1 (List.takeWhile_prefix p))
      · exact fun i j y z hij hy hz hpz => h 0 i j x y z (by omega) hij rfl hy hz hx hpz
    · obtain ⟨m, n, hmn⟩ := ih fun i j k x y z hij hjk hx hy hz =>
        h (i + 1) (j + 1) (k + 1) x y z (by omega) (by omega) (by simpa) (by simpa) (by simpa)
      exact ⟨m + 1, n, by simp [hx, hmn]⟩

theorem Coherent.map_id (hs : s.Coherent) :
    s.insts.toList.map (·.id) = (List.range' 0 s.insts.size).map InstId.mk := by
  apply List.ext_getElem?
  intro i
  by_cases hi : i < s.insts.size
  · have hx : s.insts.toList[i]? = some s.insts[i] := by simp [hi]
    have := (hs.inst i s.insts[i] (by simp [hi])).1
    simp [this, hi]
  · simp [hi]

/-- A block lists earlier instructions first. -/
theorem Coherent.pairwise_insts (hs : s.Coherent) {b : BlockId} {k : BasicBlock}
    (hk : s.block? b = some k) : k.insts.toList.Pairwise (·.index < ·.index) := by
  rw [(hs.block? hk).2, instsIn]
  refine List.Pairwise.sublist (List.filter_sublist.map _) ?_
  rw [hs.map_id, List.pairwise_map]
  exact List.pairwise_lt_range'

/-- The list of a block is a run of handles, if the block has its instructions one after the
other. -/
theorem Coherent.exists_range' (hs : s.Coherent)
    (hrun : ∀ i j k b, i ≤ j → j ≤ k → s.blockAt i = some b → s.blockAt k = some b →
      s.blockAt j = some b) (b : BlockId) :
    ∃ start n, (s.instsIn b).map (·.id) = (List.range' start n).map InstId.mk := by
  obtain ⟨m, n, hmn⟩ := filter_eq_take_drop (p := fun x : Inst => decide (x.block = b))
    (l := s.insts.toList) (by
      intro i j k x y z hij hjk hx hy hz hpx hpz
      have at_ : ∀ {i x}, s.insts.toList[i]? = some x → s.blockAt i = some x.block := by
        intro i x h
        simp [blockAt, show s.insts[i]? = some x by simpa using h]
      have hbx := at_ hx
      have hbz := at_ hz
      rw [of_decide_eq_true hpx] at hbx
      rw [of_decide_eq_true hpz] at hbz
      have := hrun i j k b hij hjk hbx hbz
      rw [at_ hy] at this
      exact decide_eq_true (Option.some.inj this))
  rw [instsIn, hmn, List.map_take, List.map_drop, hs.map_id, ← List.map_drop, ← List.map_take,
    List.drop_range', Nat.zero_add, Nat.mul_one]
  rcases Nat.le_total n (s.insts.size - m) with h | h
  · exact ⟨m, n, by rw [List.take_range'_of_length_ge h]⟩
  · exact ⟨m, s.insts.size - m, by rw [List.take_range'_of_length_le h]⟩

/-! ### Streams that are laid out along a tree -/

/-- An instruction is there, in a block above `b`. -/
def Available (s : Stream) (parent : BlockId → Option BlockId) (b : BlockId) (v : InstId) : Prop :=
  ∃ x, s.inst? v = some x ∧ Above parent x.block b

/-- A branch from `b` may lead to a block. -/
def Targetable (s : Stream) (parent : BlockId → Option BlockId) (b t : BlockId) : Prop :=
  t.index < s.blocks.size ∧ ∃ q, parent t = some q ∧ Above parent q b

/-- An instruction in the block `b` may read what it reads. -/
def Readable (s : Stream) (parent : BlockId → Option BlockId) (b : BlockId) : InstKind → Prop
  | .phi l => ∀ f ∈ l, s.Available parent f.1 f.2
  | kind => ∀ d ∈ kind.operands, s.Available parent b d

/-- Instructions stay where they are, and blocks are only added. -/
structure Grows (s s' : Stream) : Prop where
  inst : ∀ i x, s.inst? i = some x → s'.inst? i = some x
  blocks : s.blocks.size ≤ s'.blocks.size

/-- The blocks above a block stay above it while blocks get parents. -/
def Extends (parent parent' : BlockId → Option BlockId) : Prop :=
  ∀ b q, parent b = some q → parent' b = some q

section Growth

variable {s' s'' : Stream} {parent' : BlockId → Option BlockId} {a b t : BlockId} {v : InstId}

theorem Grows.refl (s : Stream) : s.Grows s := ⟨fun _ _ => id, Nat.le_refl _⟩

theorem Grows.trans (h : s.Grows s') (h' : s'.Grows s'') : s.Grows s'' :=
  ⟨fun i x hx => h'.inst i x (h.inst i x hx), Nat.le_trans h.blocks h'.blocks⟩

/-- A block keeps its instructions while the stream grows. -/
theorem Grows.instsIn (h : s.Grows s') (b : BlockId) :
    s.instsIn b <+: s'.instsIn b := by
  refine List.IsPrefix.filter _ (List.prefix_iff_getElem?.2 fun i hi => ?_)
  have hx : s.inst? ⟨i⟩ = some s.insts[i] := Array.getElem?_eq_getElem hi
  simpa [inst?] using h.inst ⟨i⟩ _ hx

theorem grows_withNext {kind : InstKind} {scope : ScopeId} {location : Option Location}
    {isComptime isGen : Bool} : s.Grows (s.withNext kind scope location isComptime isGen) :=
  ⟨fun _ _ h => getElem?_withNext_of_some h, by simp⟩

theorem grows_newBlock {name : String} : s.Grows (s.newBlock name).2 :=
  ⟨fun _ _ => id, by simp [newBlock]⟩

theorem inst?_withNext {kind : InstKind} {scope : ScopeId} {location : Option Location}
    {isComptime isGen : Bool} (i : InstId) :
    (s.withNext kind scope location isComptime isGen).inst? i =
      if i.index = s.insts.size then
        some ⟨s.next, kind, s.currentBlock, scope, location, isComptime, isGen⟩
      else s.inst? i :=
  getElem?_withNext i.index

theorem blockAt_withNext {kind : InstKind} {scope : ScopeId} {location : Option Location}
    {isComptime isGen : Bool} (i : Nat) :
    (s.withNext kind scope location isComptime isGen).blockAt i =
      if i = s.insts.size then some s.currentBlock else s.blockAt i := by
  rw [blockAt, getElem?_withNext]
  split <;> rfl

theorem lt_of_blockAt {i : Nat} (h : s.blockAt i = some b) : i < s.insts.size := by
  obtain ⟨x, hx, -⟩ := Option.map_eq_some_iff.1 h
  exact (Array.getElem?_eq_some_iff.1 hx).1

theorem Readable.lt {kind : InstKind} (h : s.Readable parent b kind) :
    ∀ d ∈ kind.operands, d.index < s.insts.size := by
  have lt : ∀ {b d}, s.Available parent b d → d.index < s.insts.size := by
    rintro b d ⟨x, hx, -⟩
    exact (Array.getElem?_eq_some_iff.1 hx).1
  intro d hd
  cases kind with
  | phi l =>
    obtain ⟨f, hf, rfl⟩ := List.mem_map.1 hd
    exact lt (h f hf)
  | _ => exact lt (h d hd)

theorem Above.mono (hp : Extends parent parent') (h : Above parent a b) : Above parent' a b := by
  have step : ∀ a b, parent b = some a → parent' b = some a := fun a b => hp b a
  exact Relation.ReflTransGen.mono step a b h

theorem Available.mono (hs : s.Grows s') (hp : Extends parent parent')
    (h : s.Available parent b v) : s'.Available parent' b v := by
  obtain ⟨x, hx, hab⟩ := h
  exact ⟨x, hs.inst v x hx, hab.mono hp⟩

theorem Available.below (h : s.Available parent a v) (hab : Above parent a b) :
    s.Available parent b v := by
  obtain ⟨x, hx, hxa⟩ := h
  exact ⟨x, hx, hxa.trans hab⟩

theorem Targetable.mono (hs : s.Grows s') (hp : Extends parent parent')
    (h : s.Targetable parent b t) : s'.Targetable parent' b t := by
  obtain ⟨hlt, q, hq, hqb⟩ := h
  exact ⟨Nat.lt_of_lt_of_le hlt hs.blocks, q, hp t q hq, hqb.mono hp⟩

theorem Targetable.below (h : s.Targetable parent a t) (hab : Above parent a b) :
    s.Targetable parent b t := by
  obtain ⟨hlt, q, hq, hqa⟩ := h
  exact ⟨hlt, q, hq, hqa.trans hab⟩

theorem Readable.mono (hs : s.Grows s') (hp : Extends parent parent') {kind : InstKind}
    (h : s.Readable parent b kind) : s'.Readable parent' b kind := by
  cases kind with
  | phi l => exact fun f hf => (h f hf).mono hs hp
  | _ => exact fun d hd => (h d hd).mono hs hp

end Growth

/-- The blocks are laid out along a tree: branches lead to children of the blocks above, and
operands are computed above their use. -/
structure Laid (s : Stream) (parent : BlockId → Option BlockId) : Prop where
  coherent : s.Coherent
  run : ∀ i j k b, i ≤ j → j ≤ k → s.blockAt i = some b → s.blockAt k = some b →
    s.blockAt j = some b
  entry : parent .entry = none
  targets : ∀ i x, s.inst? i = some x → ∀ t ∈ x.kind.targets, s.Targetable parent x.block t
  reads : ∀ i x, s.inst? i = some x → s.Readable parent x.block x.kind

theorem Laid.dominates (h : s.Laid parent) {a b : BlockId} (hab : Above parent a b) :
    s.Dominates a b := by
  refine dominates_of_above h.entry (fun a b he => ?_) hab
  obtain ⟨i, x, hx, rfl, hb⟩ := h.coherent.edge_iff.1 he
  exact (h.targets i x hx b hb).2

/-- A value that is available is computed on every way. -/
theorem Available.dominates (h : s.Laid parent) {b : BlockId} {v : InstId}
    (hv : s.Available parent b v) : ∃ a, s.Lists a v ∧ s.Dominates a b := by
  obtain ⟨x, hx, hab⟩ := hv
  exact ⟨x.block, h.coherent.lists_iff.2 ⟨x, hx, rfl⟩, h.dominates hab⟩

/-- In a sorted list, the order of the elements is that of their handles. -/
theorem pair_sublist {l : List InstId} (hl : l.Pairwise (·.index < ·.index)) {i j : InstId}
    (hi : i ∈ l) (hj : j ∈ l) (hij : i.index < j.index) : [i, j].Sublist l := by
  induction l with
  | nil => cases hi
  | cons x l ih =>
    obtain ⟨hx, hl⟩ := List.pairwise_cons.1 hl
    rcases List.mem_cons.1 hi with rfl | hi
    · have hj : j ∈ l := (List.mem_cons.1 hj).resolve_left fun e => by
        rw [e] at hij
        exact Nat.lt_irrefl _ hij
      exact (List.singleton_sublist.2 hj).cons_cons i
    · have hj : j ∈ l := (List.mem_cons.1 hj).resolve_left fun e => by
        have := hx i hi
        rw [e] at hij
        omega
      exact (ih hl hi hj).cons x

/-- In the list of a block, instructions stand in the order of their handles. -/
theorem Laid.precedes (h : s.Laid parent) {b : BlockId} {i j : InstId} (hi : s.Lists b i)
    (hj : s.Lists b j) (hij : i.index < j.index) : s.Precedes b i j := by
  obtain ⟨k, hk, hi⟩ := hi
  obtain ⟨k', hk', hj⟩ := hj
  cases hk.symm.trans hk'
  exact ⟨k, hk, pair_sublist (h.coherent.pairwise_insts hk) hi hj hij⟩

theorem Laid.isSSA (h : s.Laid parent) : s.IsSSA where
  operand b i x hl hx hphi d hd := by
    obtain ⟨y, hy, rfl⟩ := h.coherent.lists_iff.1 hl
    cases hx.symm.trans hy
    have hread : ∀ d ∈ x.kind.operands, s.Available parent x.block d := by
      have := h.reads i x hx
      cases hk : x.kind <;> simp_all [InstKind.isPhi, Readable]
    obtain ⟨a, ha, hdom⟩ := (hread d hd).dominates h
    refine ⟨a, ha, ?_⟩
    by_cases hab : a = x.block
    · have := (h.coherent.inst _ x hx).2.2 d hd
      exact .inl ⟨hab, h.precedes (hab ▸ ha) hl this⟩
    · exact .inr ⟨hab, hdom⟩
  incoming b i x l hl hx hk f hf := by
    have := h.reads i x hx
    rw [hk] at this
    exact (this f hf).dominates h

/-- If every block ends, the graph is closed. -/
theorem Laid.closed (h : s.Laid parent) (hends : ∀ b, b.index < s.blocks.size → s.Ends b) :
    s.Closed := by
  have hc := h.coherent
  have at_ : ∀ k ∈ s.blocks.toList, s.block? k.id = some k ∧ k.id.index < s.blocks.size := by
    intro k hk
    obtain ⟨n, hn⟩ := List.mem_iff_getElem?.1 hk
    have hn : s.blocks[n]? = some k := by simpa using hn
    have hid := (hc.block n k hn).1
    exact ⟨by rw [hid]; exact hn, by rw [hid]; exact (Array.getElem?_eq_some_iff.1 hn).1⟩
  have mem : ∀ b, b.index < s.blocks.size → ∃ k ∈ s.blocks.toList, k.id = b ∧
      s.block? b = some k := by
    intro b hb
    have hk : s.block? b = some s.blocks[b.index] := by simp [Stream.block?, hb]
    exact ⟨_, by simp, (hc.block? hk).1, hk⟩
  constructor
  · intro k hk
    obtain ⟨hk, hlt⟩ := at_ k hk
    obtain ⟨x, hx, hn⟩ := hends k.id hlt
    refine ⟨x.id, x, ?_, ?_, hn⟩
    · rw [(hc.block? hk).2, List.getLast?_map, hx, Option.map_some]
    · have hmem : x ∈ s.insts.toList := (List.mem_filter.1 (List.mem_of_getLast? hx)).1
      obtain ⟨n, hn⟩ := List.mem_iff_getElem?.1 hmem
      have hn : s.insts[n]? = some x := by simpa using hn
      rw [(hc.inst n x hn).1]
      exact hn
  · intro x hx b hb
    obtain ⟨n, hn⟩ := List.mem_iff_getElem?.1 hx
    have hn : s.inst? ⟨n⟩ = some x := by simpa [Stream.inst?] using hn
    obtain ⟨k, hk, hid, -⟩ := mem b (h.targets _ x hn b hb).1
    exact ⟨k, hk, hid⟩
  · intro k hk
    obtain ⟨start, n, hr⟩ := hc.exists_range' h.run k.id
    have hl := (hc.block? (at_ k hk).1).2
    have hsize : k.insts.size = n := by
      rw [← Array.length_toList, hl, hr]
      simp
    exact ⟨start, by rw [hsize, hl, hr]⟩
  · intro i x hx
    obtain ⟨k, hk, hid, hkb⟩ := mem x.block (hc.inst _ x hx).2.1
    refine ⟨hc.inst? hx, k, hk, hid, ?_, ?_⟩
    · obtain ⟨k', hk', hi⟩ := hc.lists_iff.2 ⟨x, hx, rfl⟩
      cases hkb.symm.trans hk'
      exact hi
    · intro k' hk' hi
      obtain ⟨y, hy, hyb⟩ := hc.lists_iff.1 ⟨k', (at_ k' hk').1, hi⟩
      cases hx.symm.trans hy
      have := (at_ k' hk').1
      rw [← hyb, hkb] at this
      exact (Option.some.inj this).symm

end Stream

end SourceIr
