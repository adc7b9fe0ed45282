import SourceIr.Proofs.Stream.Graph

/-!
# Joins

The end of an `if`, a loop, a labelled block and the like is a block at which control comes
together.  It starts with the values that arrive there, one for each branch that leads to it.

* `Stream.IsJoin`, `Stream.arrivals`, the branches that lead to a block;
* `Stream.JoinsMatch`, the values at the start of a join are those of its branches;
* `Stream.Joining`, what holds of a stream in the middle of a lowering, and its preservation.
-/

namespace SourceIr

/-- Whether a name is that of the end of a construct, at which control comes together. -/
def isJoinName (name : String) : Bool := ".end".toList.isSuffixOf name.toList

/-- Whether a block is the end of a construct: the name of such a block says so. -/
def BasicBlock.isJoin (k : BasicBlock) : Bool := isJoinName k.name

namespace Stream

variable {s : Stream} {b : BlockId}

/-- A block is the end of a construct. -/
def IsJoin (s : Stream) (b : BlockId) : Prop := ∃ k, s.block? b = some k ∧ k.isJoin

/-- The blocks of the branches that lead to a block, one for each branch. -/
def arrivals (s : Stream) (b : BlockId) : List BlockId :=
  (s.insts.toList.filter fun x => decide (b ∈ x.kind.targets)).map (·.block)

/-- A block starts with an instruction. -/
def StartsWith (s : Stream) (b : BlockId) (i : InstId) : Prop :=
  ∃ k, s.block? b = some k ∧ k.insts.toList.head? = some i

/-- Values are joined at the start of a block only, and they are those of the branches that lead
there; a join that no branch leads to starts with what is never reached. -/
structure JoinsMatch (s : Stream) : Prop where
  phi : ∀ i x incoming, s.inst? i = some x → x.kind = .phi incoming →
    s.StartsWith x.block i ∧ (incoming.map (·.1)).Perm (s.arrivals x.block)
  unreached : ∀ b, s.IsJoin b → s.arrivals b = [] →
    ∃ i x, s.StartsWith b i ∧ s.inst? i = some x ∧ x.kind = .unreachable

/-- A join has not been started, and these values have been collected for it, one for each branch
that leads there. -/
structure Awaits (s : Stream) (b : BlockId) (incoming : List (BlockId × InstId)) : Prop where
  join : s.IsJoin b
  empty : s.instsIn b = []
  arrivals : incoming.map (·.1) = s.arrivals b

/-- An instruction starts a join at which these branches arrive. -/
def Starts (kind : InstKind) (arrivals : List BlockId) : Prop :=
  (∃ incoming, incoming ≠ [] ∧ kind = .phi incoming ∧ incoming.map (·.1) = arrivals) ∨
    kind = .unreachable ∧ arrivals = []

theorem Starts.targets_eq {kind : InstKind} {l : List BlockId} (h : Starts kind l) :
    kind.targets = [] := by
  rcases h with ⟨_, -, rfl, -⟩ | ⟨rfl, -⟩ <;> rfl

/-- What holds in the middle of a lowering: a join that has been started matches its branches, and
the lowering does not go on in one that has not. -/
structure Joining (s : Stream) : Prop where
  coherent : s.Coherent
  targets : ∀ x ∈ s.insts.toList, ∀ t ∈ x.kind.targets, t.index < s.blocks.size
  phi : ∀ b, ∀ x ∈ s.instsIn b, x.kind.isPhi → (s.instsIn b).head? = some x ∧ s.IsJoin b
  started : ∀ b x, s.IsJoin b → (s.instsIn b).head? = some x → Starts x.kind (s.arrivals b)
  current : s.IsJoin s.currentBlock → s.instsIn s.currentBlock ≠ []

/-- The first of the instructions of a block is the first that it lists. -/
theorem Coherent.startsWith (hs : s.Coherent) {x : Inst} (h : (s.instsIn b).head? = some x) :
    s.StartsWith b x.id ∧ s.inst? x.id = some x := by
  obtain ⟨hx, hb⟩ := List.mem_filter.1 (List.mem_of_head? h)
  obtain rfl := of_decide_eq_true hb
  obtain ⟨n, hn⟩ := List.mem_iff_getElem?.1 hx
  have hn : s.insts[n]? = some x := by simpa using hn
  obtain ⟨hid, hlt, -⟩ := hs.inst n x hn
  have hk : s.block? x.block = some s.blocks[x.block.index] := Array.getElem?_eq_getElem hlt
  refine ⟨⟨_, hk, ?_⟩, by rw [hid]; exact hn⟩
  rw [(hs.block? hk).2, List.head?_map, h]
  rfl

/-- When all joins have been started, they match their branches. -/
theorem Joining.joinsMatch (hs : s.Joining) (h : ∀ b, s.IsJoin b → s.instsIn b ≠ []) :
    s.JoinsMatch where
  phi i x incoming hi hk := by
    have hx : x ∈ s.instsIn x.block := by
      refine List.mem_filter.2 ⟨?_, by simp⟩
      have hi' : s.insts[i.index]? = some x := hi
      exact List.mem_of_getElem? (by simpa using hi')
    obtain ⟨hhead, hb⟩ := hs.phi x.block x hx (by rw [hk]; rfl)
    refine ⟨hs.coherent.inst? hi ▸ (hs.coherent.startsWith hhead).1, ?_⟩
    rcases hs.started x.block x hb hhead with ⟨incoming', -, hk', harr⟩ | ⟨hk', -⟩
    · rw [hk] at hk'
      cases hk'
      rw [harr]
    · rw [hk] at hk'
      cases hk'
  unreached b hb harr := by
    obtain ⟨x, rest, hx⟩ := List.exists_cons_of_ne_nil (h b hb)
    have hhead : (s.instsIn b).head? = some x := by rw [hx, List.head?_cons]
    obtain ⟨hstart, hinst⟩ := hs.coherent.startsWith hhead
    refine ⟨x.id, x, hstart, hinst, ?_⟩
    rcases hs.started b x hb hhead with ⟨incoming, hne, -, hmap⟩ | ⟨hk, -⟩
    · rw [harr, List.map_eq_nil_iff] at hmap
      exact absurd hmap hne
    · exact hk

/-! ### Names of blocks -/

/-- What follows a word decides whether a name is that of a join. -/
theorem isJoinName_append (word : String) {rest : String} (h : 4 ≤ rest.toList.length) :
    isJoinName (word ++ rest) = isJoinName rest := by
  have hl : ".end".toList.length ≤ rest.toList.length := h
  rw [Bool.eq_iff_iff, isJoinName, isJoinName, String.toList_append, List.isSuffixOf_iff_suffix,
    List.isSuffixOf_iff_suffix]
  constructor
  · exact fun hs => List.suffix_of_suffix_length_le hs (List.suffix_append _ _) hl
  · exact fun hs => hs.trans (List.suffix_append _ _)

section Blocks

variable {kind : InstKind} {scope : ScopeId} {location : Option Location} {isComptime isGen : Bool}
  {name : String}

theorem IsJoin.lt (h : s.IsJoin b) : b.index < s.blocks.size := by
  obtain ⟨k, hk, -⟩ := h
  exact (Array.getElem?_eq_some_iff.1 hk).1

@[simp] theorem isJoin_withNext :
    (s.withNext kind scope location isComptime isGen).IsJoin b ↔ s.IsJoin b := by
  simp only [IsJoin, block?, withNext, Array.getElem?_modify]
  split
  · constructor
    · rintro ⟨k, hk, hj⟩
      obtain ⟨k₀, hk₀, rfl⟩ := Option.map_eq_some_iff.1 hk
      exact ⟨k₀, hk₀, hj⟩
    · rintro ⟨k, hk, hj⟩
      exact ⟨withInst s.next k, by rw [hk]; rfl, hj⟩
  · rfl

@[simp] theorem isJoin_goto {c : BlockId} : (s.goto c).IsJoin b ↔ s.IsJoin b := Iff.rfl

/-- A block that was there is a join as before. -/
theorem isJoin_newBlock (h : b.index < s.blocks.size) :
    (s.newBlock name).2.IsJoin b ↔ s.IsJoin b := by
  simp only [IsJoin, block?, newBlock, Array.getElem?_push, if_neg (Nat.ne_of_lt h)]

theorem isJoin_newBlock_self :
    (s.newBlock name).2.IsJoin ⟨s.blocks.size⟩ ↔ isJoinName name := by
  simp [IsJoin, block?, newBlock, BasicBlock.isJoin]

/-! ### Arrivals -/

theorem arrivals_withNext :
    (s.withNext kind scope location isComptime isGen).arrivals b =
      if b ∈ kind.targets then s.arrivals b ++ [s.currentBlock] else s.arrivals b := by
  simp only [arrivals, withNext, Array.toList_push, List.filter_append, List.map_append]
  split <;> simp [*]

theorem arrivals_withNext_of_notMem (h : b ∉ kind.targets) :
    (s.withNext kind scope location isComptime isGen).arrivals b = s.arrivals b := by
  rw [arrivals_withNext, if_neg h]

/-- No branch leads to a block that is not there. -/
theorem Joining.arrivals_eq_nil (hs : s.Joining) (hb : s.blocks.size ≤ b.index) :
    s.arrivals b = [] := by
  rw [arrivals, List.map_eq_nil_iff, List.filter_eq_nil_iff]
  intro x hx hxb
  have := hs.targets x hx b (of_decide_eq_true hxb)
  omega

/-- A block that something is in starts as it did. -/
theorem head?_instsIn_withNext {x : Inst} (h : (s.instsIn b).head? = some x) :
    ((s.withNext kind scope location isComptime isGen).instsIn b).head? = some x := by
  rw [instsIn_withNext]
  split
  · rw [List.head?_append, h]
    rfl
  · exact h

end Blocks

/-! ### The operations -/

theorem joining_new (name : String) (isInline : Bool) : (new name isInline).Joining where
  coherent := coherent_new name isInline
  targets := by simp [new]
  phi := by simp [instsIn, new]
  started := by simp [instsIn, new]
  current := by
    rintro ⟨k, hk, hj⟩
    obtain rfl : (⟨.entry, "entry", #[]⟩ : BasicBlock) = k := Option.some.inj hk
    exact absurd hj (by decide)

section Steps

variable {kind : InstKind} {scope : ScopeId} {location : Option Location} {isComptime isGen : Bool}

/-- An instruction that joins no values may be appended if it leads to no join that has been
started. -/
theorem Joining.withNext (hs : s.Joining) (hd : ∀ d ∈ kind.operands, d.index < s.insts.size)
    (hk : kind.isPhi = false)
    (ht : ∀ t ∈ kind.targets, t.index < s.blocks.size ∧ (s.IsJoin t → s.instsIn t = [])) :
    (s.withNext kind scope location isComptime isGen).Joining where
  coherent := hs.coherent.withNext hd
  targets x hx t hxt := by
    rw [withNext_size_blocks]
    simp only [Stream.withNext, Array.toList_push, List.mem_append, List.mem_singleton] at hx
    rcases hx with hx | rfl
    · exact hs.targets x hx t hxt
    · exact (ht t hxt).1
  phi b x hx hphi := by
    have hold : x ∈ s.instsIn b := by
      rw [instsIn_withNext] at hx
      split at hx
      · rcases List.mem_append.1 hx with hx | hx
        · exact hx
        · rw [List.mem_singleton.1 hx, hk] at hphi
          cases hphi
      · exact hx
    obtain ⟨hhead, hb⟩ := hs.phi b x hold hphi
    exact ⟨head?_instsIn_withNext hhead, isJoin_withNext.2 hb⟩
  started b x hb hx := by
    rw [isJoin_withNext] at hb
    have hne : s.instsIn b ≠ [] := by
      intro hnil
      rw [instsIn_withNext] at hx
      split at hx
      next hcur => exact hs.current (hcur ▸ hb) (hcur ▸ hnil)
      next => simp [hnil] at hx
    obtain ⟨y, rest, hy⟩ := List.exists_cons_of_ne_nil hne
    have hhead : (s.instsIn b).head? = some y := by rw [hy, List.head?_cons]
    obtain rfl := Option.some.inj (hx.symm.trans (head?_instsIn_withNext hhead))
    rw [arrivals_withNext_of_notMem fun hmem => hne ((ht b hmem).2 hb)]
    exact hs.started b x hb hhead
  current hb := by
    rw [withNext_currentBlock, instsIn_withNext, if_pos rfl]
    simp

/-- A join is started with what joins the values that arrive there. -/
theorem Joining.start (hs : s.Joining) (hb : s.IsJoin b) (hnil : s.instsIn b = [])
    (hd : ∀ d ∈ kind.operands, d.index < s.insts.size) (hk : Starts kind (s.arrivals b)) :
    ((s.goto b).withNext kind scope location isComptime isGen).Joining := by
  have harr : ∀ c, ((s.goto b).withNext kind scope location isComptime isGen).arrivals c =
      s.arrivals c := fun c => by
    rw [arrivals_withNext_of_notMem (by simp [hk.targets_eq])]
    rfl
  have hinsts : ∀ c, ((s.goto b).withNext kind scope location isComptime isGen).instsIn c =
      if b = c then [⟨s.next, kind, b, scope, location, isComptime, isGen⟩] else s.instsIn c := by
    intro c
    rw [instsIn_withNext]
    change (if b = c then s.instsIn c ++ _ else s.instsIn c) = _
    split
    next h => rw [← h, hnil]; rfl
    next => rfl
  constructor
  · exact (hs.coherent.goto hb.lt).withNext hd
  · intro x hx t hxt
    rw [withNext_size_blocks]
    simp only [Stream.withNext, Array.toList_push, List.mem_append, List.mem_singleton] at hx
    rcases hx with hx | rfl
    · exact hs.targets x hx t hxt
    · simp [hk.targets_eq] at hxt
  · intro c x hx hphi
    rw [hinsts] at hx ⊢
    rw [isJoin_withNext, isJoin_goto]
    split at hx
    next h =>
      rw [if_pos h]
      exact ⟨by rw [List.mem_singleton.1 hx]; rfl, h ▸ hb⟩
    next h =>
      rw [if_neg h]
      exact hs.phi c x hx hphi
  · intro c x hc hx
    rw [isJoin_withNext, isJoin_goto] at hc
    rw [hinsts] at hx
    rw [harr]
    split at hx
    next h =>
      cases hx
      exact h ▸ hk
    next => exact hs.started c x hc hx
  · intro _
    change ((s.goto b).withNext kind scope location isComptime isGen).instsIn b ≠ []
    rw [hinsts, if_pos rfl]
    exact List.cons_ne_nil _ _

theorem Joining.newBlock (hs : s.Joining) (name : String) : (s.newBlock name).2.Joining := by
  have hnil : ∀ c : BlockId, s.blocks.size ≤ c.index → (s.newBlock name).2.instsIn c = [] :=
    fun c hc => hs.coherent.instsIn_eq_nil hc
  have hold : ∀ c : BlockId, (s.newBlock name).2.instsIn c ≠ [] → c.index < s.blocks.size :=
    fun c hc => Nat.lt_of_not_le fun h => hc (hnil c h)
  refine ⟨hs.coherent.newBlock name, fun x hx t ht => ?_, fun c x hx hphi => ?_,
    fun c x hc hx => ?_, fun hc => ?_⟩
  · have := hs.targets x hx t ht
    simp only [Stream.newBlock, Array.size_push]
    omega
  · have hlt := hold c (List.ne_nil_of_mem hx)
    obtain ⟨hhead, hj⟩ := hs.phi c x hx hphi
    exact ⟨hhead, (isJoin_newBlock hlt).2 hj⟩
  · have hlt := hold c fun h => by simp [h] at hx
    exact hs.started c x ((isJoin_newBlock hlt).1 hc) hx
  · exact hs.current ((isJoin_newBlock hs.coherent.current).1 hc)

/-- The lowering may go on in any block that is no join. -/
theorem Joining.goto (hs : s.Joining) (hlt : b.index < s.blocks.size) (hb : ¬ s.IsJoin b) :
    (s.goto b).Joining :=
  ⟨hs.coherent.goto hlt, hs.targets, hs.phi, hs.started, fun h => absurd h hb⟩

theorem Joining.addWarning (hs : s.Joining) (m : Message) : (s.addWarning m).Joining :=
  ⟨hs.coherent.addWarning m, hs.targets, hs.phi, hs.started, hs.current⟩

theorem Joining.addChild (hs : s.Joining) (child : Stream) : (s.addChild child).2.Joining := by
  have hc := hs.coherent.addChild child
  rw [addChild_eq] at hc ⊢
  exact ⟨hc, hs.targets, hs.phi, hs.started, hs.current⟩

/-! ### Joins that are not started -/

namespace Awaits

variable {incoming : List (BlockId × InstId)}

/-- The lowering does not go on in a join that is not started. -/
theorem ne_current (h : s.Awaits b incoming) (hs : s.Joining) : b ≠ s.currentBlock := by
  rintro rfl
  exact hs.current h.join h.empty

theorem withNext_of_notMem (h : s.Awaits b incoming) (hne : b ≠ s.currentBlock)
    (hb : b ∉ kind.targets) :
    (s.withNext kind scope location isComptime isGen).Awaits b incoming where
  join := isJoin_withNext.2 h.join
  empty := by rw [instsIn_withNext, if_neg hne.symm, h.empty]
  arrivals := by rw [arrivals_withNext_of_notMem hb, h.arrivals]

/-- A branch to a join brings a value from the current block. -/
theorem withNext_of_mem (h : s.Awaits b incoming) (hne : b ≠ s.currentBlock)
    (hb : b ∈ kind.targets) (value : InstId) :
    (s.withNext kind scope location isComptime isGen).Awaits b
      (incoming ++ [(s.currentBlock, value)]) where
  join := isJoin_withNext.2 h.join
  empty := by rw [instsIn_withNext, if_neg hne.symm, h.empty]
  arrivals := by simp [arrivals_withNext, hb, h.arrivals]

theorem newBlock (h : s.Awaits b incoming) (name : String) :
    (s.newBlock name).2.Awaits b incoming :=
  ⟨(isJoin_newBlock h.join.lt).2 h.join, h.empty, h.arrivals⟩

end Awaits

/-- A join that has just been made is not started. -/
theorem Joining.awaits_newBlock (hs : s.Joining) {name : String}
    (hname : isJoinName name) :
    (s.newBlock name).2.Awaits ⟨s.blocks.size⟩ [] where
  join := isJoin_newBlock_self.2 hname
  empty := hs.coherent.instsIn_eq_nil (Nat.le_refl _)
  arrivals := (hs.arrivals_eq_nil (Nat.le_refl _)).symm

end Steps

end Stream

end SourceIr
