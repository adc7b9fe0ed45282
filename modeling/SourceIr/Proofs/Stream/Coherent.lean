import SourceIr.Stream.Basic

/-!
# Coherent streams

The instructions of a stream are listed twice: in order, and by blocks.  In a coherent stream the
two lists agree, every handle is the position of what it stands for, and instructions read earlier
ones only.  Every operation keeps a stream coherent, and what it records is never taken back.  The
streams of the compile-time blocks are listed beside the instructions, which evaluate them.

* `Stream.instsIn`, the instructions of a block;
* `Stream.Coherent`, and its preservation by the operations;
* `Stream.append_eq_ok`, when an instruction is appended;
* `Stream.addChild_eq`, what a child stream adds; `Stream.errors_addChild` and
  `Stream.allWarnings_addChild`, the diagnostics among it;
* `Stream.Coherent.isTerminated_iff`, `Stream.Coherent.last?_eq`, how the end is read off;
* `Stream.embedded`, the streams that are evaluated, in the order of the instructions.
-/

namespace SourceIr.Stream

variable {s s' s'' : Stream}

/-- The instructions of a block, in order. -/
def instsIn (s : Stream) (b : BlockId) : List Inst := s.insts.toList.filter (·.block = b)

/-- The two lists of instructions agree, and handles are positions. -/
structure Coherent (s : Stream) : Prop where
  inst : ∀ (i : Nat) (x : Inst), s.insts[i]? = some x →
    x.id = ⟨i⟩ ∧ x.block.index < s.blocks.size ∧ ∀ d ∈ x.kind.operands, d.index < i
  block : ∀ (b : Nat) (k : BasicBlock), s.blocks[b]? = some k →
    k.id = ⟨b⟩ ∧ k.insts.toList = (s.instsIn ⟨b⟩).map (·.id)
  current : s.currentBlock.index < s.blocks.size

theorem coherent_new (name : String) (isInline : Bool) : (new name isInline).Coherent where
  inst i x h := by simp [new] at h
  block b k h := by
    cases b with
    | zero => simp [new, BlockId.entry] at h; subst h; simp [instsIn, new]
    | succ b => simp [new] at h
  current := by simp [new, BlockId.entry]

/-! ### Appending -/

/-- The stream with one more instruction in the current block. -/
def withNext (s : Stream) (kind : InstKind) (scope : ScopeId) (location : Option Location)
    (isComptime isGen : Bool) : Stream :=
  { s with
    insts := s.insts.push ⟨s.next, kind, s.currentBlock, scope, location, isComptime, isGen⟩
    blocks := s.blocks.modify s.currentBlock.index (withInst s.next) }

theorem forward?_eq_none {kind : InstKind} :
    s.forward? kind = none ↔ ∀ d ∈ kind.operands, d.index < s.insts.size := by
  simp only [forward?, List.find?_eq_none, decide_eq_true_eq, Nat.not_le]
  rfl

variable {kind : InstKind} {scope : ScopeId} {location : Option Location} {isComptime isGen : Bool}

/-- An instruction is appended exactly when it reads earlier ones only and the current block is
there. -/
theorem append_eq_ok {r : InstId × Stream} :
    s.append kind scope location isComptime isGen = .ok r ↔
      (∀ d ∈ kind.operands, d.index < s.insts.size) ∧ s.currentBlock.index < s.blocks.size ∧
        r = (s.next, s.withNext kind scope location isComptime isGen) := by
  rw [append]
  rcases h : s.forward? kind with _ | d
  · rw [forward?_eq_none] at h
    by_cases hc : s.currentBlock.index < s.blocks.size
    · simp only [hc, if_true, Except.ok.injEq, true_and]
      exact ⟨fun e => ⟨h, e.symm⟩, fun e => e.2.symm⟩
    · simp [hc]
  · have : ¬ ∀ d ∈ kind.operands, d.index < s.insts.size := by
      rw [← forward?_eq_none, h]
      exact nofun
    simp [this]

section WithNext

@[simp] theorem withNext_currentBlock :
    (s.withNext kind scope location isComptime isGen).currentBlock = s.currentBlock := rfl

@[simp] theorem withNext_size_blocks :
    (s.withNext kind scope location isComptime isGen).blocks.size = s.blocks.size := by
  simp [withNext]

@[simp] theorem withNext_size_insts :
    (s.withNext kind scope location isComptime isGen).insts.size = s.insts.size + 1 := by
  simp [withNext]

@[simp] theorem withNext_children :
    (s.withNext kind scope location isComptime isGen).children = s.children := rfl

theorem instsIn_withNext (b : BlockId) :
    (s.withNext kind scope location isComptime isGen).instsIn b =
      if s.currentBlock = b then
        s.instsIn b ++ [⟨s.next, kind, s.currentBlock, scope, location, isComptime, isGen⟩]
      else s.instsIn b := by
  simp only [instsIn, withNext, Array.toList_push, List.filter_append]
  split <;> simp [*]

theorem getElem?_withNext (i : Nat) :
    (s.withNext kind scope location isComptime isGen).insts[i]? =
      if i = s.insts.size then
        some ⟨s.next, kind, s.currentBlock, scope, location, isComptime, isGen⟩
      else s.insts[i]? := by
  simp [withNext, Array.getElem?_push]

/-- An instruction that is there stays. -/
theorem getElem?_withNext_of_some {i : Nat} {x : Inst} (h : s.insts[i]? = some x) :
    (s.withNext kind scope location isComptime isGen).insts[i]? = some x := by
  have := (Array.getElem?_eq_some_iff.1 h).1
  rw [getElem?_withNext, if_neg (by omega), h]

end WithNext

/-- The instruction that was appended decides whether control goes on. -/
theorem isTerminated_withNext (hc : s.currentBlock.index < s.blocks.size) :
    (s.withNext kind scope location isComptime isGen).isTerminated = kind.isNoreturn := by
  have hblock : (s.withNext kind scope location isComptime isGen).block? s.currentBlock =
      some (withInst s.next s.blocks[s.currentBlock.index]) := by
    simp [block?, withNext, hc, Array.getElem_modify]
  have hinst : (s.withNext kind scope location isComptime isGen).inst? s.next =
      some ⟨s.next, kind, s.currentBlock, scope, location, isComptime, isGen⟩ := by
    simp [inst?, withNext, next]
  rw [isTerminated, lastInBlock?, withNext_currentBlock, hblock]
  simp [withInst, hinst]

theorem Coherent.withNext (hs : s.Coherent) (hd : ∀ d ∈ kind.operands, d.index < s.insts.size) :
    (s.withNext kind scope location isComptime isGen).Coherent where
  inst i x h := by
    rw [getElem?_withNext] at h
    rw [withNext_size_blocks]
    split at h
    · subst i
      cases h
      exact ⟨rfl, hs.current, hd⟩
    · exact hs.inst i x h
  block b k h := by
    simp only [Stream.withNext, Array.getElem?_modify] at h
    rw [instsIn_withNext]
    obtain ⟨k₀, hk, rfl⟩ : ∃ k₀, s.blocks[b]? = some k₀ ∧
        k = if s.currentBlock.index = b then withInst s.next k₀ else k₀ := by
      split at h
      next hb =>
        obtain ⟨k₀, hk, rfl⟩ := Option.map_eq_some_iff.1 h
        exact ⟨k₀, hk, (if_pos hb).symm⟩
      next hb => exact ⟨k, h, (if_neg hb).symm⟩
    obtain ⟨hid, hl⟩ := hs.block b k₀ hk
    by_cases hb : s.currentBlock.index = b
    · have hb' : s.currentBlock = ⟨b⟩ := by rw [← hb]
      simp [hb', withInst, hid, hl]
    · have hb' : s.currentBlock ≠ ⟨b⟩ := fun e => hb (by rw [e])
      simp [hb, hb', hid, hl]
  current := by simpa using hs.current

/-! ### The other operations -/

@[simp] theorem newBlock_fst (name : String) : (s.newBlock name).1 = ⟨s.blocks.size⟩ := rfl

@[simp] theorem instsIn_newBlock (name : String) (b : BlockId) :
    (s.newBlock name).2.instsIn b = s.instsIn b := rfl

/-- A block that is not there has no instructions. -/
theorem Coherent.instsIn_eq_nil (hs : s.Coherent) {b : BlockId} (hb : s.blocks.size ≤ b.index) :
    s.instsIn b = [] := by
  rw [instsIn, List.filter_eq_nil_iff]
  intro x hx hxb
  obtain ⟨i, hi⟩ := List.mem_iff_getElem?.1 hx
  have := (hs.inst i x (by simpa using hi)).2.1
  rw [of_decide_eq_true hxb] at this
  omega

theorem Coherent.newBlock (hs : s.Coherent) (name : String) : (s.newBlock name).2.Coherent where
  inst i x h := by
    obtain ⟨hid, hb, hd⟩ := hs.inst i x h
    refine ⟨hid, ?_, hd⟩
    simp only [Stream.newBlock, Array.size_push]
    omega
  block b k h := by
    simp only [Stream.newBlock, Array.getElem?_push] at h
    split at h
    · subst b
      cases h
      simp [hs.instsIn_eq_nil]
    · exact hs.block b k h
  current := by
    have := hs.current
    simp only [Stream.newBlock, Array.size_push]
    omega

theorem Coherent.goto (hs : s.Coherent) {b : BlockId} (hb : b.index < s.blocks.size) :
    (s.goto b).Coherent where
  inst := hs.inst
  block := hs.block
  current := hb

theorem Coherent.invalidate (hs : s.Coherent) (m : Message) : (s.invalidate m).Coherent :=
  ⟨hs.inst, hs.block, hs.current⟩

theorem Coherent.addWarning (hs : s.Coherent) (m : Message) : (s.addWarning m).Coherent :=
  ⟨hs.inst, hs.block, hs.current⟩

/-- Recording errors changes nothing else, and the first one poisons the stream. -/
theorem foldl_invalidate (s : Stream) (ms : List Message) :
    ms.foldl invalidate s =
      { s with isPoisoned := s.isPoisoned || !ms.isEmpty, errors := s.errors ++ ms.toArray } := by
  induction ms generalizing s with
  | nil => cases s; simp
  | cons m ms ih => simp [ih, invalidate]

/-- A child stream adds its errors if it is poisoned. -/
theorem addChild_eq (s child : Stream) :
    (s.addChild child).2 =
      { s with
        children := s.children ++ [child]
        isPoisoned := s.isPoisoned || (child.isPoisoned && !child.errors.isEmpty)
        errors := s.errors ++ (if child.isPoisoned then child.errors else #[]) } := by
  rw [addChild]
  by_cases h : child.isPoisoned
  · simp only [h, if_true, ← Array.foldl_toList, foldl_invalidate, Bool.true_and]
    simp [Array.isEmpty]
  · simp [h]

theorem Coherent.addChild (hs : s.Coherent) (child : Stream) : (s.addChild child).2.Coherent := by
  rw [addChild_eq]
  exact ⟨hs.inst, hs.block, hs.current⟩

/-! ### Diagnostics -/

variable {c : Stream}

theorem warningsOfAll_eq_flatMap (streams : List Stream) :
    warningsOfAll streams = streams.flatMap (·.allWarnings) := by
  induction streams with
  | nil => rfl
  | cons s rest ih => rw [warningsOfAll, ih, List.flatMap_cons]

theorem allWarnings_eq (s : Stream) :
    s.allWarnings = s.warnings.toList ++ s.children.flatMap (·.allWarnings) := by
  cases s
  rw [allWarnings, warningsOfAll_eq_flatMap]

section

variable (hc : c.isPoisoned = true ↔ c.errors ≠ #[])

include hc

theorem errors_addChild : (s.addChild c).2.errors = s.errors ++ c.errors := by
  rw [addChild_eq]
  by_cases h : c.errors = #[]
  · simp [h]
  · simp [hc.2 h]

theorem isPoisoned_addChild : (s.addChild c).2.isPoisoned = (s.isPoisoned || c.isPoisoned) := by
  rw [addChild_eq]
  by_cases h : c.isPoisoned = true
  · simp [h, hc.1 h]
  · simp [h]

/-- A stream that takes in another one is poisoned if it has an error then, and only then. -/
theorem isPoisoned_addChild_iff (hs : s.isPoisoned = true ↔ s.errors ≠ #[]) :
    (s.addChild c).2.isPoisoned = true ↔ (s.addChild c).2.errors ≠ #[] := by
  rw [errors_addChild hc, isPoisoned_addChild hc, Bool.or_eq_true, hs, hc, ne_eq, ne_eq, ne_eq,
    Array.append_eq_empty_iff, Classical.not_and_iff_not_or_not]

end

@[simp] theorem children_addChild : (s.addChild c).2.children = s.children ++ [c] := by
  rw [addChild_eq]

theorem allWarnings_addChild : (s.addChild c).2.allWarnings = s.allWarnings ++ c.allWarnings := by
  have hwarnings : (s.addChild c).2.warnings = s.warnings := by rw [addChild_eq]
  simp [allWarnings_eq (s.addChild c).2, allWarnings_eq s, hwarnings]

/-! ### Reading off the end -/

theorem block?_eq_some (h : s.currentBlock.index < s.blocks.size) :
    s.block? s.currentBlock = some s.blocks[s.currentBlock.index] := by
  simp [block?, h]

/-- The last instruction of the current block. -/
theorem Coherent.lastInBlock?_eq (hs : s.Coherent) :
    s.lastInBlock? = (s.instsIn s.currentBlock).getLast? := by
  have hc := hs.current
  have hb := (hs.block _ _ (Array.getElem?_eq_getElem hc)).2
  rw [lastInBlock?, block?_eq_some hc]
  simp only [Option.bind_eq_bind, Option.bind_some]
  have hback : s.blocks[s.currentBlock.index].insts.back? =
      ((s.instsIn s.currentBlock).getLast?).map (·.id) := by
    rw [Array.back?_eq_getElem?, ← Array.getElem?_toList, ← Array.length_toList,
      ← List.getLast?_eq_getElem?, hb, List.getLast?_map]
  rw [hback]
  cases hl : (s.instsIn s.currentBlock).getLast? with
  | none => rfl
  | some x =>
    have hx : x ∈ s.insts.toList := (List.mem_filter.1 (List.mem_of_getLast? hl)).1
    obtain ⟨i, hi⟩ := List.mem_iff_getElem?.1 hx
    have hi' : s.insts[i]? = some x := by simpa using hi
    rw [Option.map_some, Option.bind_some, inst?, (hs.inst i x hi').1, hi']

/-- The last instruction of the current block is there. -/
theorem Coherent.endFault?_eq_none (hs : s.Coherent) : s.endFault? = none := by
  have hc := hs.current
  have hb := (hs.block _ _ (Array.getElem?_eq_getElem hc)).2
  rw [endFault?, block?_eq_some hc]
  dsimp only
  split
  · rfl
  next i hi =>
    have hmem : i ∈ (s.instsIn s.currentBlock).map (·.id) := by
      rw [← hb]
      exact Array.mem_toList_iff.2 (Array.mem_of_back? hi)
    obtain ⟨x, hx, rfl⟩ := List.mem_map.1 hmem
    obtain ⟨n, hn⟩ := List.mem_iff_getElem?.1 (List.mem_filter.1 hx).1
    have hn' : s.insts[n]? = some x := by simpa using hn
    rw [(hs.inst n x hn').1, if_pos (Array.getElem?_eq_some_iff.1 hn').1]

/-- Control does not go on from a block that ends with one of the instructions made for it. -/
def Ends (s : Stream) (b : BlockId) : Prop :=
  ∃ x, (s.instsIn b).getLast? = some x ∧ x.kind.isNoreturn

theorem Coherent.isTerminated_iff (hs : s.Coherent) : s.isTerminated ↔ s.Ends s.currentBlock := by
  rw [isTerminated, hs.lastInBlock?_eq, Option.any_eq_true]
  rfl

/-- The last instruction, if there is one, is the newest. -/
theorem Coherent.last?_eq (hs : s.Coherent) {i : InstId} (h : s.last? = some i) :
    i.index + 1 = s.insts.size := by
  rw [last?, Array.back?_eq_getElem?] at h
  obtain ⟨x, hx, rfl⟩ := Option.map_eq_some_iff.1 h
  have hlt := (Array.getElem?_eq_some_iff.1 hx).1
  rw [(hs.inst _ x hx).1]
  simp
  omega

/-- A stream that has ended is not empty. -/
theorem Coherent.last?_of_isTerminated (hs : s.Coherent) (h : s.isTerminated) :
    ∃ i, s.last? = some i := by
  obtain ⟨x, hx, -⟩ := hs.isTerminated_iff.1 h
  have hmem : x ∈ s.insts.toList := (List.mem_filter.1 (List.mem_of_getLast? hx)).1
  cases hb : s.insts.back? with
  | none => simp [Array.back?_eq_none_iff.1 hb] at hmem
  | some y => exact ⟨y.id, by simp [last?, hb]⟩

end SourceIr.Stream

/-! ### Streams inside a stream -/

namespace SourceIr

/-- The position of the stream that an instruction evaluates. -/
def InstKind.unit? : InstKind → Option Nat
  | .comptimeBlock unit => some unit
  | _ => none

namespace Stream

/-- The positions of the streams that are evaluated, in the order of the instructions. -/
def embedded (s : Stream) : List Nat := s.insts.toList.filterMap (·.kind.unit?)

variable {s : Stream} {kind : InstKind} {scope : ScopeId} {location : Option Location}
  {isComptime isGen : Bool}

theorem embedded_withNext : (s.withNext kind scope location isComptime isGen).embedded =
    s.embedded ++ kind.unit?.toList := by
  rw [embedded, withNext, Array.toList_push, List.filterMap_append]
  cases h : kind.unit? <;> simp [embedded, h]

theorem embedded_congr {s' : Stream} (h : s'.insts = s.insts) : s'.embedded = s.embedded := by
  rw [embedded, embedded, h]

end Stream

end SourceIr
