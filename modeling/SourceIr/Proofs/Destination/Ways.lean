import Mathlib.Data.Set.Basic
import SourceIr.Proofs.Flow.Machine

/-!
# Ways to a declaration

How often storage is written to on the ways of control from where it is made to where the variable
is declared.  The counts are found as in a flow analysis: every block is given a set of counts with
which control may enter it, and whatever leads to the block keeps to the set.

* `InstKind.writes?`, the pointer that an instruction writes to, and `Stream.Way`, the ways of
  control with the number of their writes;
* `countsAfter`, the counts behind the instructions of a block;
* `Stream.Counted`, sets of counts that everything keeps to, and `Stream.Counted.mem_of_way`.
-/

namespace SourceIr

namespace InstKind

/-- The pointer that an instruction writes to. -/
def writes? : InstKind → Option InstId
  | .storePtr ptr _ => some ptr
  | .call _ _ _ resultPtr | .structInit _ _ resultPtr | .arrayInit _ _ resultPtr => resultPtr
  | _ => none

/-- The storage of the variable that an instruction declares. -/
def storage? : InstKind → Option InstId
  | .declVar _ ptr => some ptr
  | _ => none

/-- How often an instruction writes to a pointer. -/
def writesTo (kind : InstKind) (p : InstId) : Nat := if kind.writes? = some p then 1 else 0

variable {kind : InstKind} {p : InstId}

/-- An instruction reads the pointer that it writes to. -/
theorem mem_operands_of_writes? (h : kind.writes? = some p) : p ∈ kind.operands := by
  cases kind <;> simp_all [writes?, operands]

/-- An instruction reads the storage of the variable that it declares. -/
theorem mem_operands_of_storage? (h : kind.storage? = some p) : p ∈ kind.operands := by
  cases kind <;> simp_all [storage?, operands]

theorem exists_of_storage? (h : kind.storage? = some p) : ∃ var, kind = .declVar var p := by
  cases kind with
  | declVar var ptr => exact ⟨var, congrArg _ (Option.some.inj h)⟩
  | _ => cases h

theorem writesTo_eq_zero (h : kind.writes? ≠ some p) : kind.writesTo p = 0 := if_neg h

theorem writesTo_eq_one (h : kind.writes? = some p) : kind.writesTo p = 1 := if_pos h

/-- What ends a block writes nothing. -/
theorem writes?_of_isNoreturn (h : kind.isNoreturn = true) : kind.writes? = none := by
  cases kind <;> first | rfl | cases h

end InstKind

/-- Where control may be after the instruction at a place. -/
def Pos.after (q : Pos) (kind : InstKind) : List Pos :=
  if kind.isNoreturn then kind.targets.map .start else [q.next]

/-- A way of control from one place to another, with the number of instructions on it that write to
a pointer.  It goes no further than to the declaration of the variable that is stored there. -/
inductive Stream.Way (s : Stream) (p : InstId) : Pos → Pos → Nat → Prop
  | here {q : Pos} : Way s p q q 0
  | step {q r t : Pos} {x : Inst} {n : Nat} (hx : s.fetch? q = some x)
      (hd : x.kind.storage? ≠ some p) (hr : r ∈ q.after x.kind) (h : Way s p r t n) :
      Way s p q t (x.kind.writesTo p + n)

/-- How often a way writes to a pointer, given as the places that follow each other on it. -/
def Stream.countAlong (s : Stream) (p : InstId) (q : Pos) : List Pos → Option Nat
  | [] => some 0
  | r :: path =>
    match s.fetch? q with
    | some x =>
      if x.kind.storage? ≠ some p ∧ r ∈ q.after x.kind then
        (s.countAlong p r path).map (x.kind.writesTo p + ·)
      else none
    | none => none

theorem Stream.way_of_countAlong {s : Stream} {p : InstId} {q : Pos} {path : List Pos} {n : Nat}
    (h : s.countAlong p q path = some n) : s.Way p q (path.getLastD q) n := by
  induction path generalizing q n with
  | nil =>
    obtain rfl := Option.some.inj h
    exact .here
  | cons r path ih =>
    rw [countAlong] at h
    split at h
    next x hx =>
      split at h
      next hgo =>
        obtain ⟨m, hm, rfl⟩ := Option.map_eq_some_iff.1 h
        rw [List.getLastD_cons]
        exact .step hx hgo.1 hgo.2 (ih hm)
      next => cases h
    next => cases h

/-! ### Counts within a block -/

/-- The counts with which control may be behind an instruction, if it may be before it with these.
The count starts where the storage is made. -/
def Inst.counts (p : InstId) (c : Set Nat) (x : Inst) : Set Nat :=
  {n | x.kind.isNoreturn = false ∧ x.kind.storage? ≠ some p ∧
    (x.id = p ∧ n = 0 ∨ ∃ m ∈ c, m + x.kind.writesTo p = n)}

/-- The counts with which control may be behind some instructions. -/
def countsAfter (p : InstId) (c : Set Nat) (insts : List Inst) : Set Nat :=
  insts.foldl (Inst.counts p) c

section Counts

variable {p : InstId} {c c' : Set Nat} {x : Inst} {insts : List Inst}

theorem Inst.counts_mono (h : c ⊆ c') : x.counts p c ⊆ x.counts p c' :=
  fun _ ⟨hend, hd, hn⟩ => ⟨hend, hd, hn.imp_right fun ⟨m, hm, e⟩ => ⟨m, h hm, e⟩⟩

/-- Control does not get past what ends a block. -/
theorem Inst.counts_of_isNoreturn (h : x.kind.isNoreturn = true) : x.counts p c = ∅ :=
  Set.eq_empty_of_forall_notMem fun _ hn => Bool.false_ne_true (hn.1.symm.trans h)

@[simp] theorem countsAfter_nil : countsAfter p c [] = c := rfl

@[simp] theorem countsAfter_concat :
    countsAfter p c (insts ++ [x]) = x.counts p (countsAfter p c insts) := by
  rw [countsAfter, List.foldl_append]
  rfl

end Counts

namespace Stream

variable {s : Stream} {p : InstId} {ok : Set Nat} {counts : BlockId → Set Nat}

/-- Control gets to every block with the counts that the block is given only, and to the declaration
of the variable only with those that are wanted there. -/
structure Counted (s : Stream) (p : InstId) (ok : Set Nat) (counts : BlockId → Set Nat) :
    Prop where
  leads : ∀ b before x rest, s.instsIn b = before ++ x :: rest → ∀ t ∈ x.kind.targets,
    t.index < s.blocks.size ∧ countsAfter p (counts b) before ⊆ counts t
  declared : ∀ b before x rest, s.instsIn b = before ++ x :: rest → x.kind.storage? = some p →
    countsAfter p (counts b) before ⊆ ok

/-- A stream without instructions has no ways. -/
theorem counted_of_insts_eq (h : s.insts = #[]) : s.Counted p ok counts := by
  constructor <;> intro b before x rest hb <;> simp [instsIn, h] at hb

/-- The counts with which control may be at a place. -/
def countsAt (s : Stream) (p : InstId) (counts : BlockId → Set Nat) (q : Pos) : Set Nat :=
  countsAfter p (counts q.block) ((s.instsIn q.block).take q.index)

/-- The counts with which control may be at the end of the current block. -/
def endCounts (s : Stream) (p : InstId) (counts : BlockId → Set Nat) : Set Nat :=
  countsAfter p (counts s.currentBlock) (s.instsIn s.currentBlock)

/-- The instructions before a place, the one that stands there, and the others. -/
theorem Coherent.instsIn_eq_of_fetch? (hs : s.Coherent) {q : Pos} {x : Inst}
    (h : s.fetch? q = some x) : s.instsIn q.block =
      (s.instsIn q.block).take q.index ++ x :: (s.instsIn q.block).drop (q.index + 1) := by
  rw [hs.fetch?_eq] at h
  obtain ⟨hlt, rfl⟩ := List.getElem?_eq_some_iff.1 h
  rw [List.getElem_cons_drop, List.take_append_drop]

/-- The instruction at a place is found by its handle. -/
theorem Coherent.inst?_of_fetch? (hs : s.Coherent) {q : Pos} {x : Inst}
    (h : s.fetch? q = some x) : s.inst? x.id = some x := by
  rw [hs.fetch?_eq] at h
  obtain ⟨i, hi⟩ := List.mem_iff_getElem?.1 (List.mem_filter.1 (List.mem_of_getElem? h)).1
  have hi : s.insts[i]? = some x := by simpa using hi
  rw [(hs.inst i x hi).1]
  exact hi

/-- The counts behind the instruction at a place. -/
theorem Coherent.countsAt_next (hs : s.Coherent) {q : Pos} {x : Inst} (h : s.fetch? q = some x) :
    s.countsAt p counts q.next = x.counts p (s.countsAt p counts q) := by
  rw [hs.fetch?_eq] at h
  rw [countsAt, Pos.next, List.take_add_one, h]
  exact countsAfter_concat

/-- The counts behind an instruction that is appended. -/
theorem endCounts_withNext {kind : InstKind} {scope : ScopeId} {location : Option Location}
    {isComptime isGen : Bool} :
    (s.withNext kind scope location isComptime isGen).endCounts p counts =
      Inst.counts p (s.endCounts p counts)
        ⟨s.next, kind, s.currentBlock, scope, location, isComptime, isGen⟩ := by
  rw [endCounts, withNext_currentBlock, instsIn_withNext, if_pos rfl, countsAfter_concat]
  rfl

/-- Control does not get to the end of a block that has ended. -/
theorem Coherent.endCounts_of_isTerminated (hs : s.Coherent) (h : s.isTerminated) :
    s.endCounts p counts = ∅ := by
  obtain ⟨x, hx, hend⟩ := hs.isTerminated_iff.1 h
  obtain ⟨init, hinit⟩ := List.getLast?_eq_some_iff.1 hx
  rw [endCounts, hinit, countsAfter_concat, Inst.counts_of_isNoreturn hend]

namespace Counted

variable {q r : Pos} {m n : Nat}

/-- On a way, the counts keep to the sets. -/
theorem mem_countsAt (h : s.Counted p ok counts) (hs : s.Coherent) (hw : s.Way p q r n)
    (hm : m ∈ s.countsAt p counts q) : m + n ∈ s.countsAt p counts r := by
  induction hw generalizing m with
  | here => exact hm
  | step hx hd hr _ ih =>
    rw [← Nat.add_assoc]
    refine ih ?_
    rw [Pos.after] at hr
    split at hr
    next hend =>
      obtain ⟨t, ht, rfl⟩ := List.mem_map.1 hr
      rw [InstKind.writesTo_eq_zero (by simp [InstKind.writes?_of_isNoreturn hend])]
      exact (h.leads _ _ _ _ (hs.instsIn_eq_of_fetch? hx) t ht).2 hm
    next hend =>
      rw [List.mem_singleton.1 hr, hs.countsAt_next hx]
      exact ⟨Bool.eq_false_iff.2 hend, hd, .inr ⟨m, hm, rfl⟩⟩

/-- On the ways from where storage is made to where the variable is declared, the number of writes
is one of those that are wanted. -/
theorem mem_of_way (h : s.Counted p ok counts) (hs : s.Coherent) {x y : Inst}
    (hq : s.fetch? q = some x) {name : Option String} {type : Option InstId} {isComptime : Bool}
    (hx : x.kind = .alloca name type isComptime) (hid : x.id = p) (hr : s.fetch? r = some y)
    (hy : y.kind.storage? = some p) (hw : s.Way p q r n) : n ∈ ok := by
  cases hw with
  | here =>
    obtain rfl := Option.some.inj (hq.symm.trans hr)
    rw [hx] at hy
    cases hy
  | step hq' hd hnext hw =>
    obtain rfl := Option.some.inj (hq.symm.trans hq')
    rw [hx] at hd hnext ⊢
    obtain rfl := List.mem_singleton.1 hnext
    have hzero : 0 ∈ s.countsAt p counts q.next := by
      rw [hs.countsAt_next hq]
      exact ⟨by rw [hx]; rfl, by rwa [hx], .inl ⟨hid, rfl⟩⟩
    have hmem := h.mem_countsAt hs hw hzero
    rw [InstKind.writesTo_eq_zero (by nofun)]
    exact h.declared _ _ _ _ (hs.instsIn_eq_of_fetch? hr) hy hmem

/-- Blocks that are added have no instructions, so they may be given any counts. -/
theorem mono {s' : Stream} {counts' : BlockId → Set Nat} (h : s.Counted p ok counts)
    (hs : s.Coherent) (hinsts : ∀ b, s'.instsIn b = s.instsIn b)
    (hblocks : s.blocks.size ≤ s'.blocks.size)
    (hcounts : ∀ b, b.index < s.blocks.size → counts' b = counts b) :
    s'.Counted p ok counts' := by
  have hold : ∀ b before x rest, s'.instsIn b = before ++ x :: rest →
      s.instsIn b = before ++ x :: rest ∧ counts' b = counts b := by
    intro b before x rest hb
    rw [hinsts] at hb
    refine ⟨hb, hcounts b (Nat.lt_of_not_le fun hle => ?_)⟩
    simp [hs.instsIn_eq_nil hle] at hb
  constructor
  · intro b before x rest hb t ht
    obtain ⟨hb, hcount⟩ := hold b before x rest hb
    obtain ⟨hlt, hsub⟩ := h.leads b before x rest hb t ht
    rw [hcount, hcounts t hlt]
    exact ⟨Nat.lt_of_lt_of_le hlt hblocks, hsub⟩
  · intro b before x rest hb hx
    obtain ⟨hb, hcount⟩ := hold b before x rest hb
    rw [hcount]
    exact h.declared b before x rest hb hx

/-- An instruction is appended to the current block. -/
theorem withNext {kind : InstKind} {scope : ScopeId} {location : Option Location}
    {isComptime isGen : Bool} (h : s.Counted p ok counts)
    (hleads : ∀ t ∈ kind.targets, t.index < s.blocks.size ∧ s.endCounts p counts ⊆ counts t)
    (hdecl : kind.storage? = some p → s.endCounts p counts ⊆ ok) :
    (s.withNext kind scope location isComptime isGen).Counted p ok counts := by
  have hold : ∀ b before x rest,
      (s.withNext kind scope location isComptime isGen).instsIn b = before ++ x :: rest →
      (∃ rest', s.instsIn b = before ++ x :: rest') ∨
        b = s.currentBlock ∧ before = s.instsIn s.currentBlock ∧ x.kind = kind := by
    intro b before x rest hb
    rw [instsIn_withNext] at hb
    split at hb
    next hcur =>
      subst hcur
      rcases List.eq_nil_or_concat rest with rfl | ⟨init, last, rfl⟩
      · obtain ⟨hbefore, hx⟩ := List.append_inj' hb rfl
        exact .inr ⟨rfl, hbefore.symm, by rw [← (List.cons.inj hx).1]⟩
      · rw [List.concat_eq_append, ← List.cons_append, ← List.append_assoc] at hb
        exact .inl ⟨init, (List.append_inj' hb rfl).1⟩
    next => exact .inl ⟨rest, hb⟩
  constructor
  · intro b before x rest hb t ht
    rw [withNext_size_blocks]
    rcases hold b before x rest hb with ⟨rest', hb⟩ | ⟨rfl, rfl, rfl⟩
    · exact h.leads b before x rest' hb t ht
    · exact hleads t ht
  · intro b before x rest hb hx
    rcases hold b before x rest hb with ⟨rest', hb⟩ | ⟨rfl, rfl, rfl⟩
    · exact h.declared b before x rest' hb hx
    · exact hdecl hx

end Counted

end Stream

end SourceIr
