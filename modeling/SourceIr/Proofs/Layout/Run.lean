import Mathlib.Data.List.Nodup
import SourceIr.Lower.Loop
import SourceIr.Lower.Jump
import SourceIr.Proofs.Layout.Basic

/-!
# Between the blocks of a construct

A construct makes its blocks first, leads to them by branches, and goes to them one by one.  What
may be used where the blocks were made may be used in all of them.

* `Site.Run`, what is known between the blocks of one construct;
* `lays_newBlock`, `lays_adopt` and `lays_goto`, the steps from one block to the next;
* `Stays`, the routines that go on in the block in which they start;
* `lays_jump`, `lays_condBr`, `lays_branchInto` and `lays_joinAt`, the ways between them.
-/

namespace SourceIr.Lower

open SourceIr.Stream Site

variable {env : Env} {w₀ b w w' : Site} {α : Type} {x : LowerM α} {Q : Site → α → Prop}
  {t : BlockId} {q : Option BlockId} {blocks l₁ l₂ : List (BlockId × Option BlockId)}

/-- What is known in the middle of a construct that starts at `w₀`, and made its blocks at `b`.
Some of its blocks have not been gone to yet; each of them has a parent, or is still without. -/
structure Site.Run (w₀ b : Site) (blocks : List (BlockId × Option BlockId)) (w : Site) : Prop where
  start : Below w₀ b
  below : Below b w
  kept : ∀ t, t.index < w₀.state.stream.blocks.size → w.parent t = w₀.parent t
  pending : ∀ t, w.pending t ↔ w₀.pending t ∨ t ∈ blocks.map Prod.fst
  nodup : (blocks.map Prod.fst).Nodup
  fresh : ∀ e ∈ blocks, ¬ w₀.pending e.1 ∧ w₀.state.stream.blocks.size ≤ e.1.index
  made : ∀ e ∈ blocks, e.1.index < w.state.stream.blocks.size
  parent : ∀ e ∈ blocks, w.parent e.1 = e.2

namespace Site.Run

theorem of_le (le : Site.Le w₀ b) : Run w₀ b [] b where
  start := le.toBelow
  below := .refl b
  kept := le.kept
  pending t := by simp [le.pending]
  nodup := List.nodup_nil
  fresh := nofun
  made := nofun
  parent := nofun

theorem le (h : Run w₀ b blocks w) (le : Site.Le w w') : Run w₀ b blocks w' where
  start := h.start
  below := h.below.trans le.toBelow
  kept t ht := by
    have hsize := Nat.le_trans h.start.stream.blocks h.below.stream.blocks
    exact (le.kept t (Nat.lt_of_lt_of_le ht hsize)).trans (h.kept t ht)
  pending t := by rw [le.pending, h.pending]
  nodup := h.nodup
  fresh := h.fresh
  made e he := Nat.lt_of_lt_of_le (h.made e he) le.stream.blocks
  parent e he := (le.kept e.1 (h.made e he)).trans (h.parent e he)

/-- When all blocks have been gone to, the construct leaves none behind. -/
theorem done (h : Run w₀ b [] w) : Site.Le w₀ w where
  toBelow := h.start.trans h.below
  pending := funext fun t => by simp [h.pending]
  kept := h.kept

/-- What is known may be seen from another site on the way. -/
theorem at_site (h : Run w₀ b blocks w) (h₀ : Below w₀ w') (h' : Below w' w) :
    Run w₀ w' blocks w :=
  { h with start := h₀, below := h' }

/-- What may be used at a later site may be used from there on. -/
theorem rebase (h : Run w₀ b blocks w) : Run w₀ w blocks w :=
  h.at_site (h.start.trans h.below) (.refl w)

theorem target_parent {c : BlockId} (h : Run w₀ b blocks w) (ht : (t, some c) ∈ blocks) :
    w.Target c t :=
  ⟨h.made _ ht, c, h.parent _ ht, .refl⟩

/-- A branch may lead to a block that has its parent at the site where the blocks were made. -/
theorem target (h : Run w₀ b blocks w) (ht : (t, some b.current) ∈ blocks) :
    w.Target w.current t :=
  (h.target_parent ht).below h.below.above

end Site.Run

/-! ### Making blocks and going to them -/

theorem lays_newBlock {name : String} (run : Run w₀ b blocks w) (q : Option BlockId) :
    Lays env w (newBlock name) fun w' t =>
      Run w₀ b (blocks ++ [(t, q)]) w' ∧ Below w w' ∧ w'.current = w.current := by
  refine lays_step (w.withBlock name q) rfl (·.withBlock) (·.ext_withBlock) fun hw => ?_
  have e : Ext w (w.withBlock name q) := hw.ext_withBlock
  have hbelow : Below w (w.withBlock name q) := ⟨e, .refl, .of_eq rfl rfl⟩
  have hsize : w₀.state.stream.blocks.size ≤ w.state.stream.blocks.size :=
    Nat.le_trans run.start.stream.blocks run.below.stream.blocks
  -- The handle of the new block is none of those that are there.
  have hother : ∀ {t : BlockId}, t.index < w.state.stream.blocks.size →
      t ≠ ⟨w.state.stream.blocks.size⟩ := by
    rintro t ht rfl
    exact Nat.lt_irrefl _ ht
  have hne : ∀ {t : BlockId}, t.index < w.state.stream.blocks.size →
      (w.withBlock name q).parent t = w.parent t := fun ht => by
    simp [Site.withBlock, Function.update_of_ne (hother ht)]
  refine ⟨⟨run.start, run.below.trans hbelow, fun t ht => ?_, fun t => ?_, ?_, fun x hx => ?_,
    fun x hx => ?_, fun x hx => ?_⟩, hbelow, rfl⟩
  · rw [hne (Nat.lt_of_lt_of_le ht hsize)]
    exact run.kept t ht
  · change w.pending t ∨ t = _ ↔ _
    rw [run.pending]
    simp [or_assoc]
  · rw [List.map_append, List.nodup_append]
    refine ⟨run.nodup, List.nodup_singleton _, ?_⟩
    rintro t ht t' ht'
    obtain ⟨x, hx, rfl⟩ := List.mem_map.1 ht
    rw [List.mem_singleton.1 ht']
    exact hother (run.made x hx)
  · rcases List.mem_append.1 hx with hx | hx
    · exact run.fresh x hx
    · rw [List.mem_singleton.1 hx]
      refine ⟨fun h => ?_, hsize⟩
      exact hother (hw.pending _ ((run.pending _).2 (.inl h))).2.2.1 rfl
  · rcases List.mem_append.1 hx with hx | hx
    · exact Nat.lt_of_lt_of_le (run.made x hx) e.stream.blocks
    · rw [List.mem_singleton.1 hx]
      simp [Site.withBlock, Stream.newBlock]
  · rcases List.mem_append.1 hx with hx | hx
    · rw [hne (run.made x hx)]
      exact run.parent x hx
    · rw [List.mem_singleton.1 hx]
      simp [Site.withBlock]

/-- A block that was made without a parent gets it before it is gone to. -/
theorem lays_adopt (l₁ : List (BlockId × Option BlockId)) (c : BlockId)
    (run : Run w₀ b (l₁ ++ (t, none) :: l₂) w)
    (h : Below w (w.adopt t c) → Run w₀ b (l₁ ++ (t, some c) :: l₂) (w.adopt t c) →
      Lays env (w.adopt t c) x Q) :
    Lays env w x Q := by
  have ht : (t, none) ∈ l₁ ++ (t, none) :: l₂ := by simp
  have hnone : w.parent t = none := run.parent _ ht
  have hpending : w.pending t := (run.pending t).2 (.inr (List.mem_map.2 ⟨_, ht, rfl⟩))
  have e : Ext w (w.adopt t c) := ext_adopt hnone
  have hfst : (l₁ ++ (t, some c) :: l₂).map Prod.fst = (l₁ ++ (t, none) :: l₂).map Prod.fst := by
    simp
  have hold : ∀ x ∈ l₁ ++ (t, some c) :: l₂, ∃ y ∈ l₁ ++ (t, none) :: l₂, x.1 = y.1 := by
    intro x hx
    have : x.1 ∈ (l₁ ++ (t, none) :: l₂).map Prod.fst := hfst ▸ List.mem_map_of_mem hx
    obtain ⟨y, hy, hyx⟩ := List.mem_map.1 this
    exact ⟨y, hy, hyx.symm⟩
  have hne : ∀ {x : BlockId}, x ≠ t → (w.adopt t c).parent x = w.parent x := fun hx => by
    simp [Site.adopt, Function.update_of_ne hx]
  have hbelow : Below w (w.adopt t c) := ⟨e, .refl, .of_eq rfl rfl⟩
  have hrun : Run w₀ b (l₁ ++ (t, some c) :: l₂) (w.adopt t c) := by
    refine ⟨run.start, run.below.trans hbelow, fun x hx => ?_,
      fun x => ?_, hfst ▸ run.nodup, fun x hx => ?_, fun x hx => ?_, fun x hx => ?_⟩
    · rw [hne fun h => Nat.lt_irrefl _ (Nat.lt_of_lt_of_le (h ▸ hx) (run.fresh _ ht).2)]
      exact run.kept x hx
    · rw [hfst]
      exact run.pending x
    · obtain ⟨y, hy, hxy⟩ := hold x hx
      rw [hxy]
      exact run.fresh y hy
    · obtain ⟨y, hy, hxy⟩ := hold x hx
      rw [hxy]
      exact run.made y hy
    · have hnodup := run.nodup
      rw [List.map_append, List.map_cons, List.nodup_middle, ← List.map_append] at hnodup
      have hnt := (List.nodup_cons.1 hnodup).1
      rcases List.mem_cons.1 (List.perm_middle.mem_iff.1 hx) with rfl | hx
      · simp [Site.adopt]
      · have hxt : x.1 ≠ t := fun h => hnt (List.mem_map.2 ⟨x, hx, h⟩)
        rw [hne hxt]
        exact run.parent x (List.perm_middle.mem_iff.2 (List.mem_cons_of_mem _ hx))
  intro hw a s' hr
  obtain ⟨w', hw', hg, e', hQ⟩ := h hbelow hrun (hw.adopt hpending hnone) a s' hr
  exact ⟨w', hw', hg, e.trans e', hQ⟩

/-- The lowering goes on in a block of the construct when the one before has an end. -/
theorem lays_goto (l₁ : List (BlockId × Option BlockId))
    (run : Run w₀ b (l₁ ++ (t, some b.current) :: l₂) w) (ends : w.state.stream.Ends w.current) :
    Lays env w (goto t) fun w' _ => Run w₀ b (l₁ ++ l₂) w' := by
  have ht : (t, some b.current) ∈ l₁ ++ (t, some b.current) :: l₂ := by simp
  have hpending : w.pending t := (run.pending t).2 (.inr (List.mem_map.2 ⟨_, ht, rfl⟩))
  have hsub : ∀ x ∈ l₁ ++ l₂, x ∈ l₁ ++ (t, some b.current) :: l₂ := fun x hx =>
    List.perm_middle.mem_iff.2 (List.mem_cons_of_mem _ hx)
  have hnodup := run.nodup
  rw [List.map_append, List.map_cons, List.nodup_middle, ← List.map_append] at hnodup
  obtain ⟨hnt, hnodup⟩ := List.nodup_cons.1 hnodup
  refine lays_step (w.goto t) (outcome_modify _) (·.goto ends hpending) (fun _ => ext_goto)
    fun _ => ⟨run.start, ⟨run.below.toExt.trans ext_goto, ?_, run.below.declares.congr rfl rfl⟩,
      run.kept, fun x => ?_, hnodup,
      fun x hx => run.fresh x (hsub x hx), fun x hx => run.made x (hsub x hx),
      fun x hx => run.parent x (hsub x hx)⟩
  · exact Relation.ReflTransGen.single (run.parent _ ht)
  · have hmem : x ∈ (l₁ ++ (t, some b.current) :: l₂).map Prod.fst ↔
        x = t ∨ x ∈ (l₁ ++ l₂).map Prod.fst := by
      rw [(List.perm_middle.map Prod.fst).mem_iff, List.map_cons, List.mem_cons]
    change w.pending x ∧ x ≠ t ↔ _
    rw [run.pending, hmem]
    constructor
    · rintro ⟨hx | rfl | hx, hxt⟩
      · exact .inl hx
      · exact absurd rfl hxt
      · exact .inr hx
    · rintro (hx | hx)
      · exact ⟨.inl hx, fun h => (run.fresh _ ht).1 (h ▸ hx)⟩
      · exact ⟨.inr (.inr hx), fun h => hnt (h ▸ hx)⟩

/-! ### Staying in a block -/

/-- A routine that goes on in the block in which it starts, if it returns. -/
def Stays (x : LowerM α) : Prop :=
  ∀ {env s a s'}, Returns x env s a s' → s'.stream.currentBlock = s.stream.currentBlock

section Stays

variable {β : Type} {scope parent : ScopeId} {node : Node} {value : InstId}

theorem stays_pure {a : α} : Stays (pure a : LowerM α) := fun h => by
  obtain ⟨-, rfl⟩ := returns_pure.1 h
  rfl

theorem stays_bind {f : α → LowerM β} (hx : Stays x) (hf : ∀ a, Stays (f a)) :
    Stays (x >>= f) := fun h => by
  obtain ⟨a, s', hx', hf'⟩ := returns_bind.1 h
  exact (hf a hf').trans (hx hx')

theorem stays_emitWith {kind : InstKind} {location : Option Location} {force gen : Bool} :
    Stays (emitWith kind scope location force gen) := fun h => by
  obtain ⟨-, -, -, _, _, _, rfl⟩ := returns_emitWith h
  rfl

theorem stays_openScope {kind : ScopeKind} : Stays (openScope parent kind) := fun h => by
  obtain ⟨x, -, h⟩ := returns_scopeAt_bind h
  rw [returns_get_bind] at h
  obtain ⟨_, t, hset, h⟩ := returns_bind.1 h
  obtain rfl := returns_set.1 hset
  obtain ⟨-, rfl⟩ := returns_pure.1 h
  rfl

theorem stays_declare {r : BindingRequest} : Stays (declare scope r) := fun h => by
  obtain ⟨-, _, rfl⟩ := returns_declare h
  rfl

theorem stays_enterLoop {label : Option String} {blocks : LoopBlocks} {loc : ResultLoc} :
    Stays (enterLoop scope label blocks loc) :=
  stays_bind stays_openScope fun _ => stays_bind (fun h => by
    obtain rfl := returns_modify.1 h
    rfl) fun _ => stays_pure

theorem stays_bindPayload {name : String} : Stays (bindPayload parent name value node) := by
  refine stays_bind stays_openScope fun scope => ?_
  split
  · exact stays_pure
  · refine stays_bind stays_emitWith fun _ => stays_bind stays_emitWith fun _ => ?_
    exact stays_bind stays_declare fun _ => stays_bind stays_emitWith fun _ => stays_pure

theorem stays_enterBranch {payload : Option String} :
    Stays (enterBranch node payload value scope) := by
  cases payload with
  | some name => exact stays_bind stays_emitWith fun _ => stays_bindPayload
  | none => exact stays_pure

/-- A routine that stays in its block. -/
theorem lays_stay (hs : Stays x) (hx : Lays env w x Q) :
    Lays env w x fun w' a => w'.current = w.current ∧ Q w' a := by
  intro hw a s' hr
  obtain ⟨w', rfl, hw', e, hQ⟩ := hx hw a s' hr
  exact ⟨w', rfl, hw', e, hs hr, hQ⟩

end Stays

/-! ### Ways between blocks -/

section Ways

variable {scope : ScopeId} {location : Option Location} {node : Node} {force gen : Bool}
  {value : InstId} {incoming : List (BlockId × InstId)}

/-- A test of whether control goes on leaves the site as it is. -/
theorem lays_isTerminated_bind {f : Bool → LowerM α}
    (h : Lays env w (f w.state.stream.isTerminated) Q) : Lays env w (isTerminated >>= f) Q :=
  lays_of_imp h fun _ _ => returns_isTerminated_bind

theorem Site.Good.ends (hw : w.Good) (h : w.state.stream.isTerminated) :
    w.state.stream.Ends w.current :=
  hw.laid.coherent.isTerminated_iff.1 h

/-- Where control does not go on, the last instruction is in the current block. -/
theorem Site.Good.avail_last (hw : w.Good) (h : w.state.stream.isTerminated) {i : InstId}
    (hi : w.state.stream.last? = some i) : w.Avail w.current i := by
  obtain ⟨x, hx, -⟩ := hw.ends h
  obtain ⟨hmem, hxb⟩ := List.mem_filter.1 (List.mem_of_getLast? hx)
  obtain ⟨n, hn⟩ := List.mem_iff_getElem?.1 hmem
  have hn : w.state.stream.insts[n]? = some x := by simpa using hn
  have hlast := hw.laid.coherent.last?_eq hi
  have hlt := (Array.getElem?_eq_some_iff.1 hn).1
  have hcur := hw.tail n i.index (by omega) (by omega)
    (by simp [Stream.blockAt, hn, of_decide_eq_true hxb])
  obtain ⟨y, hy, hyb⟩ := Option.map_eq_some_iff.1 hcur
  exact ⟨y, hy, hyb ▸ .refl⟩

theorem lays_lastInst (h : w.state.stream.isTerminated) :
    Lays env w lastInst fun w' v => w.Le w' ∧ w'.Avail w'.current v := by
  refine lays_of_good fun hw => lays_bind lays_get ?_
  rintro w' s - ⟨rfl, rfl⟩
  obtain ⟨i, hi⟩ := hw.laid.coherent.last?_of_isTerminated h
  refine lays_pure ⟨.refl w', ?_⟩
  rw [hi]
  exact hw.avail_last h hi

/-- A jump ends the current block. -/
theorem lays_jump (ht : w.Target w.current t) :
    Lays env w (emitWith (.br t) scope location force gen) fun w' v =>
      w.Le w' ∧ w'.Avail w'.current v ∧ w'.state.stream.Ends w'.current := by
  refine lays_mono (lays_emitWith rfl (by simpa [InstKind.targets] using ht) nofun) ?_
  exact fun w' v _ ⟨le, hv, ends⟩ => ⟨le, hv, ends rfl⟩

/-- A branch ends the current block. -/
theorem lays_condBr {cond : InstId} {yes no : BlockId} (hyes : w.Target w.current yes)
    (hno : w.Target w.current no) (hc : w.Avail w.current cond) :
    Lays env w (emitWith (.condBr cond yes no) scope location force gen) fun w' _ =>
      w.Le w' ∧ w'.state.stream.Ends w'.current := by
  refine lays_mono (lays_emitWith rfl ?_ ?_) fun w' v _ ⟨le, hv, ends⟩ => ⟨le, ends rfl⟩
  · intro t ht
    rcases List.mem_pair.1 ht with rfl | rfl
    · exact hyes
    · exact hno
  · intro d hd
    rwa [List.mem_singleton.1 hd]

/-- A return ends the current block. -/
theorem lays_ret {operand : Option InstId} (h : ∀ v ∈ operand, w.Avail w.current v) :
    Lays env w (emitWith (.ret operand) scope location force gen) fun w' v =>
      w.Le w' ∧ w'.Avail w'.current v ∧ w'.state.stream.Ends w'.current := by
  refine lays_mono (lays_emitWith rfl nofun fun v hv => h v (Option.mem_toList.1 hv)) ?_
  exact fun w' v _ ⟨le, hv, ends⟩ => ⟨le, hv, ends rfl⟩

theorem lays_jumpUnlessTerminated (ht : w.Target w.current t) :
    Lays env w (jumpUnlessTerminated t node scope force) fun w' _ =>
      w.Le w' ∧ w'.state.stream.Ends w'.current := by
  refine lays_of_good fun hw => lays_isTerminated_bind ?_
  split
  · exact lays_bind (lays_jump ht) fun w' _ _ ⟨le, _, ends⟩ => lays_pure ⟨le, ends⟩
  next h => exact lays_pure ⟨.refl w, hw.ends (by simpa using h)⟩

/-- The values that arrive at a join may be used in the blocks that they come from. -/
def Site.Arrive (w : Site) (incoming : List (BlockId × InstId)) : Prop :=
  ∀ f ∈ incoming, w.Avail f.1 f.2

theorem Site.Arrive.ext (h : w.Arrive incoming) (e : Ext w w') : w'.Arrive incoming :=
  fun f hf => (h f hf).ext e

theorem Site.arrive_nil : w.Arrive [] := nofun

theorem lays_currentBlock_bind {f : BlockId → LowerM α} (h : Lays env w (f w.current) Q) :
    Lays env w (currentBlock >>= f) Q := by
  refine lays_bind (R := fun w' r => w' = w ∧ r = w.current) ?_ ?_
  · refine lays_bind lays_get ?_
    rintro w' s - ⟨rfl, rfl⟩
    exact lays_pure ⟨rfl, rfl⟩
  · rintro w' r - ⟨rfl, rfl⟩
    exact h

/-- A value flows to the end of a construct, and the current block has an end. -/
theorem lays_branchInto (ht : w.Target w.current t) (hi : w.Arrive incoming)
    (hv : w.Avail w.current value) :
    Lays env w (branchInto t incoming value scope force) fun w' r =>
      w.Le w' ∧ w'.state.stream.Ends w'.current ∧ w'.Arrive r := by
  refine lays_of_good fun hw => lays_isTerminated_bind ?_
  split
  next h => exact lays_pure ⟨.refl w, hw.ends h, hi⟩
  next =>
    refine lays_currentBlock_bind ?_
    refine lays_bind (lays_jump ht) fun w' _ e ⟨le, _, ends⟩ => lays_pure ⟨le, ends, ?_⟩
    intro f hf
    rcases List.mem_append.1 hf with hf | hf
    · exact (hi f hf).ext e
    · rw [List.mem_singleton.1 hf]
      exact hv.ext e

/-- The end of a construct: no block is left behind. -/
theorem lays_joinAt (run : Run w₀ b [(t, some b.current)] w) (ends : w.state.stream.Ends w.current)
    (hi : w.Arrive incoming) :
    Lays env w (joinAt t incoming scope node) fun w' v =>
      w₀.Le w' ∧ w'.Avail w'.current v := by
  refine lays_bind (lays_goto [] run ends) fun w₁ _ e run => ?_
  split
  · refine lays_mono (lays_emitWith rfl nofun nofun) fun w' v _ ⟨le, hv, _⟩ => ⟨?_, hv⟩
    exact run.done.trans le
  · refine lays_mono (lays_emitWith rfl nofun (hi.ext e)) fun w' v _ ⟨le, hv, _⟩ => ⟨?_, hv⟩
    exact run.done.trans le

end Ways

end SourceIr.Lower
