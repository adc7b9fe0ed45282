import SourceIr.Proofs.Inspection.Unit

/-!
# Inline loops

Whatever leads to a block of an inline loop is evaluated at compile time: the way in, the test, the
end of the body, the step and the end of the `else` branch.  The jumps that `break` and `continue`
make are the exception, since they follow the scope that they stand in.

* `LowersLoop`, a loop is lowered with these blocks, and `LowersLoop.leads`;
* `State.Continues`, a stream goes on from a state, and leads back to the blocks of the state only
  where it may;
* `edges`, the inspection of what leads where;
* `Generator.Lowers.inline_edges`, what leads to the blocks of an inline loop.
-/

namespace SourceIr

/-- The loops that are unrolled at compile time. -/
def Kind.isInlineLoop : Kind → Bool
  | .whileLoop _ _ _ _ _ _ isInline | .forLoop _ _ _ _ _ _ isInline => isInline
  | _ => false

/-- A jump that the user wrote, with `break` or `continue`. -/
def Inst.IsJump (i : Inst) (b : BlockId) : Prop := i.isGen = false ∧ i.kind = .br b

namespace Lower

variable {env : Env} {parts : Parts} {node : Node} {scope : ScopeId} {loc : ResultLoc}
  {s t u s' : State} {v : InstId} {blocks : LoopBlocks} {d : Nat} {ways : Ways}

/-! ### Loops with their blocks -/

/-- The blocks of a loop. -/
def LoopBlocks.all (blocks : LoopBlocks) : List BlockId :=
  [blocks.test, blocks.body, blocks.step, blocks.orElse, blocks.stop]

theorem LoopBlocks.inline_of_mem_ways {b : BlockId} {inline inline' : Bool}
    (h : (b, inline) ∈ blocks.ways inline') : inline = inline' := by
  simp only [LoopBlocks.ways, List.mem_cons, Prod.mk.injEq, List.not_mem_nil, or_false] at h
  tauto

/-- A loop is lowered with these blocks, which are made after what comes before the loop. -/
inductive LowersLoop (env : Env) (parts : Parts) (node : Node) (scope : ScopeId) (loc : ResultLoc)
    (s : State) (blocks : LoopBlocks) (v : InstId) (s' : State) : Prop
  | whileLoop {label payload : Option String} {condition body : Node}
      {continueExpr elseBranch : Option Node} {isInline : Bool} {place : ResultLoc} {t u : State}
      (hk : node.kind = .whileLoop label condition payload continueExpr body elseBranch isInline)
      (hhead : Returns (settle loc scope node.location) env s place t)
      (hblocks : Returns (newLoop "while") env t blocks u)
      (h : Returns (whileIn parts node label condition payload continueExpr body elseBranch isInline
        scope place blocks) env u v s')
  | forLoop {label : Option String} {iterable body : Node} {item : String} {index : Option String}
      {elseBranch : Option Node} {isInline : Bool} {place : ResultLoc}
      {array length indexPtr : InstId} {t u : State}
      (hk : node.kind = .forLoop label iterable item index body elseBranch isInline)
      (hhead : Returns (forHead parts node iterable index isInline scope loc) env s
        (place, array, length, indexPtr) t)
      (hblocks : Returns (newLoop "for") env t blocks u)
      (h : Returns (forIn parts node label item index body elseBranch isInline scope place array
        length indexPtr blocks) env u v s')

/-- Every inline loop that is lowered has its blocks. -/
theorem exists_lowersLoop (hk : node.kind.isInlineLoop = true)
    (h : Returns (lowerExpr parts node scope loc) env s v s') :
    ∃ blocks, LowersLoop env parts node scope loc s blocks v s' := by
  rw [lowerExpr] at h
  cases hkind : node.kind with rw [hkind] at h hk
  | whileLoop =>
    obtain ⟨place, t, hhead, h⟩ := returns_bind.1 h
    obtain ⟨blocks, u, hblocks, h⟩ := returns_bind.1 h
    exact ⟨blocks, .whileLoop hkind hhead hblocks h⟩
  | forLoop =>
    dsimp only at h
    rw [lowerFor_eq] at h
    obtain ⟨⟨place, array, length, indexPtr⟩, t, hhead, h⟩ := returns_bind.1 h
    obtain ⟨blocks, u, hblocks, h⟩ := returns_bind.1 h
    exact ⟨blocks, .forLoop hkind hhead hblocks h⟩
  | _ => exact absurd hk Bool.false_ne_true

/-- The blocks of a loop are new, and nothing else is. -/
structure MakesBlocks (t : State) (blocks : LoopBlocks) (u : State) : Prop where
  insts : u.stream.insts = t.stream.insts
  fresh : ∀ b ∈ blocks.all, t.stream.blocks.size ≤ b.index
  there : ∀ b ∈ blocks.all, b.index < u.stream.blocks.size

theorem makesBlocks_newLoop {word : String} (h : Returns (newLoop word) env t blocks u) :
    MakesBlocks t blocks u := by
  simp only [newLoop, Inspection.returns_newBlock_bind, returns_pure] at h
  obtain ⟨rfl, rfl⟩ := h
  refine ⟨rfl, ?_, ?_⟩ <;>
    simp only [LoopBlocks.all, List.forall_mem_cons, Stream.newBlock, Array.size_push,
      List.not_mem_nil, false_imp_iff, implies_true, and_true] <;>
    omega

namespace Inspection

variable {I : Inspection}

/-- Ways that are not used any more may be forgotten. -/
theorem closeWays {old : Ways} (h : I.Inv d (old ++ ways) s) :
    I.Inv d ways s ∧ (I.Ahead d ways s → I.Ahead d (old ++ ways) s) := by
  induction old with
  | nil => exact ⟨h, id⟩
  | cons way old ih =>
    obtain ⟨hrest, hback⟩ := I.closeWay h
    obtain ⟨hi, hback'⟩ := ih hrest
    exact ⟨hi, fun ha => hback (hback' ha)⟩

theorem leads_newLoop {word : String} (inline : Bool)
    (h : Returns (newLoop word) env t blocks u) :
    I.Leads d ways t (blocks.ways inline ++ ways) u := by
  simp only [newLoop, returns_newBlock_bind, returns_pure] at h
  obtain ⟨rfl, rfl⟩ := h
  exact (I.openWay inline).trans <| (I.openWay inline).trans <| (I.openWay inline).trans <|
    (I.openWay inline).trans (I.openWay inline)

end Inspection

open Inspection in
/-- What is to come of a loop comes of the state in which its blocks have been made. -/
theorem LowersLoop.leads {I : Inspection} {levels : Nat} (hfit : ∀ node, I.Fit node)
    (h : LowersLoop env (nested levels) node scope loc s blocks v s')
    (hk : node.kind.isInlineLoop = true) (hi : I.Inv d ways s) :
    ∃ t u, MakesBlocks t blocks u ∧ I.Inv d ways t ∧
      (I.Ahead d ways s' → I.Ahead d (blocks.ways true ++ ways) u) := by
  have hp : I.PassesParts env (nested levels) (nested levels) := I.passesParts_nested levels
  have close : ∀ {t u : State} {x : LowerM InstId}, I.Inv d ways t →
      I.Leads d ways t (blocks.ways true ++ ways) u →
      I.Same env d (blocks.ways true ++ ways) u x → Returns x env u v s' →
      I.Ahead d ways s' → I.Ahead d (blocks.ways true ++ ways) u := by
    intro t u x ht hleads hx hr ha
    obtain ⟨hs', hback⟩ := hx (hleads ht).1 v s' hr
    exact (hback ((closeWays hs').2 ha)).1
  cases h with
  | whileLoop hkind hhead hblocks h =>
    rw [hkind] at hk
    obtain rfl : _ = true := hk
    obtain ⟨ht, -⟩ := passes_settle hi _ _ hhead
    exact ⟨_, _, makesBlocks_newLoop hblocks, ht, close ht (leads_newLoop true hblocks)
      (passes_whileIn hp (hfit _) (fun _ _ => hfit _) (hfit _) fun _ _ => hfit _) h⟩
  | forLoop hkind hhead hblocks h =>
    rw [hkind] at hk
    obtain rfl : _ = true := hk
    obtain ⟨ht, -⟩ := passes_forHead hp (hfit _) hi _ _ hhead
    exact ⟨_, _, makesBlocks_newLoop hblocks, ht, close ht (leads_newLoop true hblocks)
      (passes_forIn hp (hfit _) fun _ _ => hfit _) h⟩

/-! ### What leads where -/

/-- Where the instructions of a state lead, the blocks are there, unless it is a jump of the user;
and so are the blocks that the routines around may lead to. -/
structure State.Leading (ways : Ways) (s : State) : Prop where
  ways : ∀ way ∈ ways, way.1.index < s.stream.blocks.size
  insts : ∀ i ∈ s.stream.insts.toList, ∀ b ∈ i.kind.targets,
    b.index < s.stream.blocks.size ∨ i.IsJump b

/-- A stream goes on from a state.  What comes later leads to later blocks or where the routines
around may lead, unless it is a jump of the user. -/
structure State.Continues (ways : Ways) (s : State) (stream : Stream) : Prop where
  insts : s.stream.insts.toList <+: stream.insts.toList
  children : ∀ c ∈ s.stream.children, c ∈ stream.children
  later : ∀ i ∈ stream.insts.toList.drop s.stream.insts.size, ∀ b ∈ i.kind.targets,
    b.index < s.stream.blocks.size →
      (∃ inline, (b, inline) ∈ ways ∧ (inline = true → i.isComptime = true)) ∨ i.IsJump b

section Steps

variable {Known : Node → Prop} {kind : InstKind} {location : Option Location} {force gen : Bool}
  {name : String} {inline : Bool} {stream : Stream}

/-- Nothing leads anywhere in a fresh stream. -/
theorem State.leading_new (h : s.stream.insts = #[]) : s.Leading [] :=
  ⟨fun _ hway => absurd hway List.not_mem_nil, fun _ hi => by simp [h] at hi⟩

theorem State.Leading.congr (h : s.Leading ways) (hinsts : s'.stream.insts = s.stream.insts)
    (hblocks : s'.stream.blocks = s.stream.blocks) : s'.Leading ways :=
  ⟨hblocks ▸ h.ways, hblocks ▸ hinsts ▸ h.insts⟩

theorem State.Leading.withNext (h : s.Leading ways) (ha : Admitted Known ways kind force gen) :
    (s.withNext kind scope location force gen).Leading ways := by
  have hsize : (s.withNext kind scope location force gen).stream.blocks.size =
      s.stream.blocks.size := Array.size_modify ..
  refine ⟨hsize ▸ h.ways, hsize ▸ fun i hi b hb => ?_⟩
  rcases Array.mem_push.1 (Array.mem_toList_iff.1 hi) with hi | rfl
  · exact h.insts i (Array.mem_toList_iff.2 hi) b hb
  · exact (ha.leads b hb).imp (fun ⟨_, hway, _⟩ => h.ways _ hway) id

theorem State.Leading.newBlock (h : s.Leading ways) :
    { s with stream := (s.stream.newBlock name).2 : State }.Leading
      ((⟨s.stream.blocks.size⟩, inline) :: ways) := by
  have hsize : (s.stream.newBlock name).2.blocks.size = s.stream.blocks.size + 1 :=
    Array.size_push ..
  refine ⟨?_, fun i hi b hb => ?_⟩ <;> rw [hsize]
  · exact List.forall_mem_cons.2
      ⟨Nat.lt_succ_self _, fun way hway => Nat.lt_succ_of_lt (h.ways way hway)⟩
  · exact (h.insts i hi b hb).imp_left Nat.lt_succ_of_lt

theorem State.Continues.congr (h : s'.Continues ways stream)
    (hinsts : s'.stream.insts = s.stream.insts) (hblocks : s'.stream.blocks = s.stream.blocks)
    (hchildren : ∀ c ∈ s.stream.children, c ∈ s'.stream.children) : s.Continues ways stream :=
  ⟨hinsts ▸ h.insts, fun c hc => h.children c (hchildren c hc), hblocks ▸ hinsts ▸ h.later⟩

/-- What is appended leads where the routines around may lead, or it is a jump of the user. -/
theorem State.Continues.of_withNext
    (h : (s.withNext kind scope location force gen).Continues ways stream)
    (ha : Admitted Known ways kind force gen) : s.Continues ways stream := by
  have hsize : (s.withNext kind scope location force gen).stream.blocks.size =
      s.stream.blocks.size := Array.size_modify ..
  obtain ⟨later, hall⟩ := h.insts
  have hlater := h.later
  rw [← hall, hsize] at hlater
  have hpush : (s.withNext kind scope location force gen).stream.insts.toList =
      s.stream.insts.toList ++ [⟨s.stream.next, kind, s.stream.currentBlock, scope, location,
        force || isComptimeIn s.stream s.scopes scope, gen⟩] := Array.toList_push ..
  rw [← Array.length_toList, List.drop_left] at hlater
  rw [hpush, List.append_assoc] at hall
  refine ⟨⟨_, hall⟩, h.children, fun i hi b hb hlt => ?_⟩
  rw [← hall, ← Array.length_toList, List.drop_left] at hi
  rcases List.mem_cons.1 hi with rfl | hi
  · exact (ha.leads b hb).imp_left fun ⟨inline, hway, hf⟩ =>
      ⟨inline, hway, fun h => by simp [hf h]⟩
  · exact hlater i hi b hb hlt

theorem State.Continues.of_newBlock
    (h : { s with stream := (s.stream.newBlock name).2 : State }.Continues
      ((⟨s.stream.blocks.size⟩, inline) :: ways) stream) : s.Continues ways stream := by
  refine ⟨h.insts, h.children, fun i hi b hb hlt => ?_⟩
  have hsize : b.index < (s.stream.newBlock name).2.blocks.size :=
    (Array.size_push ..).symm ▸ Nat.lt_succ_of_lt hlt
  refine (h.later i hi b hb hsize).imp_left fun ⟨inline, hway, hc⟩ => ⟨inline, ?_, hc⟩
  rcases List.mem_cons.1 hway with heq | hway
  · obtain ⟨rfl, -⟩ := Prod.mk.inj heq
    exact absurd hlt (Nat.lt_irrefl _)
  · exact hway

theorem State.Continues.cons {way : BlockId × Bool} (h : s.Continues ways stream) :
    s.Continues (way :: ways) stream :=
  ⟨h.insts, h.children, fun i hi b hb hlt => (h.later i hi b hb hlt).imp_left
    fun ⟨inline, hway, hc⟩ => ⟨inline, List.mem_cons_of_mem _ hway, hc⟩⟩

/-- A stream goes on from its end. -/
theorem State.continues_end : s.Continues ways s.stream :=
  ⟨List.prefix_rfl, fun _ => id, by
    rw [← Array.length_toList, List.drop_length]
    exact fun _ hi => absurd hi List.not_mem_nil⟩

end Steps

/-- The inspection of what leads where, for the streams that are part of one.  A stream may be
chosen at one depth: it is the one that goes on there. -/
def edges (whole : Stream) (depth : Nat) (chosen : Stream) : Inspection where
  Inv d ways s := depth ≤ d ∧ s.Leading ways
  Ahead d ways s := ∃ stream : Stream, stream.PartOf whole ∧ (d = depth → stream = chosen) ∧
    s.Continues ways stream
  Fit _ := True
  Init _ _ := True
  fit_unnamed _ _ _ := trivial
  init_unnamed _ _ _ := trivial
  init_of_fit _ _ := trivial
  aside h hi := ⟨⟨hi.1, hi.2.congr h.insts h.blocks⟩, fun ⟨stream, hpart, hchosen, hs⟩ =>
    ⟨stream, hpart, hchosen, hs.congr h.insts h.blocks fun _ hc => h.children ▸ hc⟩⟩
  append h hi := ⟨⟨hi.1, hi.2.withNext h⟩, fun ⟨stream, hpart, hchosen, hs⟩ =>
    ⟨stream, hpart, hchosen, hs.of_withNext h⟩⟩
  openWay _ hi := ⟨⟨hi.1, hi.2.newBlock⟩, fun ⟨stream, hpart, hchosen, hs⟩ =>
    ⟨stream, hpart, hchosen, hs.of_newBlock⟩⟩
  closeWay hi := ⟨⟨hi.1, List.forall_mem_cons.1 hi.2.ways |>.2, hi.2.insts⟩,
    fun ⟨stream, hpart, hchosen, hs⟩ => ⟨stream, hpart, hchosen, hs.cons⟩⟩
  naming _ hi := ⟨⟨hi.1, hi.2.congr rfl rfl⟩, fun ⟨stream, hpart, hchosen, hs⟩ =>
    ⟨stream, hpart, hchosen, hs.congr rfl rfl fun _ => id⟩⟩
  deferring _ hi := ⟨⟨hi.1, hi.2.congr rfl rfl⟩, fun ⟨stream, hpart, hchosen, hs⟩ =>
    ⟨stream, hpart, hchosen, hs.congr rfl rfl fun _ => id⟩⟩
  deferred_fit _ _ := trivial
  enter hi := ⟨Nat.le_succ_of_le hi.1, State.leading_new rfl⟩
  leave := by
    rintro d ways s t ⟨hdepth, hs⟩ ⟨-, ht⟩
    have hstream := Stream.addChild_eq s.stream t.stream
    have hinsts : (s.around t).stream.insts = s.stream.insts := congrArg (·.insts) hstream
    have hblocks : (s.around t).stream.blocks = s.stream.blocks := congrArg (·.blocks) hstream
    have hchildren : (s.around t).stream.children = s.stream.children ++ [t.stream] :=
      congrArg (·.children) hstream
    refine ⟨⟨hdepth, hs.congr hinsts hblocks⟩, fun ⟨stream, hpart, hchosen, hc⟩ => ⟨?_, ?_⟩⟩
    · have hchild : t.stream ∈ stream.children := hc.children _ (by simp [hchildren])
      exact ⟨t.stream, .trans (.child hchild (.self _)) hpart, fun h => by omega,
        State.continues_end⟩
    · exact ⟨stream, hpart, hchosen, hc.congr hinsts hblocks fun c h => by simp [hchildren, h]⟩

/-! ### Inline loops -/

/-- What leads to a block of a loop is evaluated at compile time, unless it is a jump of the
user. -/
def LoopBlocks.AllInline (blocks : LoopBlocks) (stream : Stream) : Prop :=
  ∀ i ∈ stream.insts.toList, ∀ b ∈ i.kind.targets, b ∈ blocks.all →
    i.isComptime = true ∨ i.IsJump b

/-- The check that the stream which goes on after an inline loop, a part of this one, leads to the
blocks of the loop at compile time. -/
def inlineEdges (whole : Stream) (env : Env) : Check := fun node scope s v s' =>
  node.kind.isInlineLoop = true →
    ∃ (levels : Nat) (loc : ResultLoc) (blocks : LoopBlocks) (stream : Stream),
      LowersLoop env (nested levels) node scope loc s blocks v s' ∧ stream.PartOf whole ∧
        s'.stream.insts.toList <+: stream.insts.toList ∧ blocks.AllInline stream

/-- What was there before the blocks of an inline loop does not lead to them, and what comes after
leads to them at compile time. -/
theorem allInline_of_continues {stream : Stream} (hnew : MakesBlocks t blocks u)
    (ht : t.Leading ways) (hu : u.Continues (blocks.ways true ++ ways) stream) :
    blocks.AllInline stream := by
  intro i hi b hb hmem
  have hfresh : ¬ b.index < t.stream.blocks.size := Nat.not_lt.2 (hnew.fresh b hmem)
  obtain ⟨later, hall⟩ := hu.insts
  have hlater := hu.later
  rw [← hall, ← Array.length_toList, List.drop_left] at hlater
  rw [← hall, hnew.insts] at hi
  rcases List.mem_append.1 hi with hi | hi
  · -- Before the loop its blocks were not there.
    exact .inr ((ht.insts i hi b hb).resolve_left hfresh)
  · refine (hlater i hi b hb (hnew.there b hmem)).imp_left fun ⟨inline, hway, hc⟩ => ?_
    rcases List.mem_append.1 hway with hway | hway
    · exact hc (LoopBlocks.inline_of_mem_ways hway)
    · exact absurd (ht.ways _ hway) hfresh

theorem approves_inlineEdges (whole : Stream) :
    (edges whole 0 whole).Approves env (inlineEdges whole env) := by
  intro levels d ways s s' node scope loc v _ hi ⟨stream, hpart, _, hs'⟩ hr hk
  obtain ⟨blocks, hloop⟩ := exists_lowersLoop hk hr
  -- The stream that goes on after the loop is the one that goes on after its blocks are made.
  obtain ⟨t, u, hnew, ht, hback⟩ := hloop.leads (I := edges whole d stream) (fun _ => trivial) hk
    ⟨Nat.le_refl d, hi.2⟩
  obtain ⟨_, -, hsame, hu⟩ := hback ⟨stream, hpart, fun _ => rfl, hs'⟩
  obtain rfl := hsame rfl
  exact ⟨levels, loc, blocks, _, hloop, hpart, hs'.insts, allInline_of_continues hnew ht.2 hu⟩

end Lower

namespace Generator

open Lower

variable {g : Generator} {node : Node} {name : String} {run : UnitRun} {runBy : Parts → UnitRun}

/-- Inline loops are evaluated at compile time on every edge that the user has not written as a
jump: in a unit that is not poisoned, wherever an inline loop is lowered, whatever leads to one of
its blocks in the stream of the loop, before it, in it or after it, is evaluated at compile time, if
it does not come from `break` or `continue`. -/
theorem Lowers.inline_edges (h : g.Lowers node name run runBy) (hp : run.unit.isPoisoned = false)
    (alarm : ∀ {α : Type}, LowerM α) :
    runBy (inspected (inlineEdges run.unit.stream ⟨g.table, g.options⟩) alarm g.options.maxDepth) =
      run := by
  refine (h.raises_no_alarm hp (I := edges run.unit.stream 0 run.unit.stream) ?_
    (fun _ _ _ _ => ⟨Nat.le_refl 0, State.leading_new rfl⟩) (fun t ht => ?_)
    (approves_inlineEdges _) alarm).1
  · rw [Inspection.Suits]
    split
    · exact ⟨fun _ _ => trivial, fun _ _ => trivial⟩
    · trivial
  · exact ⟨t.stream, ht ▸ .self _, fun _ => ht, State.continues_end⟩

end Generator

/-- `fn f() { inline while (true) { break; } }` -/
def Node.breaksInlineLoop : Node :=
  .bare (.fnDecl "f" [] none (some (.bare (.block none
    [.bare (.whileLoop none (.bare (.boolLiteral true)) none none
      (.bare (.block none [.bare (.breakTo none none)])) none true)]))) false false)

theorem inline_edges_breaksInlineLoop :
    (Generator.bare.lower .breaksInlineLoop).unit.isPoisoned = false ∧
      ∀ alarm : (∀ {α : Type}, Lower.LowerM α),
        Generator.bare.runNodeBy (Lower.inspected (Lower.inlineEdges
            (Generator.bare.lower .breaksInlineLoop).unit.stream
            ⟨Generator.bare.table, Generator.bare.options⟩) alarm Generator.bare.options.maxDepth)
          .breaksInlineLoop "f" [] = Generator.bare.lower .breaksInlineLoop :=
  have hp : (Generator.bare.lower .breaksInlineLoop).unit.isPoisoned = false := by decide +kernel
  ⟨hp, fun alarm => Generator.Lowers.inline_edges (.byKind (g := .bare) []) hp alarm⟩

/-- `break` leads to the end of an inline loop at run time, while the `else` branch leads there at
compile time. -/
theorem inline_loop_left_at_run_time :
    (Generator.bare.lower .breaksInlineLoop).unit.isPoisoned = false ∧
      ((Generator.bare.lower .breaksInlineLoop).unit.stream.insts.toList.filter
        (·.kind.targets = [⟨5⟩])).map (fun i => (i.isGen, i.isComptime)) =
          [(false, false), (true, true)] := by
  decide +kernel

end SourceIr
