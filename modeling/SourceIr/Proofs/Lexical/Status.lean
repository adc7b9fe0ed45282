import SourceIr.Proofs.Comptime
import SourceIr.Proofs.Lexical.Unit
import SourceIr.Proofs.Scope.Visible

/-!
# Compile-time status

Where everything is evaluated at compile time, so is every instruction, and nothing is emitted that
cannot be.  The streams of compile-time blocks start in such a scope, and nothing of what is lowered
into them stands outside it: deferred expressions are lowered on ways out that do not leave the
stream.

* `Inst.FollowsStatus`, `LoweredUnit.FollowsStatus`, the instructions of a unit;
* `status`, the discipline: what is lowered into a stream lies inside the scope it starts in;
* `lowering_followsStatus`, every unit.
-/

namespace SourceIr

/-- An instruction that cannot be evaluated at compile time. -/
def InstKind.isRunTimeOnly : InstKind → Bool
  | .asm .. | .suspendBegin => true
  | .call _ _ modifier _ => modifier == .neverInline || modifier == .async
  | _ => false

/-- An instruction has the compile-time status that its scope and its stream ask for. -/
structure Inst.FollowsStatus (t : ScopeTree) (isInline : Bool) (i : Inst) : Prop where
  inline : isInline = true → t.isForcedComptime i.scope = true ∧ i.isComptime = true
  comptime : t.isForcedComptime i.scope = true → i.isComptime = true
  runTime : t.isForcedComptime i.scope = true → i.kind.isRunTimeOnly = false

/-- Every instruction of a unit has the compile-time status that its scope and its stream ask
for. -/
def LoweredUnit.FollowsStatus (u : LoweredUnit) : Prop :=
  ∀ t : Stream, t.PartOf u.stream → ∀ i ∈ t.insts.toList, i.FollowsStatus u.scopes t.isInline

namespace ScopeTree

variable {t t' : ScopeTree} {c : ScopeId} {x y : Scope}

/-- Whether everything in a scope is evaluated at compile time does not change. -/
theorem Grows.isForcedComptime_eq (h : t.Grows t') (hc : c.index < t.scopes.size) :
    t'.isForcedComptime c = t.isForcedComptime c := by
  rw [Lower.isForcedComptime_eq_links, Lower.isForcedComptime_eq_links, h.links_eq hc]

/-- What is inside a scope that is evaluated at compile time is evaluated at compile time. -/
theorem WellFormed.isForcedComptime_of_mem (ht : t.WellFormed) (hx : x ∈ t.chain c)
    (h : t.isForcedComptime x.id = true) : t.isForcedComptime c = true := by
  obtain ⟨pre, rest, hl⟩ := List.append_of_mem hx
  rw [isForcedComptime, ht.chain_of_append hl] at h
  rw [isForcedComptime, hl, List.any_append, h, Bool.or_true]

/-- What is around a scope is around its parent, or it is the scope itself. -/
theorem WellFormed.onChain_parent (ht : t.WellFormed) (hy : y ∈ t.chain c) (hx : x ∈ t.chain y.id)
    (hne : x.id ≠ y.id) : t.OnChain x.id (y.parent.getD y.id) := by
  have hscope := ht.scope?_of_mem hy
  cases hp : y.parent with
  | none => exact ⟨x, hx, rfl⟩
  | some p =>
    rw [ht.chain_eq hscope, hp] at hx
    rcases List.mem_cons.1 hx with rfl | hx
    · exact absurd rfl hne
    · exact ⟨x, hx, rfl⟩

end ScopeTree

namespace Lower

variable {s s' t : State} {c p : ScopeId} {kind : ScopeKind} {n : Nat}

/-- A scope in which something is lowered into the stream lies inside the one it starts in. -/
structure InStream (s : State) (c : ScopeId) : Prop where
  lt : c.index < s.scopes.scopes.size
  root : s.scopes.OnChain s.streamRoot c

/-- An instruction that is there has the status that is asked for. -/
def StatusAt (t : ScopeTree) (isInline : Bool) (i : Inst) : Prop :=
  i.scope.index < t.scopes.size ∧ i.FollowsStatus t isInline

/-- All instructions have the status that is asked for, and a stream that is evaluated at compile
time as a whole starts in a scope that is, too. -/
structure HasStatus (s : State) : Prop where
  scopes : s.scopes.WellFormed
  root_lt : s.streamRoot.index < s.scopes.scopes.size
  root : s.stream.isInline = true → s.scopes.isForcedComptime s.streamRoot = true
  every : s.Every StatusAt

theorem StatusAt.grows {t t' : ScopeTree} (hg : t.Grows t') (b : Bool) (i : Inst)
    (h : StatusAt t b i) : StatusAt t' b i := by
  have heq := hg.isForcedComptime_eq h.1
  refine ⟨Nat.lt_of_lt_of_le h.1 hg.size_le, ?_, ?_, ?_⟩
  · rw [heq]
    exact h.2.inline
  · rw [heq]
    exact h.2.comptime
  · rw [heq]
    exact h.2.runTime

namespace InStream

theorem grows (hc : InStream s c) (hg : s.scopes.Grows s'.scopes)
    (hroot : s'.streamRoot = s.streamRoot) : InStream s' c where
  lt := Nat.lt_of_lt_of_le hc.lt hg.size_le
  root := hroot ▸ (hg.onChain_iff hc.lt).2 hc.root

theorem opening (hp : InStream s p) : InStream (s.opening p kind) s.top where
  lt := by simp [State.opening, State.top]
  root := ScopeTree.onChain_openUnder hp.lt hp.root

/-- The scope itself is the one that the stream starts in. -/
theorem self (hs : HasStatus s) : InStream s s.streamRoot where
  lt := hs.root_lt
  root := hs.scopes.onChain_self hs.root_lt

/-- The scope around one that is reached without leaving the stream. -/
theorem parent {y : Scope} (hc : InStream s c) (ht : s.scopes.WellFormed)
    (hy : ScopeTree.Reaches s.streamRoot (s.scopes.chain c) y) :
    InStream s (y.parent.getD y.id) := by
  obtain ⟨x, hx, hroot⟩ := hc.root
  have hxy := hy.mem_chain ht hx hroot
  have hmem := hy.mem
  obtain ⟨pre, rest, hl, hpre⟩ := hy
  have hne : x.id ≠ y.id := fun e => hpre y (by simp) (e.symm.trans hroot)
  obtain ⟨z, hz, hid⟩ := ht.onChain_parent hmem hxy hne
  exact ⟨ScopeTree.lt_of_mem_chain hz, z, hz, hid.trans hroot⟩

/-- Nothing is lowered at run time into a stream that is evaluated at compile time. -/
theorem isForcedComptime (hc : InStream s c) (hs : HasStatus s)
    (h : s.stream.isInline = true) : s.scopes.isForcedComptime c = true := by
  obtain ⟨x, hx, hroot⟩ := hc.root
  exact hs.scopes.isForcedComptime_of_mem hx (hroot ▸ hs.root h)

end InStream

namespace HasStatus

/-- Scopes are opened and variables declared. -/
theorem grows (hs : HasStatus s) {t : ScopeTree} (hg : s.scopes.Grows t) (ht : t.WellFormed) :
    HasStatus { s with scopes := t } where
  scopes := ht
  root_lt := Nat.lt_of_lt_of_le hs.root_lt hg.size_le
  root h := (hg.isForcedComptime_eq hs.root_lt).trans (hs.root h)
  every := hs.every.mono rfl rfl rfl (StatusAt.grows hg)

theorem withNext {env : Env} {kind : InstKind} {location : Option Location} {force gen : Bool}
    (hs : HasStatus s) (hc : InStream s c) (hf : Fits env s c kind) :
    HasStatus (s.withNext kind c location force gen) where
  scopes := hs.scopes
  root_lt := hs.root_lt
  root := hs.root
  every := by
    refine hs.every.withNext
      ⟨hc.lt, fun h => ⟨hc.isForcedComptime hs h, ?_⟩, fun h => ?_, fun h => ?_⟩
    · simp [isComptimeIn, h]
    · simp [isComptimeIn, h]
    · cases kind
      case asm | suspendBegin => exact absurd h (by simp [show _ = false from hf])
      case call callee args modifier loc =>
        have := hf h
        cases modifier <;> simp_all [InstKind.isRunTimeOnly, CallModifier.runTimeOnly?]
      all_goals rfl

end HasStatus

/-- What is lowered into a stream lies inside the scope it starts in. -/
def status (env : Env) : Discipline env where
  Inv := HasStatus
  At := InStream
  MayDefer _ _ := True
  Alarm _ := False
  wellFormed h := h.scopes
  root_lt h := h.root_lt
  index_lt h := h.lt
  at_frame _ hc h _ := hc.grows h.grows h.root
  inv_alike {s s'} hs h := by
    refine ⟨?_, ?_, ?_, hs.every.of_alike h⟩
    · exact h.scopes ▸ hs.scopes
    · exact h.root ▸ h.scopes ▸ hs.root_lt
    · rw [h.isInline, h.scopes, h.root]
      exact hs.root
  inv_emit _ _ _ hs hc hf := hs.withNext hc hf
  inv_open kind hs hlt := hs.grows (ScopeTree.grows_openUnder _ kind) (hs.scopes.openUnder hlt)
  at_open _ hc _ := hc.opening
  at_defer _ _ hc _ _ := hc.opening
  at_body hs hc hy _ := (hc.parent hs.scopes hy).opening
  declare {s c r} hs hc _ _ := by
    have hg := ScopeTree.grows_addVar (t := s.scopes) c r
    exact ⟨hs.grows hg (hs.scopes.addVar r), hc.grows hg rfl⟩
  child name hs hc h := by
    have hs' : HasStatus (State.inChild _ name _) :=
      ⟨hs.scopes, hc.lt, fun _ => h, State.every_new rfl rfl⟩
    exact ⟨hs', .self hs'⟩
  around {s t c n name} hs ht h := by
    refine ⟨ht.scopes, Nat.lt_of_lt_of_le hs.root_lt h.grows.size_le, ?_,
      hs.every.around ht.every (StatusAt.grows h.grows)⟩
    intro hinline
    rw [State.around, Stream.addChild_eq] at hinline
    exact (h.grows.isForcedComptime_eq hs.root_lt).trans (hs.root hinline)

end Lower

open Lower

variable {run : UnitRun} {g : Generator}

/-- Everything that is emitted into a unit has the status that is asked for. -/
theorem Generator.Unit.followsStatus {F : ScopeTree → Prop} {runBy : Parts → UnitRun}
    (h : g.Unit F run runBy) : run.unit.FollowsStatus := by
  obtain ⟨r, hs, -, name, kind⟩ := h
  have hstart : HasStatus _ :=
    ⟨hs.scopes, hs.root ▸ hs.lt, fun hi => hs.root ▸ hs.isInline hi,
      State.every_new hs.insts hs.children⟩
  have hp := keepsParts_nested (d := status ⟨g.table, g.options⟩) (fun _ _ => trivial)
    g.options.maxDepth
  obtain ⟨s', hs', hstream, hscopes⟩ :=
    (r.ends hp hstart (hs.root ▸ .self hstart)).leaves name kind
  intro t ht i hi
  rw [← hscopes]
  exact (hs'.every t (hstream ▸ ht) i hi).2

/-- The compile-time status is contagious, in whichever way a unit is lowered: in a stream that is
evaluated at compile time as a whole, so is every scope and every instruction; an instruction in a
scope in which everything is evaluated at compile time is evaluated at compile time; and there
nothing is emitted that cannot be. -/
theorem lowering_followsStatus :
    (∀ {node : Node} {run : UnitRun}, Lowering node run → run.unit.FollowsStatus) ∧
      ∀ (g : Generator) (node : Node) (scopes : ScopeTree) (scope : ScopeId) (name : String),
        scopes.WellFormed → scope.index < scopes.scopes.size →
          (g.lowerIn node scopes scope name).unit.FollowsStatus := by
  constructor
  · intro node run h
    obtain ⟨g, runBy, hunit⟩ := h.unit
    exact hunit.followsStatus
  · intro g node scopes scope name ht hs
    exact (g.unit_lowerIn (F := fun _ => True) node name ht hs trivial).followsStatus

/-- A function with a compile-time block. -/
def Node.evaluates : Node :=
  .bare (.fnDecl "f" [] none (some (.bare (.comptime (.bare (.boolLiteral true))))) false false)

theorem lowering_followsStatus_evaluates :
    (Generator.bare.lower .evaluates).unit.stream.children.map (·.isInline) = [true] ∧
      (Generator.bare.lower .evaluates).unit.FollowsStatus ∧
      (Generator.bare.comptimeScopes []).isForcedComptime ⟨1⟩ = true ∧
      (Generator.bare.lowerIn (.bare (.boolLiteral true)) (Generator.bare.comptimeScopes []) ⟨1⟩
        "e").unit.FollowsStatus :=
  ⟨by decide +kernel, lowering_followsStatus.1 (.alone .bare .evaluates),
    Generator.bare.isForcedComptime_comptimeScopes [],
    lowering_followsStatus.2 .bare _ _ ⟨1⟩ "e" (Generator.bare.wellFormed_comptimeScopes [])
      (Generator.bare.lt_comptimeScopes [])⟩

end SourceIr
