import SourceIr.Proofs.Enclosure.Control
import SourceIr.Proofs.Safety.Unit

/-!
# Enclosure of units

No branch leads out of a unit that is lowered in scopes of the caller, but for jumps to the very
scope in which it is lowered.

* `Generator.encloses_lowerIn`, where the branches of such a unit lead;
* `ScopeTree.aroundLoop`, with a loop of the caller that a jump leads to.
-/

namespace SourceIr

namespace Lower

variable {env : Env} {s : State} {node : Node} {scope : ScopeId}

theorem confines_lowerBody (hs : IsInside s scope) :
    Confines env s (lowerBody node scope) fun _ _ => True := by
  refine confines_read_bind ?_
  have hp := @confinedParts_nested env env.options.maxDepth
  refine confines_bind (hp.value hs) fun s₁ value k₁ _ => ?_
  refine confines_isTerminated_bind fun terminated => ?_
  split
  · exact confines_bind (confines_emitPlain rfl) fun _ _ _ _ => confines_pure trivial
  · exact confines_pure trivial

end Lower

open Lower

namespace Generator

/-- A unit that is lowered in scopes of the caller is lowered to its end, unless it is poisoned. -/
theorem returns_lowerIn (g : Generator) (node : Node) {scopes : ScopeTree} {scope : ScopeId}
    (name : String) (hscopes : scopes.WellFormed) (hs : scope.index < scopes.scopes.size)
    (hp : (g.lowerIn node scopes scope name).unit.isPoisoned = false) :
    ∃ s', Returns (lowerBody node scope) ⟨g.table, g.options⟩
        (g.start (Stream.new name (scopes.isForcedComptime scope)) scopes scope) ⟨⟩ s' ∧
      s'.stream = (g.lowerIn node scopes scope name).unit.stream := by
  have hrun : (g.lowerIn node scopes scope name).outcome = .ok ⟨⟩ ∨
      (g.lowerIn node scopes scope name).outcome = .error .poisoned ∧
        (g.lowerIn node scopes scope name).unit.isPoisoned = true := by
    rw [lowerIn]
    exact run_outcome (g.safe_start hscopes) rfl (secure_lowerBody hs)
  have ho := hrun.resolve_right fun h => Bool.false_ne_true (hp.symm.trans h.2)
  exact ⟨_, returns_of_outcome ho, rfl⟩

/-- In a unit that is lowered in well-formed scopes of the caller, and that is not poisoned, every
branch leads to a block of the unit, except that a jump to the scope in which it is lowered leads to
the blocks of that scope.  The streams of the compile-time blocks inside have no branch that leads
out of them. -/
theorem encloses_lowerIn (g : Generator) (node : Node) {scopes : ScopeTree} {scope : ScopeId}
    {x : Scope} (name : String) (hscopes : scopes.WellFormed) (hx : scopes.scope? scope = some x)
    (hp : (g.lowerIn node scopes scope name).unit.isPoisoned = false) :
    (g.lowerIn node scopes scope name).unit.stream.Encloses (exits x.kind) ∧
      ∀ c ∈ (g.lowerIn node scopes scope name).unit.stream.children, ∀ t : Stream, t.PartOf c →
        t.Encloses [] := by
  have hs : scope.index < scopes.scopes.size := (Array.getElem?_eq_some_iff.1 hx).1
  obtain ⟨s', hr, hstream⟩ := g.returns_lowerIn node name hscopes hs hp
  have hstart : Enclosed (g.start (Stream.new name (scopes.isForcedComptime scope)) scopes scope) :=
    ⟨hscopes, hs, Stream.encloses_new name _, nofun⟩
  obtain ⟨he, k, -⟩ := confines_lowerBody hstart.isInside_root hstart ⟨⟩ s' hr
  have houter : s'.outer = exits x.kind := (k.outer hstart.root).trans (State.exitsOf_eq hx)
  exact hstream ▸ ⟨houter ▸ he.stream, he.children⟩

end Generator

/-- Scopes with a loop whose blocks belong to a stream of the caller. -/
def ScopeTree.aroundLoop : ScopeTree :=
  ((Generator.bare.unitScopes []).2.openUnder ⟨0⟩ (.loop none ⟨7⟩ ⟨8⟩)).2

theorem ScopeTree.wellFormed_aroundLoop : aroundLoop.WellFormed :=
  (Generator.opened_unitScopes .bare []).scopes.openUnder (by decide)

/-- A `break` that is lowered in the loop itself. -/
def UnitRun.breaksLoop : UnitRun :=
  Generator.bare.lowerIn (.bare (.breakTo none none)) .aroundLoop ⟨1⟩ "e"

theorem Generator.encloses_lowerIn_breaksLoop :
    UnitRun.breaksLoop.unit.stream.Encloses [⟨7⟩, ⟨8⟩] ∧
      ∀ c ∈ UnitRun.breaksLoop.unit.stream.children, ∀ t : Stream, t.PartOf c → t.Encloses [] :=
  have hx : ScopeTree.aroundLoop.scope? ⟨1⟩ =
      some ⟨⟨1⟩, some ⟨0⟩, .loop none ⟨7⟩ ⟨8⟩, #[], []⟩ := rfl
  have hp : UnitRun.breaksLoop.unit.isPoisoned = false := by decide +kernel
  Generator.encloses_lowerIn .bare (.bare (.breakTo none none)) "e"
    ScopeTree.wellFormed_aroundLoop hx hp

/-- The scopes are well formed and the unit is not poisoned, and yet it branches to the end of the
loop, which is no block of it. -/
theorem Generator.breaksLoop_leaves : ScopeTree.aroundLoop.WellFormed ∧
    (ScopeTree.aroundLoop.scope? ⟨1⟩).map (·.kind) = some (.loop none ⟨7⟩ ⟨8⟩) ∧
      UnitRun.breaksLoop.unit.isPoisoned = false ∧
        ¬ UnitRun.breaksLoop.unit.stream.Encloses [] := by
  refine ⟨ScopeTree.wellFormed_aroundLoop, rfl, by decide +kernel, fun h => ?_⟩
  have hbr : ∃ x ∈ UnitRun.breaksLoop.unit.stream.insts.toList,
      (⟨7⟩ : BlockId) ∈ x.kind.targets := by decide +kernel
  have hsize : UnitRun.breaksLoop.unit.stream.blocks.size = 1 := by decide +kernel
  obtain ⟨x, hx, hb⟩ := hbr
  rcases h x (Array.mem_toList_iff.1 hx) ⟨7⟩ hb with hlt | ⟨-, hmem⟩
  · rw [hsize] at hlt
    exact absurd hlt (by decide)
  · cases hmem

end SourceIr
