import SourceIr.Proofs.Nesting.Deeper
import SourceIr.Proofs.Retouch.Basic

/-!
# Units that differ in particulars

Where a retouching leads from one environment to another, it leads from the units of the one to
those of the other.  The options have no more say in a unit than that, but for the limit of nesting,
which matters only where it is exceeded.

* `Generator.unit_runNode_retouch` and `Generator.unit_runFunction_retouch`, the units in two such
  environments;
* `Generator.unitBy`, the unit of a node, in whichever way it is lowered;
* `Generator.unitBy_of_options`, the units of a node under different options.
-/

namespace SourceIr.Generator

open Lower

/-! ### Two generators -/

section Retouch

variable {ρ : Retouch} {g g' : Generator} (node : Node) (name : String) (kind : UnitKind)
  (containers : List String)

/-- Two generators lower in environments that a retouching leads from one to the other. -/
structure Between (ρ : Retouch) (g g' : Generator) : Prop
    extends Lower.Between ρ ⟨g.table, g.options⟩ ⟨g'.table, g'.options⟩ where
  root : g'.table.root = g.table.root
  calls : g'.calls = g.calls

variable (h : Between ρ g g')

include h

theorem Between.unitScopes_eq : g'.unitScopes containers = g.unitScopes containers := by
  rw [unitScopes, unitScopes, h.root]

/-- At its start, a unit has nothing on record. -/
theorem Between.start_eq (isInline : Bool) (scopes : ScopeTree) (root : ScopeId) :
    g'.start (Stream.new name isInline) scopes root =
      (g.start (Stream.new name isInline) scopes root).retouch ρ #[] := by
  rw [start, start, State.retouch, Stream.new_retouch, h.calls]

theorem Between.unit_run {x x' : LowerM PUnit} {isInline : Bool} {scopes : ScopeTree}
    {root : ScopeId} (hx : Mirrors ρ ⟨g.table, g.options⟩ ⟨g'.table, g'.options⟩ x x') :
    (g'.run name kind (g'.start (Stream.new name isInline) scopes root) x').unit =
      (g.run name kind (g.start (Stream.new name isInline) scopes root) x).unit.retouch ρ := by
  obtain ⟨log, ho⟩ := hx (g.start (Stream.new name isInline) scopes root) #[]
  rw [run_eq, run_eq, h.start_eq, ho]
  rfl

theorem unit_runFunction_retouch : (g'.runFunction node name kind containers).unit =
    (g.runFunction node name kind containers).unit.retouch ρ := by
  have hparts := relParts_retouches h.toBetween g.options.maxDepth
  rw [runFunction_eq, runFunction_eq, runFunctionBy, runFunctionBy, h.unitScopes_eq,
    show g'.options.maxDepth = g.options.maxDepth from h.maxDepth]
  exact h.unit_run name kind (Comparison.rel_lowerAsFunction hparts)

theorem unit_runTopLevel_retouch : (g'.runTopLevel node name kind containers).unit =
    (g.runTopLevel node name kind containers).unit.retouch ρ := by
  have hparts := relParts_retouches h.toBetween g.options.maxDepth
  rw [runTopLevel_eq, runTopLevel_eq, runTopLevelBy, runTopLevelBy, h.unitScopes_eq,
    show g'.options.maxDepth = g.options.maxDepth from h.maxDepth]
  exact h.unit_run name kind (Comparison.rel_lowerAsTopLevel hparts)

/-- A unit in the one environment is that in the other one, retouched. -/
theorem unit_runNode_retouch : (g'.runNode node name containers).unit =
    (g.runNode node name containers).unit.retouch ρ := by
  rw [runNode, runNode]
  cases UnitKind.ofNode node
  case function | test => exact unit_runFunction_retouch node name _ containers h
  case topLevel | comptime => exact unit_runTopLevel_retouch node name _ containers h

end Retouch

/-! ### Options -/

/-- The ways in which a node is lowered into a unit. -/
inductive Way where
  /-- By itself. -/
  | alone
  /-- By itself, as a function. -/
  | asFn
  /-- As a declaration of the table. -/
  | declared (decl : Decl)

/-- The unit of a node. -/
def unitBy (g : Generator) (way : Way) (node : Node) : LoweredUnit :=
  match way with
  | .alone => (g.lower node).unit
  | .asFn => (g.lowerFnBody node).unit
  | .declared decl => (g.lowerDecl decl node).unit

/-- The same generator with statements without effect worth a warning or not. -/
def warning (g : Generator) (warnNoEffect : Bool) : Generator :=
  { g with options := { g.options with warnNoEffect } }

/-- The same generator with another limit of frames. -/
def framing (g : Generator) (callStackLimit : Nat) : Generator :=
  { g with options := { g.options with callStackLimit } }

variable (g : Generator) (way : Way) (node : Node)

theorem between_warning : Between .withoutNoEffect (g.warning true) (g.warning false) where
  table name := rfl
  policy := rfl
  maxDepth := rfl
  frames m calls _ := rfl
  noEffect m hm := by simp [warning, Retouch.withoutNoEffect, hm]
  unreachable m hm := by simp [Retouch.withoutNoEffect, hm]
  root := rfl
  calls := rfl

theorem between_framing {limit limit' : Nat} (h : limit' ≤ limit) :
    Between (.firstFrames limit') (g.framing limit) (g.framing limit') where
  table name := rfl
  policy := rfl
  maxDepth := rfl
  frames m calls hm := by
    simp [Message.withCallers, Retouch.firstFrames, framing, hm, ← List.map_take, List.take_take,
      Nat.min_eq_left h]
  noEffect m _ := by simp [framing, Retouch.firstFrames]
  unreachable _ _ := rfl
  root := rfl
  calls := rfl

/-- The unit of a node in two environments, in whichever way it is lowered. -/
theorem unitBy_retouch {ρ : Retouch} {g g' : Generator} (h : Between ρ g g')
    (htable : g'.table = g.table) : g'.unitBy way node = (g.unitBy way node).retouch ρ := by
  cases way with
  | alone => exact unit_runNode_retouch node _ _ h
  | asFn => exact unit_runFunction_retouch node _ _ _ h
  | declared decl =>
    rw [unitBy, unitBy, lowerDecl, lowerDecl, htable]
    exact unit_runNode_retouch node _ _ h

theorem unitBy_deep {maxDepth : Nat} (h : g.options.maxDepth ≤ maxDepth)
    (hp : (g.unitBy way node).isPoisoned = false) :
    (g.deep maxDepth).unitBy way node = g.unitBy way node := by
  cases way with
  | alone => exact congrArg UnitRun.unit (g.runNode_deep node _ _ h hp)
  | asFn => exact congrArg UnitRun.unit (g.runFunction_deep node _ _ _ h hp)
  | declared decl => exact congrArg UnitRun.unit (g.runNode_deep node _ _ h hp)

/-- The options do what they say and no more, for every node, table and way.  Without the warnings
on statements without effect, the unit is the same but for these warnings.  Under two limits of
frames, each error names the first frames of one common list, and the unit is the same otherwise.
A unit that is not poisoned is the same where more levels of nesting are allowed. -/
theorem unitBy_of_options (g : Generator) (way : Way) (node : Node) :
    (g.warning false).unitBy way node =
        ((g.warning true).unitBy way node).retouch .withoutNoEffect ∧
      (∀ limit limit', ∃ full : LoweredUnit,
        (g.framing limit).unitBy way node = full.retouch (.firstFrames limit) ∧
          (g.framing limit').unitBy way node = full.retouch (.firstFrames limit')) ∧
      ∀ depth depth', depth ≤ depth' → ((g.deep depth).unitBy way node).isPoisoned = false →
        (g.deep depth').unitBy way node = (g.deep depth).unitBy way node := by
  refine ⟨unitBy_retouch way node g.between_warning rfl, fun limit limit' => ?_,
    fun depth depth' h hp => (g.deep depth).unitBy_deep way node h hp⟩
  exact ⟨(g.framing (max limit limit')).unitBy way node,
    unitBy_retouch way node (g.between_framing (Nat.le_max_left ..)) rfl,
    unitBy_retouch way node (g.between_framing (Nat.le_max_right ..)) rfl⟩

/-- A block with a statement without effect needs three levels of nesting: one for the block, one
for the statement and one for its expression. -/
theorem unitBy_of_options_block :
    let node := Node.bare (.block none [.bare (.intLiteral 1)])
    3 ≤ 256 ∧ ((bare.deep 3).unitBy .alone node).isPoisoned = false ∧
      (bare.deep 256).unitBy .alone node = (bare.deep 3).unitBy .alone node :=
  have hp : ((bare.deep 3).unitBy .alone
      (.bare (.block none [.bare (.intLiteral 1)]))).isPoisoned = false := by decide +kernel
  ⟨by decide, hp, (bare.unitBy_of_options .alone _).2.2 3 256 (by decide) hp⟩

/-- With a level less, the unit is poisoned. -/
example : ((bare.deep 2).unitBy .alone
    (.bare (.block none [.bare (.intLiteral 1)]))).isPoisoned = true := by
  decide +kernel

end SourceIr.Generator
