import SourceIr.File
import SourceIr.Proofs.Run
import SourceIr.Proofs.Scope.Growth
import SourceIr.Proofs.Syntax.Regular

/-!
# Lowered units

The ways to get a unit: as a declaration of a file, from a node that stands by itself, and from a
node that is expected to be a function.

* `Lowering`, a node with the unit that it is lowered into;
* `FileRun.mem_units_iff`, the units of a file;
* `Lowering.cases`, the two kinds of units, with the scopes they start in;
* `Node.bare`, `Generator.bare`, the plainest node of a kind and what it is lowered against.
-/

namespace SourceIr

/-- A node is lowered into a unit. -/
inductive Lowering : Node → UnitRun → Prop
  /-- As a declaration of a file. -/
  | inFile {root : Node} {options : Options} {decl : Decl} {node : Node}
      (h : (decl, node) ∈ FileRun.work (DeclTable.ofRoot root).1 root.topLevel) :
      Lowering node
        (({ table := (DeclTable.ofRoot root).1, options } : Generator).lowerDecl decl node)
  /-- By itself. -/
  | alone (g : Generator) (node : Node) : Lowering node (g.lower node)
  /-- By itself, as a function. -/
  | asFn (g : Generator) (node : Node) : Lowering node (g.lowerFnBody node)

/-- The units of a file are those of its declarations. -/
theorem FileRun.mem_units_iff {root : Node} {options : Options} {u : LoweredUnit} :
    u ∈ (FileRun.ofRoot root options).file.units ↔
      ∃ decl node, (decl, node) ∈ FileRun.work (DeclTable.ofRoot root).1 root.topLevel ∧
        u = (({ table := (DeclTable.ofRoot root).1, options } : Generator).lowerDecl
          decl node).unit := by
  simp only [FileRun.ofRoot, List.map_map, List.mem_map, Prod.exists, Function.comp_apply]
  constructor
  · rintro ⟨decl, node, h, rfl⟩
    exact ⟨decl, node, h, rfl⟩
  · rintro ⟨decl, node, h, rfl⟩
    exact ⟨decl, node, h, rfl⟩

/-- Every unit of a file is lowered from a node. -/
theorem FileRun.exists_lowering {root : Node} {options : Options} {u : LoweredUnit}
    (h : u ∈ (FileRun.ofRoot root options).file.units) :
    ∃ node run, Lowering node run ∧ run.unit = u := by
  obtain ⟨decl, node, hw, rfl⟩ := FileRun.mem_units_iff.1 h
  exact ⟨node, _, .inFile hw, rfl⟩

/-- What a function is lowered from are the trees of its node. -/
theorem Lower.FnParts.trees_of_ofNode? {node : Node} {fn : FnParts}
    (h : FnParts.ofNode? node = some fn) :
    node.kind.trees = fn.params ++ fn.returnType.toList ++ fn.body.toList := by
  rw [FnParts.ofNode?] at h
  split at h <;> cases h
  all_goals
    next hk =>
      rw [hk]
      simp [Kind.trees, Kind.values, FieldValue.trees_ofOption, FieldValue.trees_ofOption_text]
      try simp [FieldValue.trees]

/-- A function that is only declared. -/
def Node.lacksBody (node : Node) : Bool := (Lower.FnParts.ofNode? node).any (·.body.isNone)

/-- A unit is a function, or it is evaluated at compile time as a whole. -/
theorem Lowering.cases {node : Node} {run : UnitRun} (h : Lowering node run) :
    ∃ (g : Generator) (name : String) (kind : UnitKind) (containers : List String),
      run = g.runFunction node name kind containers ∨
        run = g.runTopLevel node name kind containers ∧ Lower.FnParts.ofNode? node = none := by
  have split : ∀ (g : Generator) name containers,
      g.runNode node name containers = g.runFunction node name (.ofNode node) containers ∨
        g.runNode node name containers = g.runTopLevel node name (.ofNode node) containers ∧
          Lower.FnParts.ofNode? node = none := by
    intro g name containers
    rw [Generator.runNode, UnitKind.ofNode, Lower.FnParts.ofNode?]
    cases node.kind <;> simp
  cases h with
  | inFile hw => exact ⟨_, _, _, _, split _ _ _⟩
  | alone g node => exact ⟨_, _, _, _, split _ _ _⟩
  | asFn g node => exact ⟨_, _, _, _, .inl rfl⟩

/-- A node without a number and without a place in a file. -/
def Node.bare (kind : Kind) : Node := ⟨0, kind, none, none⟩

/-- A generator for nodes that name no declaration. -/
def Generator.bare : Generator := ⟨.empty "", {}, .empty⟩

/-! ### The scopes of a unit at its start -/

namespace Generator

open ScopeTree

/-- Scopes in which a unit may start: the last scope was opened for it. -/
structure Opened (r : ScopeId × ScopeTree) : Prop where
  scopes : r.2.WellFormed
  index : r.1.index < r.2.scopes.size
  kind : ∃ x, r.2.scope? r.1 = some x ∧ x.kind.endsJumps = true

theorem opened_openUnder {t : ScopeTree} {scope : ScopeId} {path : String} (ht : t.WellFormed)
    (hs : scope.index < t.scopes.size) : Opened (t.openUnder scope (.container path)) where
  scopes := ht.openUnder hs
  index := by simp
  kind := ⟨_, scope?_openUnder scope (.container path), rfl⟩

theorem opened_openContainers {containers : List String} {t : ScopeTree} {scope : ScopeId}
    (h : Opened (scope, t)) : Opened (openContainers t scope containers) := by
  induction containers generalizing t scope with
  | nil => exact h
  | cons path rest ih => exact ih (opened_openUnder h.scopes h.index)

theorem eq_of_openTop {root : String} {i : Nat} {x : Scope}
    (h : (ScopeTree.empty.openTop root).2.scopes[i]? = some x) :
    i = 0 ∧ x = ⟨⟨0⟩, none, .topLevel root, #[], []⟩ := by
  cases i with
  | zero => exact ⟨rfl, (Option.some.inj h).symm⟩
  | succ i => cases h

theorem opened_unitScopes (g : Generator) (containers : List String) :
    Opened (g.unitScopes containers) := by
  refine opened_openContainers ⟨⟨?_, ?_, ?_⟩, Nat.zero_lt_one, ⟨_, rfl, rfl⟩⟩ <;>
    (intro i x h; obtain ⟨rfl, rfl⟩ := eq_of_openTop h)
  · rfl
  · rintro p ⟨⟩
  · simp

theorem bare_openContainers {containers : List String} {t : ScopeTree} {scope : ScopeId}
    (h : t.Bare) : (openContainers t scope containers).2.Bare := by
  induction containers generalizing t scope with
  | nil => exact h
  | cons path rest ih => exact ih h.openUnder

/-- No variable is declared around a unit. -/
theorem bare_unitScopes (g : Generator) (containers : List String) :
    (g.unitScopes containers).2.Bare := by
  refine bare_openContainers ⟨rfl, fun i x h => ?_, fun i x h => ?_⟩ <;>
    obtain ⟨-, rfl⟩ := eq_of_openTop h
  · exact ⟨rfl, rfl⟩
  · exact fun _ => ⟨_, rfl⟩

end Generator

end SourceIr
