import Mathlib.Data.List.Basic
import SourceIr.Proofs.Syntax.Values
import SourceIr.Proofs.Syntax.Words

/-!
# Trees by their parts

A tree is made of the trees in the fields of its construct.

* `Node.induct`, induction over a tree by these parts, and `Kind.nodes_eq_trees`, its nodes;
* `Node.regular`: the nodes of a tree with other numbers are numbered by their positions, and a tree
  does not remember the numbers that it had;
* `Node.Fits`, the trees whose lines, columns and integer literals are words of 64 bits, and
  `Node.fits_iff`: such a tree fits by itself and in the trees below it.
-/

namespace SourceIr

namespace FieldValue

theorem sizeOf_ofOption (part : Option Node) : sizeOf (ofOption .node part) = sizeOf part := by
  cases part <;> rfl

theorem sizeOf_ofOption_text (part : Option String) :
    sizeOf (ofOption .text part) = sizeOf part := by
  cases part <;> rfl

theorem sizeOf_lt_of_mem_trees {value : FieldValue} {tree : Node} (h : tree ∈ value.trees) :
    sizeOf tree < sizeOf value := by
  cases value with
  | node n =>
    simp [List.mem_singleton.mp h]
  | nodes ns =>
    have : sizeOf tree < sizeOf ns := List.sizeOf_lt_of_mem h
    simp
    omega
  | init i =>
    obtain ⟨name, v⟩ := i
    simp [List.mem_singleton.mp h]
    omega
  | inits is =>
    obtain ⟨⟨name, v⟩, hi, rfl⟩ := List.mem_map.mp h
    have := List.sizeOf_lt_of_mem hi
    simp at this ⊢
    omega
  | _ => cases h

end FieldValue

namespace Kind

/-- The trees in the fields of a construct. -/
def trees (kind : Kind) : List Node := kind.values.flatMap (·.2.trees)

theorem sizeOf_value_le (kind : Kind) : ∀ field ∈ kind.values, sizeOf field.2 ≤ sizeOf kind := by
  cases kind <;>
    simp [values, FieldValue.sizeOf_ofOption, FieldValue.sizeOf_ofOption_text] <;> omega

end Kind

/-- What holds of a tree once it holds of the trees in its fields holds of every tree. -/
@[elab_as_elim]
theorem Node.induct {P : Node → Prop} (step : ∀ node, (∀ tree ∈ node.kind.trees, P tree) → P node)
    (node : Node) : P node :=
  step node fun tree h => by
    have smaller : sizeOf tree < sizeOf node := by
      obtain ⟨field, hf, ht⟩ := List.mem_flatMap.mp h
      have inField := FieldValue.sizeOf_lt_of_mem_trees ht
      have inKind := node.kind.sizeOf_value_le field hf
      obtain ⟨id, kind, location, span⟩ := node
      simp at inKind ⊢
      omega
    exact Node.induct step tree
termination_by sizeOf node

/-! ### The nodes of a tree -/

theorem FieldValue.nodesIn_eq (value : FieldValue) :
    value.nodesIn = value.trees.flatMap Node.nodes := by
  cases value with
  | nodes ns => exact nodesOfList_eq ns
  | inits is =>
    rw [nodesIn, trees, nodesOfInits_eq, List.flatMap_map]
    rfl
  | node | init => simp [nodesIn, trees, FieldInit.nodesIn]
  | _ => rfl

theorem Kind.nodes_eq_trees (kind : Kind) : kind.nodes = kind.trees.flatMap Node.nodes := by
  rw [nodes_eq, trees, List.flatMap_assoc]
  exact List.flatMap_congr fun field _ => field.2.nodesIn_eq

theorem Node.nodes_eq (node : Node) : node.nodes = node.kind.nodes ++ [node] := by
  cases node
  rw [Node.nodes]

theorem Node.self_mem_nodes (node : Node) : node ∈ node.nodes := by simp [node.nodes_eq]

theorem Node.mem_nodes_of_tree {node tree n : Node} (ht : tree ∈ node.kind.trees)
    (hn : n ∈ tree.nodes) : n ∈ node.nodes := by
  rw [node.nodes_eq, node.kind.nodes_eq_trees]
  exact List.mem_append_left _ (List.mem_flatMap_of_mem ht hn)

/-- The nodes below a node of a tree belong to the tree. -/
theorem Node.nodes_trans {root node n : Node} (hnode : node ∈ root.nodes) (hn : n ∈ node.nodes) :
    n ∈ root.nodes := by
  induction root using Node.induct with
  | step root ih =>
    rw [root.nodes_eq, root.kind.nodes_eq_trees, List.mem_append, List.mem_flatMap] at hnode
    rcases hnode with ⟨tree, ht, hnode⟩ | hnode
    · exact mem_nodes_of_tree ht (ih tree ht hnode)
    · rwa [List.mem_singleton.1 hnode] at hn

/-- The trees of a node of a tree are nodes of the tree. -/
theorem Node.tree_mem_nodes {root node part : Node} (hn : node ∈ root.nodes)
    (hp : part ∈ node.kind.trees) : part ∈ root.nodes :=
  nodes_trans hn (mem_nodes_of_tree hp part.self_mem_nodes)

/-! ### Numbers by position -/

theorem FieldValue.regular {value : FieldValue}
    (parts : ∀ tree ∈ value.trees, Regular Node.nodes Node.number tree) :
    Regular FieldValue.nodesIn FieldValue.number value := by
  cases value with
  | node n =>
    have tree := parts n (List.mem_singleton.mpr rfl)
    exact ⟨tree.ids, fun g h start next => congrArg FieldValue.node (tree.again g h start next)⟩
  | nodes ns =>
    have trees : Regular (List.flatMap Node.nodes) (numberEach Node.nodes Node.number) ns :=
      Regular.each parts
    constructor
    · intro g start
      simpa [nodesIn, number, nodesOfList_eq, numberAll_eq] using trees.ids g start
    · intro g h start next
      simpa [number, numberAll_eq] using trees.again g h start next
  | init i =>
    have tree := parts i.value (List.mem_singleton.mpr rfl)
    exact ⟨tree.ids, fun g h start next => by
      simp [number, FieldInit.number, tree.again g h start next]⟩
  | inits is =>
    have each : ∀ i ∈ is, Regular FieldInit.nodesIn FieldInit.number i := fun i hi =>
      have tree := parts i.value (List.mem_map_of_mem hi)
      ⟨tree.ids, fun g h start next => by simp [FieldInit.number, tree.again g h start next]⟩
    have trees := Regular.each each
    constructor
    · intro g start
      simpa [nodesIn, number, nodesOfInits_eq, numberInits_eq] using trees.ids g start
    · intro g h start next
      simpa [number, numberInits_eq] using trees.again g h start next
  | _ => exact ⟨fun _ _ => rfl, fun _ _ _ _ => rfl⟩

theorem Kind.regular {kind : Kind}
    (parts : ∀ tree ∈ kind.trees, Regular Node.nodes Node.number tree) :
    Regular Kind.nodes Kind.number kind := by
  have fields : ∀ field ∈ kind.values,
      Regular FieldValue.nodesInField FieldValue.numberField field := fun field hf =>
    have value := FieldValue.regular fun tree ht => parts tree (List.mem_flatMap.mpr ⟨_, hf, ht⟩)
    ⟨value.ids, fun g h start next => congrArg (field.1, ·) (value.again g h start next)⟩
  have whole := Regular.each fields
  constructor
  · intro g start
    rw [nodes_eq, nodes_eq, values_number]
    exact whole.ids g start
  · intro g h start next
    apply Kind.ext_values
    · simp only [name_number]
    · simp only [values_number]
      exact whole.again g h start next

/-- Numbers by position are those of the positions, and nothing is left of the numbers from
before. -/
theorem Node.regular (node : Node) : Regular Node.nodes Node.number node := by
  induction node using Node.induct with
  | step node ih =>
    have below := Kind.regular ih
    obtain ⟨id, kind, location, span⟩ := node
    constructor
    · intro g start
      simp only [Node.number, Node.nodes, List.map_append, List.length_append]
      rw [below.ids, List.length_singleton, List.range'_1_concat, List.map_append]
      rfl
    · intro g h start next
      simp only [Node.number]
      rw [below.again, below.length_eq]

/-- The tree without numbers is that of any numbers by position. -/
theorem Node.unnumbered_number (node : Node) (g : Nat → Nat) (start : Nat) :
    (node.number g start).unnumbered = node.unnumbered :=
  node.regular.again g _ start 0

/-! ### The trees that a program can hold -/

/-- An integer that fits into its word; any other value fits. -/
def FieldValue.IsWord : FieldValue → Prop
  | .int n => Word.isSigned n
  | _ => True

/-- The place and the integers of a node fit into their words. -/
structure Node.FitsHere (node : Node) : Prop where
  location : ∀ l ∈ node.location, l.Fits
  span : ∀ s ∈ node.span, s.Fits
  values : ∀ field ∈ node.kind.values, field.2.IsWord

/-- Every node of the tree fits. -/
def Node.Fits (tree : Node) : Prop := ∀ node ∈ tree.nodes, node.FitsHere

theorem Node.fits_iff {node : Node} :
    node.Fits ↔ node.FitsHere ∧ ∀ tree ∈ node.kind.trees, tree.Fits := by
  simp only [Fits, node.nodes_eq, Kind.nodes_eq_trees, List.mem_append, List.mem_flatMap,
    List.mem_singleton]
  grind

end SourceIr
