import Mathlib.Data.List.Flatten
import Mathlib.Data.List.Nodup
import SourceIr.Proofs.Syntax.Regular
import SourceIr.Proofs.Trim.Basic

/-!
# Nodes in and outside of deferred expressions

A deferred expression is not lowered where it stands, and it may be lowered more than once.  Any
other node of a tree is lowered where it stands, and once.

* `Node.direct`, the nodes of a tree but for those inside deferred expressions;
* `Node.Defers`, the deferred expressions of a tree, those of one another included;
* `nodesAt`, how many nodes of a list stand at a place;
* `Node.nodesAt_nodes`: every node of a tree is inside of a deferred expression or outside of all.
-/

namespace SourceIr

mutual

/-- The nodes of a tree but for those inside deferred expressions, the node itself first. -/
def Node.direct : Node → List Node
  | ⟨id, kind, location, span⟩ => ⟨id, kind, location, span⟩ :: kind.direct

/-- Those below a construct, in the order in which its parts are lowered. -/
def Kind.direct : Kind → List Node
  | .root _ decls => directOfList decls
  | .fnDecl _ params returnType body _ _ =>
    directOfList params ++ (directOfOption returnType ++ directOfOption body)
  | .param _ typeExpr _ => directOfOption typeExpr
  | .varDecl _ _ _ typeExpr init => directOfOption typeExpr ++ directOfOption init
  | .testDecl _ body => body.direct
  | .containerDecl _ fields decls => directOfList fields ++ directOfList decls
  | .containerField _ typeExpr defaultValue =>
    directOfOption typeExpr ++ directOfOption defaultValue
  | .errorSetDecl members => directOfList members
  | .block _ statements => directOfList statements
  | .comptime expr => expr.direct
  | .ifThen condition _ thenBranch elseBranch =>
    condition.direct ++ (thenBranch.direct ++ directOfOption elseBranch)
  | .whileLoop _ condition _ continueExpr body elseBranch _ =>
    condition.direct ++ (body.direct ++ (directOfOption continueExpr ++ directOfOption elseBranch))
  | .forLoop _ iterable _ _ body elseBranch _ =>
    iterable.direct ++ (body.direct ++ directOfOption elseBranch)
  | .breakTo _ value => directOfOption value
  | .returnFrom value => directOfOption value
  | .suspend body => directOfOption body
  | .assign target value => target.direct ++ value.direct
  | .assignOp _ target value => target.direct ++ value.direct
  | .binaryOp _ lhs rhs => lhs.direct ++ rhs.direct
  | .unaryOp _ operand => operand.direct
  | .call callee args _ => callee.direct ++ directOfList args
  | .builtinCall _ args => directOfList args
  | .fieldAccess container _ => container.direct
  | .arrayAccess array index => array.direct ++ index.direct
  | .tryExpr expr => expr.direct
  | .catchExpr lhs _ rhs => lhs.direct ++ rhs.direct
  | .structInit typeExpr fields => directOfOption typeExpr ++ directOfInits fields
  | .arrayInit typeExpr elements => directOfOption typeExpr ++ directOfList elements
  | _ => []

/-- Those of all trees of a list. -/
def directOfList : List Node → List Node
  | [] => []
  | node :: rest => node.direct ++ directOfList rest

/-- Those of a part that may be absent. -/
def directOfOption : Option Node → List Node
  | none => []
  | some node => node.direct

/-- Those of all values of an initializer. -/
def directOfInits : List FieldInit → List Node
  | [] => []
  | ⟨_, value⟩ :: rest => value.direct ++ directOfInits rest

end

theorem Node.direct_eq (node : Node) : node.direct = node :: node.kind.direct := by
  cases node
  rw [Node.direct]

theorem directOfList_eq (nodes : List Node) : directOfList nodes = nodes.flatMap Node.direct := by
  induction nodes with
  | nil => rfl
  | cons node rest ih => rw [directOfList, ih, List.flatMap_cons]

/-- The deferred expressions of a tree. -/
inductive Node.Defers (root : Node) : Node → Prop
  | direct {node expr : Node} (hn : node ∈ root.direct) (he : node.kind.deferred? = some expr) :
    root.Defers expr
  | inside {outer node expr : Node} (h : root.Defers outer) (hn : node ∈ outer.direct)
    (he : node.kind.deferred? = some expr) : root.Defers expr

/-! ### Places -/

/-- How many of these nodes stand at a place. -/
def nodesAt (nodes : List Node) (location : Option Location) : Nat :=
  nodes.countP (·.location = location)

variable {nodes nodes' : List Node} {node : Node} {location : Option Location}

@[simp] theorem nodesAt_nil : nodesAt [] location = 0 := rfl

@[simp] theorem nodesAt_append :
    nodesAt (nodes ++ nodes') location = nodesAt nodes location + nodesAt nodes' location :=
  List.countP_append

theorem nodesAt_le (h : nodes.Sublist nodes') :
    nodesAt nodes location ≤ nodesAt nodes' location := h.countP_le

theorem nodesAt_pos (h : node ∈ nodes) : 1 ≤ nodesAt nodes node.location :=
  List.countP_pos_iff.2 ⟨node, h, by simp⟩

theorem sublist_directOfList (nodes : List Node) : nodes.Sublist (directOfList nodes) := by
  induction nodes with
  | nil => exact .refl _
  | cons node rest ih =>
    rw [directOfList, node.direct_eq, List.cons_append]
    exact (ih.trans (List.sublist_append_right _ _)).cons_cons _

theorem direct_sublist_of_mem (h : node ∈ nodes) : node.direct.Sublist (directOfList nodes) := by
  have hs := (List.singleton_sublist.2 h).flatMap Node.direct
  rwa [List.flatMap_singleton, ← directOfList_eq] at hs

theorem directOfList_append :
    directOfList (nodes ++ nodes') = directOfList nodes ++ directOfList nodes' := by
  simp only [directOfList_eq, List.flatMap_append]

theorem nodesAt_directOfList_eq_zero (h : ∀ node ∈ nodes, nodesAt node.direct location = 0) :
    nodesAt (directOfList nodes) location = 0 := by
  induction nodes with
  | nil => rfl
  | cons node rest ih =>
    rw [directOfList, nodesAt_append, h node List.mem_cons_self,
      ih fun n hn => h n (List.mem_cons_of_mem _ hn)]

/-- No two of these nodes stand at one place. -/
theorem nodesAt_le_one (h : (nodes.map (·.location)).Nodup) : nodesAt nodes location ≤ 1 := by
  have := List.nodup_iff_count_le_one.1 h location
  simpa [nodesAt, List.count, List.countP_map, Function.comp_def, beq_eq_decide] using this

/-! ### All nodes of a tree -/

/-- The expressions that these nodes defer. -/
def deferredBy (nodes : List Node) : List Node := nodes.filterMap (·.kind.deferred?)

theorem directOfInits_eq (fields : List FieldInit) :
    directOfInits fields = (fields.map (·.value)).flatMap Node.direct := by
  induction fields with
  | nil => rw [directOfInits, List.map_nil, List.flatMap_nil]
  | cons field rest ih =>
    obtain ⟨name, value⟩ := field
    rw [directOfInits, ih, List.map_cons, List.flatMap_cons]

theorem FieldValue.direct_ofOption (part : Option Node) :
    (ofOption .node part).trees.flatMap Node.direct = directOfOption part := by
  cases part <;> simp [directOfOption, ofOption, trees]

/-- Below a construct that defers nothing are the nodes of its parts. -/
theorem Kind.direct_perm {kind : Kind} (h : kind.deferred? = none) :
    kind.direct.Perm (kind.trees.flatMap Node.direct) := by
  cases kind <;>
    simp only [direct, trees, values, List.flatMap_cons, List.flatMap_nil, List.flatMap_append,
      FieldValue.direct_ofOption, FieldValue.trees_ofOption_text, List.nil_append,
      List.append_nil] <;>
    simp [FieldValue.trees, directOfList_eq, directOfInits_eq]
  case deferred => cases h
  -- The step of a loop stands before its body, and is lowered after it.
  case whileLoop => exact (List.perm_append_comm_assoc _ _ _).append_left _

theorem Kind.exists_of_deferred? {kind : Kind} {expr : Node} (h : kind.deferred? = some expr) :
    ∃ k, kind = .deferred k expr := by
  cases kind <;> simp_all [deferred?]

theorem nodesAt_deferredBy_flatMap {trees : List Node}
    (h : ∀ tree ∈ trees, nodesAt tree.nodes location =
      nodesAt tree.direct location + nodesAt (nodesOfList (deferredBy tree.direct)) location) :
    nodesAt (trees.flatMap Node.nodes) location = nodesAt (trees.flatMap Node.direct) location +
      nodesAt (nodesOfList (deferredBy (trees.flatMap Node.direct))) location := by
  induction trees with
  | nil => rfl
  | cons tree rest ih =>
    have hfirst := h tree List.mem_cons_self
    have hrest := ih fun t ht => h t (List.mem_cons_of_mem _ ht)
    simp only [List.flatMap_cons, nodesAt_append, deferredBy, List.filterMap_append,
      nodesOfList_eq, List.flatMap_append] at hfirst hrest ⊢
    omega

/-- Every node of a tree is inside of a deferred expression or outside of all. -/
theorem Node.nodesAt_nodes (root : Node) : nodesAt root.nodes location =
    nodesAt root.direct location + nodesAt (nodesOfList (deferredBy root.direct)) location := by
  induction root using Node.induct with
  | step node ih =>
    rw [node.nodes_eq, node.direct_eq, deferredBy, List.filterMap_cons]
    cases he : node.kind.deferred? with
    | some expr =>
      obtain ⟨k, hk⟩ := Kind.exists_of_deferred? he
      simp only [hk, Kind.nodes, Kind.direct, List.filterMap_nil, nodesOfList, nodesAt_append,
        nodesAt_nil]
      omega
    | none =>
      have hparts := nodesAt_deferredBy_flatMap ih
      have hperm := Kind.direct_perm he
      have houtside := hperm.countP_eq (·.location = location)
      have hinside := ((hperm.filterMap (·.kind.deferred?)).flatMap_right Node.nodes).countP_eq
        (·.location = location)
      rw [← node.kind.nodes_eq_trees] at hparts
      simp only [deferredBy, nodesOfList_eq, nodesAt, List.countP_append, List.countP_cons,
        List.countP_nil] at hparts houtside hinside ⊢
      omega

theorem Node.nodesAt_direct_le (root : Node) :
    nodesAt root.direct location ≤ nodesAt root.nodes location := by
  rw [root.nodesAt_nodes]
  exact Nat.le_add_right _ _

/-- Where a node stands that is outside of deferred expressions, there is room for none that is
inside of one. -/
theorem Node.Defers.nodesAt_le {root expr : Node} (h : root.Defers expr) :
    nodesAt root.direct location + nodesAt expr.nodes location ≤ nodesAt root.nodes location := by
  have below : ∀ {outer node expr : Node}, node ∈ outer.direct → node.kind.deferred? = some expr →
      nodesAt expr.nodes location ≤
        nodesAt (nodesOfList (deferredBy outer.direct)) location := by
    intro outer node expr hn he
    have hmem : expr ∈ deferredBy outer.direct := List.mem_filterMap.2 ⟨node, hn, he⟩
    have hs := (List.singleton_sublist.2 hmem).flatMap Node.nodes
    rw [List.flatMap_singleton] at hs
    rw [nodesOfList_eq]
    exact hs.countP_le
  induction h with
  | direct hn he =>
    rw [root.nodesAt_nodes]
    exact Nat.add_le_add_left (below hn he) _
  | @inside outer _ _ _ hn he ih =>
    have hin := below hn he
    have hall : nodesAt outer.nodes location = _ := outer.nodesAt_nodes
    omega

end SourceIr
