import Mathlib.Data.List.Nodup
import Mathlib.Data.List.Pairwise
import Mathlib.Tactic.CasesM
import SourceIr.Proofs.Syntax.Regular
import SourceIr.Syntax.Node.Reader

/-!
# Distinct numbers

The reader gives every node a number of its own.  A node that is given by position is numbered
before the nodes below it, and one that is given as an object after them; what was read for a field
goes to at most one field of the construct.

* `Numbered`, numbers that were given out between two, and `Selects`, some of them;
* `Numbers`, a reader that gives new numbers, with one lemma for each part of the reader;
* `Node.numbered_of_read`, the numbers of a tree that is read.
-/

namespace SourceIr

/-- The numbers of nodes. -/
abbrev idsOf (nodes : List Node) : List Nat := nodes.map (·.id)

/-- Distinct numbers that were given out from the first on, up to the next one. -/
structure Numbered (ids : List Nat) (first next : Nat) : Prop where
  le : first ≤ next
  within : ∀ i ∈ ids, first ≤ i ∧ i < next
  distinct : ids.Nodup

/-- The second list has some of the numbers of the first one, each no more often. -/
structure Selects (ids ids' : List Nat) : Prop where
  subset : ids' ⊆ ids
  distinct : ids.Nodup → ids'.Nodup

section Numbers

variable {ids ids' before : List Nat} {first next : Nat}

theorem Selects.of_perm (h : ids.Perm ids') : Selects ids ids' := ⟨h.symm.subset, h.nodup⟩

theorem Selects.append_left (before : List Nat) (h : Selects ids ids') :
    Selects (before ++ ids) (before ++ ids') where
  subset := List.append_subset.2 ⟨List.subset_append_left .., fun _ hi =>
    List.mem_append_right before (h.subset hi)⟩
  distinct hd := by
    rw [List.nodup_append'] at hd ⊢
    exact ⟨hd.1, h.distinct hd.2.1, fun i hi hi' => hd.2.2 hi (h.subset hi')⟩

theorem Numbered.select (hn : Numbered ids first next) (h : Selects ids ids') :
    Numbered ids' first next :=
  ⟨hn.le, fun i hi => hn.within i (h.subset hi), h.distinct hn.distinct⟩

/-- The next number is new. -/
theorem Numbered.concat (h : Numbered ids first next) :
    Numbered (ids ++ [next]) first (next + 1) := by
  refine ⟨Nat.le_succ_of_le h.le, fun i hi => ?_, ?_⟩
  · rcases List.mem_append.1 hi with hi | hi
    · exact ⟨(h.within i hi).1, Nat.lt_succ_of_lt (h.within i hi).2⟩
    · rw [List.mem_singleton.1 hi]
      exact ⟨h.le, Nat.lt_succ_self next⟩
  · refine List.nodup_append'.2 ⟨h.distinct, List.nodup_singleton _, fun i hi hnext => ?_⟩
    rw [List.mem_singleton.1 hnext] at hi
    exact Nat.lt_irrefl next (h.within _ hi).2

/-- After these numbers, a reader gives out new ones. -/
def Numbers {α : Type} (before : List Nat) (read : Numbering α) (after : α → List Nat) : Prop :=
  ∀ ⦃first start a next⦄, Numbered before first start → read.run start = some (a, next) →
    Numbered (after a) first next

namespace Numbers

variable {α β : Type} {read : Numbering α} {after : α → List Nat} {after' : β → List Nat}

theorem pure {a : α} (h : Selects before (after a)) : Numbers before (Pure.pure a) after := by
  rintro first start _ next hn ⟨⟩
  exact hn.select h

theorem failure : Numbers before (failure : Numbering α) after := nofun

theorem lift {o : Option α} (h : ∀ a, o = some a → Selects before (after a)) :
    Numbers before (liftM o) after := by
  intro first start a next hn run
  obtain ⟨b, found, same⟩ := Option.bind_eq_some_iff.mp run
  cases same
  exact hn.select (h _ found)

theorem bind {f : α → Numbering β} (hread : Numbers before read after)
    (rest : ∀ a, Numbers (after a) (f a) after') : Numbers before (read >>= f) after' := by
  intro first start b next hn run
  obtain ⟨⟨a, mid⟩, hRead, hRest⟩ := Option.bind_eq_some_iff.mp run
  exact rest a (hread hn hRead) hRest

/-- A reader that makes no nodes. -/
theorem still {o : Option α} : Numbers before (liftM o) fun _ => before :=
  lift fun _ _ => .of_perm (.refl _)

theorem nextId : Numbers before Node.nextId fun id => before ++ [id] := by
  rintro first start _ next hn ⟨⟩
  exact hn.concat

end Numbers

end Numbers

/-! ### What is put together -/

/-- Where parts have nothing in common, a part is known by what is in it. -/
theorem eq_of_nodup_flatMap {α β : Type} {l : List α} {f : α → List β} (h : (l.flatMap f).Nodup)
    {a a' : α} {b : β} (ha : a ∈ l) (ha' : a' ∈ l) (hb : b ∈ f a) (hb' : b ∈ f a') : a = a' := by
  by_contra hne
  have : Std.Symm (Function.onFun List.Disjoint f) := ⟨fun _ _ => List.disjoint_symm⟩
  exact (List.nodup_flatMap.1 h).2.forall ha ha' hne hb hb'

theorem idsOf_flatMap {α : Type} (l : List α) (f : α → List Node) :
    idsOf (l.flatMap f) = l.flatMap fun a => idsOf (f a) := List.map_flatMap ..

/-- A field of a construct has the value that was read under its name, or none with nodes. -/
def Fields.Supplies (fs : Fields) (field : String × FieldValue) : Prop :=
  fs.values.lookup field.1 = some field.2 ∨ field.2.nodesIn = []

namespace Fields

variable {fs : Fields} {name : String}

theorem supplies_node {n : Node} (h : fs.node name = some n) : fs.Supplies (name, .node n) := by
  unfold node at h
  split at h <;> cases h
  next hread => exact .inl hread

theorem supplies_node? {o : Option Node} (h : fs.node? name = some o) :
    fs.Supplies (name, FieldValue.ofOption .node o) := by
  unfold node? value? at h
  split at h <;> cases h
  next n hread =>
    split at hread
    next hvalue => exact .inl (hvalue.trans hread)
    next => split at hread <;> cases hread
  next => exact .inr rfl

theorem supplies_nodes {ns : List Node} (h : fs.nodes name = some ns) :
    fs.Supplies (name, .nodes ns) := by
  unfold nodes at h
  split at h <;> cases h
  next hread => exact .inl hread

theorem supplies_nodesOrNil {ns : List Node} (h : fs.nodesOrNil name = some ns) :
    fs.Supplies (name, .nodes ns) := by
  unfold nodesOrNil at h
  split at h <;> cases h
  next hread => exact .inl hread
  next => exact .inr rfl

theorem supplies_initsOrNil {is : List FieldInit} (h : fs.initsOrNil name = some is) :
    fs.Supplies (name, .inits is) := by
  unfold initsOrNil at h
  split at h <;> cases h
  next hread => exact .inl hread
  next => exact .inr rfl

end Fields

namespace Kind

variable {name : String} {fs : Fields} {kind : Kind}

theorem supplies_of_ofFields? (h : ofFields? name fs = some kind) :
    ∀ field ∈ kind.values, fs.Supplies field := by
  unfold ofFields? at h
  split at h
  all_goals try contradiction
  all_goals
    simp only [bind, pure, Option.bind_eq_some_iff, Option.some.injEq] at h
    casesm* ∃ _, _, _ ∧ _
    subst_vars
    simp only [values, List.forall_mem_cons, List.not_mem_nil, false_imp_iff, implies_true,
      and_true]
    and_intros <;> first
      | exact .inr rfl
      | exact .inr (FieldValue.nodesIn_ofOption_text _)
      | solve_by_elim [Fields.supplies_node, Fields.supplies_node?, Fields.supplies_nodes,
          Fields.supplies_nodesOrNil, Fields.supplies_initsOrNil]

/-- No two fields of a construct have the same name. -/
theorem nodup_names (kind : Kind) : (kind.values.map (·.1)).Nodup := by
  cases kind.form with
  | bare _ fieldless =>
    rw [fieldless]
    exact List.nodup_nil
  | full _ _ complete => exact complete.names ▸ complete.distinct

/-- A construct has some of the nodes that were read for its fields. -/
theorem selects_of_ofFields? (h : ofFields? name fs = some kind) :
    Selects (idsOf (fs.values.flatMap FieldValue.nodesInField)) (idsOf kind.nodes) := by
  have hsupplies := supplies_of_ofFields? h
  have read : ∀ field ∈ kind.values, ∀ i ∈ idsOf field.2.nodesIn, field ∈ fs.values := by
    intro field hf i hi
    rcases hsupplies field hf with hread | hnone
    · obtain ⟨before, after, hall, -⟩ := List.lookup_eq_some_iff.1 hread
      simp [hall]
    · rw [hnone] at hi
      cases hi
  rw [kind.nodes_eq, idsOf_flatMap, idsOf_flatMap]
  constructor
  · intro i hi
    obtain ⟨field, hf, hi⟩ := List.mem_flatMap.1 hi
    exact List.mem_flatMap.2 ⟨field, read field hf i hi, hi⟩
  · intro hd
    have heach := (List.nodup_flatMap.1 hd).1
    refine List.nodup_flatMap.2 ⟨fun field hf => ?_, ?_⟩
    · rcases hsupplies field hf with hread | hnone
      · obtain ⟨before, after, hall, -⟩ := List.lookup_eq_some_iff.1 hread
        exact heach field (by simp [hall])
      · rw [FieldValue.nodesInField, hnone]
        exact List.nodup_nil
    · -- Fields of different names were read from different places.
      refine (List.pairwise_map.1 kind.nodup_names).imp_of_mem fun ha hb hne i hi hi' => ?_
      exact hne (congrArg (·.1) (eq_of_nodup_flatMap hd (read _ ha i hi) (read _ hb i hi') hi hi'))

theorem nodes_of_ofName? (h : ofName? name = some kind) : kind.nodes = [] := by
  unfold ofName? at h
  split at h <;> cases h <;> rfl

end Kind

/-! ### The reader, part by part -/

section Reader

variable {before : List Nat}

theorem Node.ids_of_ofRecord? {value : Json} {id : Nat} {kind : Kind} {node : Node}
    (h : ofRecord? value id kind = some node) :
    idsOf node.nodes = idsOf kind.nodes ++ [id] := by
  obtain ⟨r, -, h⟩ := Option.bind_eq_some_iff.mp h
  obtain ⟨location, -, h⟩ := Option.bind_eq_some_iff.mp h
  obtain ⟨span, -, h⟩ := Option.bind_eq_some_iff.mp h
  cases h
  rw [Node.nodes, idsOf, List.map_append]
  rfl

theorem Shape.nodesIn_of_scalar? {shape : Shape} {value : Json} {v : FieldValue}
    (h : shape.scalar? value = some v) : v.nodesIn = [] := by
  cases shape
  case node | nodes | init | inits => cases h
  all_goals
    obtain ⟨a, -, rfl⟩ := Option.map_eq_some_iff.mp h
    rfl

/-- A node has the number that it is given and those of the nodes below it, whichever came first. -/
theorem Node.numbers_ofRecord {value : Json} {id : Nat} {kind : Kind} {ids : List Nat}
    (h : ids.Perm (before ++ (idsOf kind.nodes ++ [id]))) :
    Numbers ids (liftM (ofRecord? value id kind)) fun node => before ++ idsOf node.nodes :=
  .lift fun _ hnode => .of_perm (by rwa [Node.ids_of_ofRecord? hnode])

theorem Node.numbers_ofValue {value : FieldValue} :
    Numbers (before ++ idsOf value.nodesIn) (liftM (ofValue? value)) fun node =>
      before ++ idsOf node.nodes :=
  .lift fun node h => .of_perm (by cases value <;> cases h; rfl)

theorem Node.numbers_initOfValue {value : FieldValue} :
    Numbers (before ++ idsOf value.nodesIn) (liftM (initOfValue? value)) fun init =>
      before ++ idsOf init.nodesIn :=
  .lift fun init h => .of_perm (by cases value <;> cases h; rfl)

theorem Node.numbers_finishInit {value : Json} {node : Node} :
    Numbers (before ++ idsOf node.nodes) (finishInit value node) fun init =>
      before ++ idsOf init.nodesIn :=
  .bind .still fun _ => .bind .still fun _ => .pure (.of_perm (.refl _))

mutual

/-- The nodes of a value that is read have new numbers. -/
theorem numbers_readValue (shape : Shape) (before : List Nat) : (value : Json) →
    Numbers before (Node.readValue shape value) fun v => before ++ idsOf v.nodesIn
  | .null => .pure (.of_perm (by simp [FieldValue.nodesIn]))
  | .arr items => by
    cases shape <;> simp only [Node.readValue]
    case node =>
      -- The node has the first of its numbers.
      refine .bind .nextId fun id => .bind (numbers_readFirst (before ++ [id]) items) fun kind =>
        .bind (Node.numbers_ofRecord ?_) fun node => .pure (.of_perm (.refl _))
      rw [List.append_assoc]
      exact List.perm_append_comm.append_left before
    case init =>
      exact .bind (numbers_readSecond before items) fun node =>
        .bind Node.numbers_finishInit fun init => .pure (.of_perm (.refl _))
    case nodes =>
      exact .bind (numbers_readNodes before items) fun nodes => .pure (.of_perm (.refl _))
    case inits =>
      exact .bind (numbers_readInits before items) fun inits => .pure (.of_perm (.refl _))
    all_goals exact .failure
  | .obj members => by
    cases shape <;> simp only [Node.readValue]
    case node =>
      exact .bind (numbers_kindAmong before members) fun kind => .bind .nextId fun id =>
        .bind (Node.numbers_ofRecord (.of_eq (List.append_assoc ..))) fun node =>
          .pure (.of_perm (.refl _))
    case init =>
      exact .bind (numbers_valueAmong before members) fun node =>
        .bind Node.numbers_finishInit fun init => .pure (.of_perm (.refl _))
    all_goals
      exact .lift fun v h => .of_perm (by rw [Shape.nodesIn_of_scalar? h]; simp)
  | .bool _ | .int _ | .float _ | .str _ | .valueless =>
    .lift fun v h => .of_perm (by rw [Shape.nodesIn_of_scalar? h]; simp)

/-- The nodes of a list that is read have new numbers. -/
theorem numbers_readNodes (before : List Nat) : (items : List Json) →
    Numbers before (Node.readNodes items) fun nodes => before ++ idsOf (nodesOfList nodes)
  | [] => .pure (.of_perm (by simp [nodesOfList]))
  | item :: rest =>
    .bind (numbers_readValue .node before item) fun value =>
      .bind Node.numbers_ofValue fun node =>
        .bind (numbers_readNodes (before ++ idsOf node.nodes) rest) fun nodes =>
          .pure (.of_perm (by simp [nodesOfList, idsOf]))

theorem numbers_readInits (before : List Nat) : (items : List Json) →
    Numbers before (Node.readInits items) fun inits => before ++ idsOf (nodesOfInits inits)
  | [] => .pure (.of_perm (by simp [nodesOfInits]))
  | item :: rest =>
    .bind (numbers_readValue .init before item) fun value =>
      .bind Node.numbers_initOfValue fun init =>
        .bind (numbers_readInits (before ++ idsOf init.nodesIn) rest) fun inits =>
          .pure (.of_perm (by simp [nodesOfInits_eq, idsOf]))

theorem numbers_readFirst (before : List Nat) : (items : List Json) →
    Numbers before (Node.readFirst items) fun kind => before ++ idsOf kind.nodes
  | [] => .failure
  | item :: _ => numbers_readKind before item

theorem numbers_readSecond (before : List Nat) : (items : List Json) →
    Numbers before (Node.readSecond items) fun node => before ++ idsOf node.nodes
  | [_, item] => .bind (numbers_readValue .node before item) fun _ => Node.numbers_ofValue
  | [] | [_] | _ :: _ :: _ :: _ => .failure

theorem numbers_kindAmong (before : List Nat) : (members : List (String × Json)) →
    Numbers before (Node.kindAmong members) fun kind => before ++ idsOf kind.nodes
  | [] => .failure
  | (name, value) :: rest => by
    rw [Node.kindAmong]
    split
    · exact numbers_readKind before value
    · exact numbers_kindAmong before rest

theorem numbers_valueAmong (before : List Nat) : (members : List (String × Json)) →
    Numbers before (Node.valueAmong members) fun node => before ++ idsOf node.nodes
  | [] => .failure
  | (name, value) :: rest => by
    rw [Node.valueAmong]
    split
    · exact .bind (numbers_readValue .node before value) fun _ => Node.numbers_ofValue
    · exact numbers_valueAmong before rest

/-- The nodes below a construct that is read have new numbers. -/
theorem numbers_readKind (before : List Nat) : (value : Json) →
    Numbers before (Node.readKind value) fun kind => before ++ idsOf kind.nodes
  | .str _ | .obj [(_, .null)] =>
    .lift fun kind h => .of_perm (by rw [Kind.nodes_of_ofName? h]; simp)
  | .obj [(_, .obj members)] =>
    .bind .still fun shapes => .bind .still fun _ =>
      .bind (numbers_readMembers shapes before members) fun _ =>
        .lift fun _ h => (Kind.selects_of_ofFields? h).append_left before
  | .obj [(_, .arr items)] =>
    .bind .still fun shapes => .bind .still fun _ =>
      .bind (numbers_readItems before shapes items) fun _ =>
        .lift fun _ h => (Kind.selects_of_ofFields? h).append_left before
  | .obj ((_, value) :: _ :: _) => by cases value <;> exact .failure
  | .obj [] | .obj [(_, .bool _)] | .obj [(_, .int _)] | .obj [(_, .float _)]
  | .obj [(_, .str _)] | .obj [(_, .valueless)] | .null | .bool _ | .int _ | .float _ | .arr _
  | .valueless => .failure

theorem numbers_readMembers (shapes : List (String × Shape)) (before : List Nat) :
    (members : List (String × Json)) → Numbers before (Node.readMembers shapes members)
      fun fields => before ++ idsOf (fields.flatMap FieldValue.nodesInField)
  | [] => .pure (.of_perm (by simp))
  | (name, value) :: rest => by
    rw [Node.readMembers]
    split
    · exact .bind (numbers_readValue _ before value) fun v =>
        .bind (numbers_readMembers shapes (before ++ idsOf v.nodesIn) rest) fun fields =>
          .pure (.of_perm (by simp [FieldValue.nodesInField, idsOf]))
    · exact numbers_readMembers shapes before rest

theorem numbers_readItems (before : List Nat) : (shapes : List (String × Shape)) →
    (items : List Json) → Numbers before (Node.readItems shapes items)
      fun fields => before ++ idsOf (fields.flatMap FieldValue.nodesInField)
  | (_, shape) :: shapes, item :: rest =>
    .bind (numbers_readValue shape before item) fun v =>
      .bind (numbers_readItems (before ++ idsOf v.nodesIn) shapes rest) fun fields =>
        .pure (.of_perm (by simp [FieldValue.nodesInField, idsOf]))
  | [], [] | [], _ :: _ | _ :: _, [] => .pure (.of_perm (by simp))

end

end Reader

namespace Node

/-- The nodes of a tree that is read have distinct numbers, from the first one on that the reader is
given up to the one that it leaves. -/
theorem numbered_of_read {value : Json} {start next : Nat} {root : Node}
    (h : (read value).run start = some (root, next)) :
    Numbered (idsOf root.nodes) start next := by
  have hread : Numbers [] (read value) fun node => [] ++ idsOf node.nodes :=
    .bind (numbers_readValue .node [] value) fun _ => numbers_ofValue
  exact hread ⟨Nat.le_refl start, nofun, List.nodup_nil⟩ h

/-! ### Trees with distinct numbers -/

/-- The trees of a node of a tree are below the tree. -/
theorem mem_kind_nodes {root node part : Node} (hn : node ∈ root.nodes)
    (hp : part ∈ node.kind.trees) : part ∈ root.kind.nodes := by
  rw [root.nodes_eq, List.mem_append, List.mem_singleton] at hn
  rcases hn with hn | rfl
  · rw [Kind.nodes_eq_trees, List.mem_flatMap] at hn ⊢
    obtain ⟨tree, ht, hn⟩ := hn
    exact ⟨tree, ht, tree_mem_nodes hn hp⟩
  · exact Kind.nodes_eq_trees _ ▸ List.mem_flatMap_of_mem hp part.self_mem_nodes

/-- No two nodes of the tree have the same number. -/
def Distinct (node : Node) : Prop := (idsOf node.nodes).Nodup

namespace Distinct

variable {root node n n' part : Node}

theorem of_tree (h : node.Distinct) (hp : part ∈ node.kind.trees) : part.Distinct := by
  rw [Distinct, node.nodes_eq, node.kind.nodes_eq_trees, idsOf, List.map_append,
    List.map_flatMap] at h
  exact (List.nodup_flatMap.1 h.of_append_left).1 part hp

theorem of_mem (h : root.Distinct) (hn : node ∈ root.nodes) : node.Distinct := by
  induction root using Node.induct with
  | step root ih =>
    rw [root.nodes_eq, root.kind.nodes_eq_trees, List.mem_append, List.mem_flatMap] at hn
    rcases hn with ⟨tree, ht, hn⟩ | hn
    · exact ih tree ht (h.of_tree ht) hn
    · rwa [List.mem_singleton.1 hn]

/-- A node is known by its number. -/
theorem eq_of_id (h : root.Distinct) (hn : n ∈ root.nodes) (hn' : n' ∈ root.nodes)
    (hid : n.id = n'.id) : n = n' := List.inj_on_of_nodup_map h hn hn' hid

/-- A node is not below itself. -/
theorem notMem_nodes (h : node.Distinct) : node ∉ node.kind.nodes := by
  intro hmem
  rw [Distinct, node.nodes_eq, idsOf, List.map_append, List.nodup_append'] at h
  exact h.2.2 (List.mem_map_of_mem hmem) List.mem_cons_self

/-- The trees of a node have no nodes in common. -/
theorem tree_eq (h : node.Distinct) {tree tree' : Node} (ht : tree ∈ node.kind.trees)
    (ht' : tree' ∈ node.kind.trees) (hn : n ∈ tree.nodes) (hn' : n ∈ tree'.nodes) :
    tree = tree' := by
  rw [Distinct, node.nodes_eq, node.kind.nodes_eq_trees, idsOf, List.map_append,
    List.map_flatMap] at h
  exact eq_of_nodup_flatMap h.of_append_left ht ht' (List.mem_map_of_mem hn)
    (List.mem_map_of_mem hn')

/-- What is a part of a part of a node is not a part of the node. -/
theorem notMem_trees (h : node.Distinct) {tree : Node} (ht : tree ∈ node.kind.trees)
    (hn : n ∈ tree.nodes) (hp : part ∈ n.kind.trees) : part ∉ node.kind.trees := by
  intro hpart
  obtain rfl := h.tree_eq ht hpart (tree_mem_nodes hn hp) part.self_mem_nodes
  exact (h.of_tree ht).notMem_nodes (mem_kind_nodes hn hp)

/-- A node is a part of no more than one node. -/
theorem parent_eq (h : root.Distinct) (hn : n ∈ root.nodes) (hn' : n' ∈ root.nodes)
    (hp : part ∈ n.kind.trees) (hp' : part ∈ n'.kind.trees) : n = n' := by
  induction root using Node.induct with
  | step root ih =>
    rw [root.nodes_eq, root.kind.nodes_eq_trees, List.mem_append, List.mem_flatMap,
      List.mem_singleton] at hn hn'
    rcases hn with ⟨tree, ht, hn⟩ | rfl <;> rcases hn' with ⟨tree', ht', hn'⟩ | rfl
    · -- The part is in both trees, so that they are one.
      have hpart := tree_mem_nodes hn hp
      have hpart' := tree_mem_nodes hn' hp'
      obtain rfl := h.tree_eq ht ht' hpart hpart'
      exact ih tree ht (h.of_tree ht) hn hn'
    · exact absurd hp' (h.notMem_trees ht hn hp)
    · exact absurd hp (h.notMem_trees ht' hn' hp')
    · rfl

end Distinct

end Node

end SourceIr
