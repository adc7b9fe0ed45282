import SourceIr.Proofs.Logic.Basic

/-!
# The nodes of a tree

A node carries a number, by which it is told apart while it is being lowered.

* `Node.ids`, the numbers of all nodes of a tree, as often as they occur;
* `Kind.count_used_le` and those like it, the parts of a construct are below it.
-/

namespace SourceIr

mutual

/-- The numbers of the nodes of a tree, the node itself first. -/
def Node.ids : Node → List Nat
  | ⟨id, kind, _, _⟩ => id :: kind.ids

/-- The numbers of the nodes below a construct. -/
def Kind.ids : Kind → List Nat
  | .root _ decls => idsOfList decls
  | .fnDecl _ params returnType body _ _ =>
    idsOfList params ++ idsOfOption returnType ++ idsOfOption body
  | .param _ typeExpr _ => idsOfOption typeExpr
  | .varDecl _ _ _ typeExpr init => idsOfOption typeExpr ++ idsOfOption init
  | .testDecl _ body => body.ids
  | .containerDecl _ fields decls => idsOfList fields ++ idsOfList decls
  | .containerField _ typeExpr defaultValue => idsOfOption typeExpr ++ idsOfOption defaultValue
  | .errorSetDecl members => idsOfList members
  | .block _ statements => idsOfList statements
  | .comptime expr => expr.ids
  | .deferred _ expr => expr.ids
  | .ifThen condition _ thenBranch elseBranch =>
    condition.ids ++ thenBranch.ids ++ idsOfOption elseBranch
  | .whileLoop _ condition _ continueExpr body elseBranch _ =>
    condition.ids ++ body.ids ++ idsOfOption continueExpr ++ idsOfOption elseBranch
  | .forLoop _ iterable _ _ body elseBranch _ =>
    iterable.ids ++ body.ids ++ idsOfOption elseBranch
  | .breakTo _ value => idsOfOption value
  | .continueTo _ => []
  | .returnFrom value => idsOfOption value
  | .unreachable => []
  | .suspend body => idsOfOption body
  | .asm _ _ => []
  | .assign target value => target.ids ++ value.ids
  | .assignOp _ target value => target.ids ++ value.ids
  | .binaryOp _ lhs rhs => lhs.ids ++ rhs.ids
  | .unaryOp _ operand => operand.ids
  | .call callee args _ => callee.ids ++ idsOfList args
  | .builtinCall _ args => idsOfList args
  | .fieldAccess container _ => container.ids
  | .arrayAccess array index => array.ids ++ index.ids
  | .tryExpr expr => expr.ids
  | .catchExpr lhs _ rhs => lhs.ids ++ rhs.ids
  | .structInit typeExpr fields => idsOfOption typeExpr ++ idsOfFields fields
  | .arrayInit typeExpr elements => idsOfOption typeExpr ++ idsOfList elements
  | .symbol _ => []
  | .intLiteral _ => []
  | .floatLiteral _ => []
  | .stringLiteral _ => []
  | .boolLiteral _ => []
  | .nullLiteral => []
  | .undefinedLiteral => []
  | .errorValue _ => []

/-- The numbers of the nodes of all trees of a list. -/
def idsOfList : List Node → List Nat
  | [] => []
  | node :: rest => node.ids ++ idsOfList rest

/-- The numbers of the nodes of a part that may be absent. -/
def idsOfOption : Option Node → List Nat
  | none => []
  | some node => node.ids

/-- The numbers of the nodes of all values of an initializer. -/
def idsOfFields : List FieldInit → List Nat
  | [] => []
  | ⟨_, value⟩ :: rest => value.ids ++ idsOfFields rest

end

theorem Node.ids_eq (node : Node) : node.ids = node.id :: node.kind.ids := by
  cases node
  rw [Node.ids]

theorem count_ids_le_of_mem {nodes : List Node} {node : Node} (h : node ∈ nodes) (i : Nat) :
    node.ids.count i ≤ (idsOfList nodes).count i := by
  induction nodes with
  | nil => cases h
  | cons first rest ih =>
    rw [idsOfList, List.count_append]
    rcases List.mem_cons.1 h with rfl | h
    · exact Nat.le_add_right _ _
    · exact Nat.le_trans (ih h) (Nat.le_add_left _ _)

theorem count_ids_le_of_mem_option {part : Option Node} {node : Node} (h : node ∈ part.toList)
    (i : Nat) : node.ids.count i ≤ (idsOfOption part).count i := by
  cases part with
  | none => cases h
  | some part =>
    obtain rfl := List.mem_singleton.1 h
    exact Nat.le_refl _

theorem count_ids_le_of_mem_fields {fields : List FieldInit} {node : Node}
    (h : node ∈ fields.map (·.value)) (i : Nat) :
    node.ids.count i ≤ (idsOfFields fields).count i := by
  induction fields with
  | nil => cases h
  | cons field rest ih =>
    obtain ⟨name, value⟩ := field
    rw [idsOfFields, List.count_append]
    rcases List.mem_cons.1 h with rfl | h
    · exact Nat.le_add_right _ _
    · exact Nat.le_trans (ih h) (Nat.le_add_left _ _)

/-- The parts of a field of a container are below it. -/
theorem count_ids_le_of_mem_field {field node : Node}
    (h : node ∈ match field.kind with
      | .containerField _ typeExpr defaultValue => typeExpr.toList ++ defaultValue.toList
      | _ => []) (i : Nat) : node.ids.count i ≤ field.ids.count i := by
  rw [field.ids_eq, List.count_cons]
  refine Nat.le_trans ?_ (Nat.le_add_right _ _)
  split at h
  next hk =>
    rw [hk, Kind.ids, List.count_append]
    rcases List.mem_append.1 h with h | h
    · exact Nat.le_trans (count_ids_le_of_mem_option h i) (Nat.le_add_right _ _)
    · exact Nat.le_trans (count_ids_le_of_mem_option h i) (Nat.le_add_left _ _)
  next => cases h

/-- The parts whose values a construct uses are below it. -/
theorem Kind.count_used_le {kind : Kind} {node : Node} (h : node ∈ kind.used) (i : Nat) :
    node.ids.count i ≤ kind.ids.count i := by
  cases kind <;> simp only [Kind.used, List.not_mem_nil] at h <;>
    simp only [Kind.ids, List.count_append]
  case param | suspend => exact count_ids_le_of_mem_option h i
  case varDecl =>
    rcases List.mem_append.1 h with h | h
    · exact Nat.le_trans (count_ids_le_of_mem_option h i) (Nat.le_add_right _ _)
    · exact Nat.le_trans (count_ids_le_of_mem_option h i) (Nat.le_add_left _ _)
  case containerDecl =>
    obtain ⟨field, hfield, h⟩ := List.mem_flatMap.1 h
    have hpart := count_ids_le_of_mem_field h i
    exact Nat.le_trans hpart (Nat.le_trans (count_ids_le_of_mem hfield i) (Nat.le_add_right _ _))
  case assign | assignOp | arrayAccess =>
    simp only [List.mem_cons, List.not_mem_nil, or_false] at h
    rcases h with rfl | rfl
    · exact Nat.le_add_right _ _
    · exact Nat.le_add_left _ _
  case binaryOp op lhs rhs =>
    split at h
    · cases h
    · simp only [List.mem_cons, List.not_mem_nil, or_false] at h
      rcases h with rfl | rfl
      · exact Nat.le_add_right _ _
      · exact Nat.le_add_left _ _
  case unaryOp | fieldAccess =>
    obtain rfl := List.mem_singleton.1 h
    exact Nat.le_refl _
  case call =>
    rcases List.mem_cons.1 h with rfl | h
    · exact Nat.le_add_right _ _
    · exact Nat.le_trans (count_ids_le_of_mem h i) (Nat.le_add_left _ _)
  case builtinCall => exact count_ids_le_of_mem h i
  case structInit =>
    rcases List.mem_append.1 h with h | h
    · exact Nat.le_trans (count_ids_le_of_mem_option h i) (Nat.le_add_right _ _)
    · exact Nat.le_trans (count_ids_le_of_mem_fields h i) (Nat.le_add_left _ _)
  case arrayInit =>
    rcases List.mem_append.1 h with h | h
    · exact Nat.le_trans (count_ids_le_of_mem_option h i) (Nat.le_add_right _ _)
    · exact Nat.le_trans (count_ids_le_of_mem h i) (Nat.le_add_left _ _)

end SourceIr
