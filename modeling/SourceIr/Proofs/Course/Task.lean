import SourceIr.Builtin
import SourceIr.Proofs.Syntax.Regular
import SourceIr.Scope.Binding

/-!
# What is lowered

A construct is lowered through its parts.  What is lowered at a time is a statement or an
expression, or it is a piece of one: the address of a place, the arguments of a call, the body of a
compile-time block, the deferred expressions at an exit.

* `Task`, and `Task.parts`, `Task.comptimeParts`, what is lowered for it;
* `Task.Binds`, the names that it may declare variables for, and `Task.blamed`, the nodes that its
  failures are laid to;
* `Task.node_mem_of_parts` and those like it: the parts of a task belong to its tree.
-/

namespace SourceIr

/-- What is lowered at a time. -/
inductive Task where
  /-- A declaration as a unit. -/
  | unit (node : Node)
  | stmt (node : Node)
  | expr (node : Node)
  /-- The address that an assignable expression designates. -/
  | place (node : Node)
  /-- The arguments of a call, during which the call may be an open evaluation. -/
  | args (call : Node)
  /-- The body of a compile-time block that has a stream of its own. -/
  | body (block : Node)
  /-- The deferred expressions that run where a node leaves a scope. -/
  | exit (node : Node)

/-- How many arguments of a builtin function are types, which are evaluated at compile time. -/
def Builtin.typeArgs (name : String) : Nat := if bareName name = "as" then 1 else 0

namespace Kind

/-- The types and defaults that a field declares. -/
def fieldParts : Kind → List Node
  | .containerField _ typeExpr defaultValue => typeExpr.toList ++ defaultValue.toList
  | _ => []

/-- The type that a parameter declares. -/
def paramType : Kind → List Node
  | .param _ typeExpr _ => typeExpr.toList
  | _ => []

/-- The names that a construct captures values under. -/
def captures : Kind → List String
  | .ifThen _ payload _ _ | .whileLoop _ _ payload _ _ _ _ | .catchExpr _ payload _ =>
    payload.toList
  | .forLoop _ _ item _ _ _ _ => [item]
  | _ => []

/-- The nodes below a construct that are checked along with it. -/
def checked : Kind → List Node
  | .containerDecl _ fields decls => fields ++ decls
  | .errorSetDecl members => members
  | .structInit _ fields => fields.map (·.value)
  | .assign target _ | .assignOp _ target _ => [target]
  | .fnDecl _ params _ _ _ _ => params
  | _ => []

end Kind

namespace Task

/-- The node that is lowered. -/
def node : Task → Node
  | unit node | stmt node | expr node | place node | args node | body node | exit node => node

/-- The base of an access, which is lowered to its address if it has one. -/
def base (node : Node) : Task := if node.kind.isPlace then place node else expr node

/-- What is lowered for a task, in no scope that asks for compile-time evaluation. -/
def parts : Task → List Task
  | unit node =>
    expr node :: match node.kind with
      | .fnDecl _ _ _ fnBody _ _ => fnBody.toList.map expr
      | .testDecl _ testBody => [expr testBody]
      | .varDecl _ _ _ typeExpr init => (typeExpr.toList ++ init.toList).map expr
      | .comptime e => [expr e]
      | _ => []
  | stmt node =>
    match node.kind with
    | .varDecl _ _ _ _ init => init.toList.map expr
    | .deferred .. => []
    | .assign target value | .assignOp _ target value => [place target, expr value]
    | _ => [expr node]
  | expr node =>
    match node.kind with
    | .fieldAccess .. | .arrayAccess .. => [place node]
    | .unaryOp .addressOf operand => [base operand]
    | .unaryOp _ operand => [expr operand]
    | .binaryOp _ lhs rhs => [expr lhs, expr rhs]
    | .call callee _ _ => [expr callee]
    | .builtinCall name arguments => (arguments.drop (Builtin.typeArgs name)).map expr
    | .structInit _ fields => fields.map (expr ·.value)
    | .arrayInit _ elements => elements.map expr
    | .block _ statements => exit node :: statements.map stmt
    | .assign target value | .assignOp _ target value => [place target, expr value]
    | .ifThen condition _ thenBranch elseBranch =>
      expr condition :: expr thenBranch :: elseBranch.toList.map expr
    | .whileLoop _ condition _ continueExpr loopBody elseBranch _ =>
      expr condition :: expr loopBody :: (continueExpr.toList ++ elseBranch.toList).map expr
    | .forLoop _ iterable _ _ loopBody elseBranch _ =>
      expr iterable :: expr loopBody :: elseBranch.toList.map expr
    | .breakTo _ value | .returnFrom value => exit node :: value.toList.map expr
    | .continueTo _ => [exit node]
    | .tryExpr e => [exit node, expr e]
    | .catchExpr lhs _ rhs => [expr lhs, expr rhs]
    | .suspend suspended => suspended.toList.map expr
    | _ => []
  | place node =>
    match node.kind with
    | .fieldAccess container _ => [base container]
    | .arrayAccess array index => [base array, expr index]
    | .unaryOp .deref operand => [expr operand]
    | _ => []
  | args node =>
    match node.kind with
    | .call _ arguments _ => arguments.map expr
    | _ => []
  | body node =>
    match node.kind with
    | .comptime e => [expr e]
    | _ => []
  | exit _ => []

/-- The expressions that are lowered for a task in a scope of their own, in which all is evaluated
at compile time. -/
def comptimeParts : Task → List Node
  | unit node =>
    match node.kind with
    | .fnDecl _ params returnType _ _ _ =>
      (params.flatMap fun p => p.kind.paramType) ++ returnType.toList
    | _ => []
  | stmt node =>
    match node.kind with
    | .varDecl _ _ isComptime typeExpr init =>
      typeExpr.toList ++ if isComptime then init.toList else []
    | _ => []
  | expr node =>
    match node.kind with
    | .containerDecl _ fields _ => fields.flatMap fun field => field.kind.fieldParts
    | .structInit typeExpr _ | .arrayInit typeExpr _ => typeExpr.toList
    | .builtinCall name arguments => arguments.take (Builtin.typeArgs name)
    | _ => []
  | _ => []

/-- The nodes that the failures of a task are laid to. -/
def blamed : Task → List Node
  | exit _ => []
  | unit node | stmt node | expr node | place node | args node | body node =>
    node :: node.kind.checked

/-- The levels of nesting that a part may use when `levels` are left below its task: the pieces of
a construct are lowered on its own level. -/
def level (levels : Nat) : Task → Nat
  | place _ | args _ | body _ | exit _ => levels + 1
  | unit _ | stmt _ | expr _ => levels

/-- The names that a task may declare variables for, with their places.  The name `_` captures
nothing and is no parameter. -/
inductive Binds : Task → String → Option Location → Prop
  | localVar {node : Node} {name : String} {isConst isComptime : Bool}
    {typeExpr init : Option Node}
    (h : node.kind = .varDecl name isConst isComptime typeExpr init) :
    Binds (stmt node) name node.location
  | capture {node : Node} {name : String} (h : name ∈ node.kind.captures) (hname : name ≠ "_") :
    Binds (expr node) name node.location
  | index {node iterable loopBody : Node} {label : Option String} {item name : String}
    {elseBranch : Option Node} {isInline : Bool}
    (h : node.kind = .forLoop label iterable item (some name) loopBody elseBranch isInline) :
    Binds (expr node) name node.location
  | param {node p : Node} {fn name : String} {params : List Node}
    {returnType fnBody typeExpr : Option Node} {isInline isExport isComptime : Bool}
    (h : node.kind = .fnDecl fn params returnType fnBody isInline isExport) (hp : p ∈ params)
    (hname : p.kind = .param (some name) typeExpr isComptime) (hne : name ≠ "_") :
    Binds (unit node) name p.location

/-- A request for a variable under a name that the task may declare, or without a name. -/
def Requests (t : Task) (r : BindingRequest) : Prop := ∀ name ∈ r.name, t.Binds name r.location

end Task

/-! ### The tree of a task -/

namespace Kind

variable {kind : Kind} {n : Node}

theorem mem_trees_of_fieldParts (h : n ∈ kind.fieldParts) : n ∈ kind.trees := by
  cases kind <;> simp only [fieldParts, List.not_mem_nil] at h
  grind [trees, values, FieldValue.trees, FieldValue.ofOption]

theorem mem_trees_of_paramType (h : n ∈ kind.paramType) : n ∈ kind.trees := by
  cases kind <;> simp only [paramType, List.not_mem_nil] at h
  grind [trees, values, FieldValue.trees, FieldValue.ofOption]

end Kind

namespace Task

variable {t part : Task} {n : Node}

@[simp] theorem node_base (node : Node) : (base node).node = node := by
  rw [base]
  split <;> rfl

/-- What is lowered for a construct in its own right: itself or one of the trees below it. -/
theorem node_mem_of_parts (h : part ∈ t.parts) :
    part.node = t.node ∨ part.node ∈ t.node.kind.trees := by
  cases t with
  | unit n | stmt n | expr n | place n | args n | body n | exit n =>
    obtain ⟨id, kind, location, span⟩ := n
    cases kind <;>
      simp only [parts, node, Kind.trees, Kind.values, List.flatMap_cons, List.flatMap_nil,
        List.append_nil, List.not_mem_nil] at h ⊢ <;>
      grind [FieldValue.trees, FieldValue.ofOption, node_base, node]

/-- What is evaluated at compile time is a tree below the node, or below one of its fields or
parameters. -/
theorem mem_trees_of_comptimeParts (h : n ∈ t.comptimeParts) :
    n ∈ t.node.kind.trees ∨ ∃ tree ∈ t.node.kind.trees, n ∈ tree.kind.trees := by
  cases t with
  | place | args | body | exit => cases h
  | unit node =>
    obtain ⟨id, kind, location, span⟩ := node
    cases kind <;> simp only [comptimeParts, List.not_mem_nil] at h
    case fnDecl =>
      rcases List.mem_append.1 h with h | h
      · obtain ⟨p, hp, hn⟩ := List.mem_flatMap.1 h
        refine .inr ⟨p, ?_, Kind.mem_trees_of_paramType hn⟩
        simp [Task.node, Kind.trees, Kind.values, FieldValue.trees, hp]
      · grind [Task.node, Kind.trees, Kind.values, FieldValue.trees, FieldValue.ofOption]
  | stmt node =>
    obtain ⟨id, kind, location, span⟩ := node
    cases kind <;> simp only [comptimeParts, List.not_mem_nil] at h
    case varDecl =>
      grind [Task.node, Kind.trees, Kind.values, FieldValue.trees, FieldValue.ofOption]
  | expr node =>
    obtain ⟨id, kind, location, span⟩ := node
    cases kind <;> simp only [comptimeParts, List.not_mem_nil] at h
    case containerDecl =>
      obtain ⟨f, hf, hn⟩ := List.mem_flatMap.1 h
      refine .inr ⟨f, ?_, Kind.mem_trees_of_fieldParts hn⟩
      simp [Task.node, Kind.trees, Kind.values, FieldValue.trees, hf]
    all_goals
      grind [Task.node, Kind.trees, Kind.values, FieldValue.trees, FieldValue.ofOption,
        List.mem_of_mem_take]

/-- A name is declared at the place of a node that is checked. -/
theorem Binds.exists_blamed {name : String} {location : Option Location}
    (h : t.Binds name location) : ∃ n ∈ t.blamed, n.location = location := by
  cases h with
  | localVar | capture | index => exact ⟨_, List.mem_cons_self, rfl⟩
  | param h hp => exact ⟨_, List.mem_cons_of_mem _ (by simpa [h, Kind.checked] using hp), rfl⟩

theorem mem_nodes_of_comptimeParts (h : n ∈ t.comptimeParts) : n ∈ t.node.nodes := by
  rcases mem_trees_of_comptimeParts h with h | ⟨tree, ht, h⟩
  · exact Node.mem_nodes_of_tree h n.self_mem_nodes
  · exact Node.mem_nodes_of_tree ht (Node.mem_nodes_of_tree h n.self_mem_nodes)

theorem mem_nodes_of_parts (h : part ∈ t.parts) : part.node ∈ t.node.nodes := by
  rcases node_mem_of_parts h with h | h
  · exact h ▸ t.node.self_mem_nodes
  · exact Node.mem_nodes_of_tree h part.node.self_mem_nodes

end Task

end SourceIr
