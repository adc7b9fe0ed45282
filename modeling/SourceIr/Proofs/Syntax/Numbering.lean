import SourceIr.Syntax.Node

/-!
# Numbering a tree

A tree is the same up to the numbers of its nodes if it is the same once these are replaced.  New
numbers are given out by position: each node comes after those below it, and these come in the order
in which the parts of a construct are written.

* `Node.nodes`, the nodes of a tree in that order;
* `Node.number`, the tree with other numbers, and `Node.unnumbered`, the tree without;
* `numberEach`, the numbers of parts that follow one another, with the equations that say the
  same of the lists in a tree;
* `Regular`, what a part with other numbers has in common with the part.
-/

namespace SourceIr

/-! ### The nodes of a tree -/

mutual

/-- The nodes of a tree, each after those below it. -/
def Node.nodes : Node → List Node
  | ⟨id, kind, location, span⟩ => kind.nodes ++ [⟨id, kind, location, span⟩]

/-- The nodes below a construct. -/
def Kind.nodes : Kind → List Node
  | .root _ decls => nodesOfList decls
  | .fnDecl _ params returnType body _ _ =>
    nodesOfList params ++ nodesOfOption returnType ++ nodesOfOption body
  | .param _ typeExpr _ => nodesOfOption typeExpr
  | .varDecl _ _ _ typeExpr init => nodesOfOption typeExpr ++ nodesOfOption init
  | .testDecl _ body => body.nodes
  | .containerDecl _ fields decls => nodesOfList fields ++ nodesOfList decls
  | .containerField _ typeExpr defaultValue => nodesOfOption typeExpr ++ nodesOfOption defaultValue
  | .errorSetDecl members => nodesOfList members
  | .block _ statements => nodesOfList statements
  | .comptime expr => expr.nodes
  | .deferred _ expr => expr.nodes
  | .ifThen condition _ thenBranch elseBranch =>
    condition.nodes ++ thenBranch.nodes ++ nodesOfOption elseBranch
  | .whileLoop _ condition _ continueExpr body elseBranch _ =>
    condition.nodes ++ nodesOfOption continueExpr ++ body.nodes ++ nodesOfOption elseBranch
  | .forLoop _ iterable _ _ body elseBranch _ =>
    iterable.nodes ++ body.nodes ++ nodesOfOption elseBranch
  | .breakTo _ value => nodesOfOption value
  | .continueTo _ => []
  | .returnFrom value => nodesOfOption value
  | .unreachable => []
  | .suspend body => nodesOfOption body
  | .asm _ _ => []
  | .assign target value => target.nodes ++ value.nodes
  | .assignOp _ target value => target.nodes ++ value.nodes
  | .binaryOp _ lhs rhs => lhs.nodes ++ rhs.nodes
  | .unaryOp _ operand => operand.nodes
  | .call callee args _ => callee.nodes ++ nodesOfList args
  | .builtinCall _ args => nodesOfList args
  | .fieldAccess container _ => container.nodes
  | .arrayAccess array index => array.nodes ++ index.nodes
  | .tryExpr expr => expr.nodes
  | .catchExpr lhs _ rhs => lhs.nodes ++ rhs.nodes
  | .structInit typeExpr fields => nodesOfOption typeExpr ++ nodesOfInits fields
  | .arrayInit typeExpr elements => nodesOfOption typeExpr ++ nodesOfList elements
  | .symbol _ => []
  | .intLiteral _ => []
  | .floatLiteral _ => []
  | .stringLiteral _ => []
  | .boolLiteral _ => []
  | .nullLiteral => []
  | .undefinedLiteral => []
  | .errorValue _ => []

/-- The nodes of a part that may be absent. -/
def nodesOfOption : Option Node → List Node
  | none => []
  | some node => node.nodes

/-- The nodes of all trees of a list. -/
def nodesOfList : List Node → List Node
  | [] => []
  | node :: rest => node.nodes ++ nodesOfList rest

/-- The nodes of all values of an initializer. -/
def nodesOfInits : List FieldInit → List Node
  | [] => []
  | ⟨_, value⟩ :: rest => value.nodes ++ nodesOfInits rest

end

/-! ### Other numbers -/

section

variable (g : Nat → Nat)

mutual

/-- The tree with numbers by position: the node at a position, counted from `start` on, has the
number that `g` gives for it. -/
def Node.number (start : Nat) : Node → Node
  | ⟨_, kind, location, span⟩ =>
    ⟨g (start + kind.nodes.length), kind.number start, location, span⟩

/-- The construct with numbers by position for the nodes below it. -/
def Kind.number (start : Nat) : Kind → Kind
  | .root name decls => .root name (numberAll start decls)
  | .fnDecl name params returnType body isInline isExport =>
    let afterParams := start + (nodesOfList params).length
    let afterType := afterParams + (nodesOfOption returnType).length
    .fnDecl name (numberAll start params) (numberOption afterParams returnType)
      (numberOption afterType body) isInline isExport
  | .param name typeExpr isComptime => .param name (numberOption start typeExpr) isComptime
  | .varDecl name isConst isComptime typeExpr init =>
    .varDecl name isConst isComptime (numberOption start typeExpr)
      (numberOption (start + (nodesOfOption typeExpr).length) init)
  | .testDecl name body => .testDecl name (body.number start)
  | .containerDecl kind fields decls =>
    .containerDecl kind (numberAll start fields)
      (numberAll (start + (nodesOfList fields).length) decls)
  | .containerField name typeExpr defaultValue =>
    .containerField name (numberOption start typeExpr)
      (numberOption (start + (nodesOfOption typeExpr).length) defaultValue)
  | .errorSetDecl members => .errorSetDecl (numberAll start members)
  | .block label statements => .block label (numberAll start statements)
  | .comptime expr => .comptime (expr.number start)
  | .deferred kind expr => .deferred kind (expr.number start)
  | .ifThen condition payload thenBranch elseBranch =>
    let afterCondition := start + condition.nodes.length
    .ifThen (condition.number start) payload (thenBranch.number afterCondition)
      (numberOption (afterCondition + thenBranch.nodes.length) elseBranch)
  | .whileLoop label condition payload continueExpr body elseBranch isInline =>
    let afterCondition := start + condition.nodes.length
    let afterContinue := afterCondition + (nodesOfOption continueExpr).length
    .whileLoop label (condition.number start) payload (numberOption afterCondition continueExpr)
      (body.number afterContinue) (numberOption (afterContinue + body.nodes.length) elseBranch)
      isInline
  | .forLoop label iterable item index body elseBranch isInline =>
    let afterIterable := start + iterable.nodes.length
    .forLoop label (iterable.number start) item index (body.number afterIterable)
      (numberOption (afterIterable + body.nodes.length) elseBranch) isInline
  | .breakTo label value => .breakTo label (numberOption start value)
  | .continueTo label => .continueTo label
  | .returnFrom value => .returnFrom (numberOption start value)
  | .unreachable => .unreachable
  | .suspend body => .suspend (numberOption start body)
  | .asm template isVolatile => .asm template isVolatile
  | .assign target value =>
    .assign (target.number start) (value.number (start + target.nodes.length))
  | .assignOp op target value =>
    .assignOp op (target.number start) (value.number (start + target.nodes.length))
  | .binaryOp op lhs rhs => .binaryOp op (lhs.number start) (rhs.number (start + lhs.nodes.length))
  | .unaryOp op operand => .unaryOp op (operand.number start)
  | .call callee args modifier =>
    .call (callee.number start) (numberAll (start + callee.nodes.length) args) modifier
  | .builtinCall name args => .builtinCall name (numberAll start args)
  | .fieldAccess container field => .fieldAccess (container.number start) field
  | .arrayAccess array index =>
    .arrayAccess (array.number start) (index.number (start + array.nodes.length))
  | .tryExpr expr => .tryExpr (expr.number start)
  | .catchExpr lhs payload rhs =>
    .catchExpr (lhs.number start) payload (rhs.number (start + lhs.nodes.length))
  | .structInit typeExpr fields =>
    .structInit (numberOption start typeExpr)
      (numberInits (start + (nodesOfOption typeExpr).length) fields)
  | .arrayInit typeExpr elements =>
    .arrayInit (numberOption start typeExpr)
      (numberAll (start + (nodesOfOption typeExpr).length) elements)
  | .symbol name => .symbol name
  | .intLiteral value => .intLiteral value
  | .floatLiteral value => .floatLiteral value
  | .stringLiteral value => .stringLiteral value
  | .boolLiteral value => .boolLiteral value
  | .nullLiteral => .nullLiteral
  | .undefinedLiteral => .undefinedLiteral
  | .errorValue name => .errorValue name

/-- A part that may be absent, with numbers by position. -/
def numberOption (start : Nat) : Option Node → Option Node
  | none => none
  | some node => some (node.number start)

/-- The trees of a list, with numbers by position. -/
def numberAll (start : Nat) : List Node → List Node
  | [] => []
  | node :: rest => node.number start :: numberAll (start + node.nodes.length) rest

/-- The values of an initializer, with numbers by position. -/
def numberInits (start : Nat) : List FieldInit → List FieldInit
  | [] => []
  | ⟨name, value⟩ :: rest =>
    ⟨name, value.number start⟩ :: numberInits (start + value.nodes.length) rest

end

end

/-- The tree without numbers. -/
def Node.unnumbered (node : Node) : Node := node.number (fun _ => 0) 0

/-! ### Parts that follow one another -/

section

variable {α : Type} (nodesIn : α → List Node) (number : (Nat → Nat) → Nat → α → α)

/-- Parts that follow one another; the positions go on from part to part. -/
def numberEach (g : Nat → Nat) (start : Nat) : List α → List α
  | [] => []
  | part :: rest => number g start part :: numberEach g (start + (nodesIn part).length) rest

/-- Numbers by position: the nodes of the part get what `g` gives for the positions, one after the
other, and the numbers from before are forgotten. -/
structure Regular (part : α) : Prop where
  ids (g : Nat → Nat) (start : Nat) : (nodesIn (number g start part)).map (·.id) =
    (List.range' start (nodesIn part).length).map g
  again (g h : Nat → Nat) (start next : Nat) :
    number h next (number g start part) = number h next part

variable {nodesIn number}

theorem Regular.length_eq {part : α} (h : Regular nodesIn number part) (g : Nat → Nat)
    (start : Nat) : (nodesIn (number g start part)).length = (nodesIn part).length := by
  simpa using congrArg List.length (h.ids g start)

/-- Parts that are numbered one by one are numbered as a whole. -/
theorem Regular.each {parts : List α} (h : ∀ part ∈ parts, Regular nodesIn number part) :
    Regular (List.flatMap nodesIn) (numberEach nodesIn number) parts := by
  induction parts with
  | nil => exact ⟨fun _ _ => rfl, fun _ _ _ _ => rfl⟩
  | cons part rest ih =>
    have first := h part List.mem_cons_self
    have others := ih fun p hp => h p (List.mem_cons_of_mem _ hp)
    constructor
    · intro g start
      simp only [numberEach, List.flatMap_cons, List.map_append, List.length_append]
      rw [first.ids, others.ids, ← List.map_append, List.range'_append_1]
    · intro g h start next
      simp only [numberEach]
      rw [first.again, first.length_eq, others.again]

end

theorem nodesOfList_eq (nodes : List Node) : nodesOfList nodes = nodes.flatMap Node.nodes := by
  induction nodes with
  | nil => rfl
  | cons node rest ih => rw [nodesOfList, ih, List.flatMap_cons]

theorem numberAll_eq (g : Nat → Nat) (start : Nat) (nodes : List Node) :
    numberAll g start nodes = numberEach Node.nodes Node.number g start nodes := by
  induction nodes generalizing start with
  | nil => rfl
  | cons node rest ih => rw [numberAll, ih, numberEach]

namespace FieldInit

/-- The nodes of the value that is given to the field. -/
def nodesIn (init : FieldInit) : List Node := init.value.nodes

/-- The initializer with numbers by position. -/
def number (g : Nat → Nat) (start : Nat) (init : FieldInit) : FieldInit :=
  ⟨init.name, init.value.number g start⟩

end FieldInit

theorem nodesOfInits_eq (inits : List FieldInit) :
    nodesOfInits inits = inits.flatMap FieldInit.nodesIn := by
  induction inits with
  | nil => rfl
  | cons init rest ih =>
    obtain ⟨name, value⟩ := init
    rw [nodesOfInits, ih, List.flatMap_cons]
    rfl

theorem numberInits_eq (g : Nat → Nat) (start : Nat) (inits : List FieldInit) :
    numberInits g start inits = numberEach FieldInit.nodesIn FieldInit.number g start inits := by
  induction inits generalizing start with
  | nil => rfl
  | cons init rest ih =>
    obtain ⟨name, value⟩ := init
    rw [numberInits, ih, numberEach]
    rfl

end SourceIr
