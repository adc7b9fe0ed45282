import SourceIr.Lower.Expr
import SourceIr.Proofs.Course.Task
import SourceIr.Proofs.Destination.Ways
import SourceIr.Proofs.Logic.Basic
import SourceIr.Proofs.Run

/-!
# Initializers that have a value on every path

Whether the storage of a variable is written to depends on its initializer: a branch that is
missing, a `break` that carries no value and the end of a labelled block bring nothing to it.  The
others do.

* `Node.Breaks`, the jumps to an end around a node, and `Node.Fills`, the expressions that have a
  value on every path on which they come to their end;
* `Node.Stores`, the storage of a local variable, and `Stream.WritesOnce`, the streams in which it
  is written to as it should be;
* `Lower.lowerExpr_eq_bind_deliver`, the values that are stored when they have been computed.
-/

namespace SourceIr

namespace Kind

/-- Whether a construct brings a value to its result location.  Assignments and `suspend` have
none. -/
def delivers : Kind → Bool
  | .assign .. | .assignOp .. | .suspend _ => false
  | _ => true

/-- Whether a construct uses its result location itself. -/
def fillsInPlace : Kind → Bool
  | .call .. | .structInit .. | .arrayInit .. => true
  | _ => false

/-- Whether a construct is a jump, or says that control does not get to it. -/
def isJump : Kind → Bool
  | .breakTo .. | .continueTo _ | .returnFrom _ | .unreachable => true
  | _ => false

/-- Whether a `break` with this label, or without one, may be meant for a construct. -/
def takesBreak (label : Option String) : Kind → Bool
  | .whileLoop own .. | .forLoop own .. => label.isNone || own == label
  | .block own _ => label.isSome && own == label
  | _ => false

/-- The parts in which a `break` may be meant for the construct. -/
def inner : Kind → List Node
  | .block _ statements => statements
  | .whileLoop _ _ _ continueExpr body _ _ => body :: continueExpr.toList
  | .forLoop _ _ _ _ body _ _ => [body]
  | _ => []

/-- The other parts. -/
def outer : Kind → List Node
  | .block .. => []
  | .whileLoop _ condition _ _ _ elseBranch _ => condition :: elseBranch.toList
  | .forLoop _ iterable _ _ _ elseBranch _ => iterable :: elseBranch.toList
  | kind => kind.trees

/-- The branch of a loop for when its test fails. -/
def loopElse? : Kind → Option Node
  | .whileLoop _ _ _ _ _ elseBranch _ | .forLoop _ _ _ _ _ elseBranch _ => elseBranch
  | _ => none

section Outer

variable {op : BinaryOperator} {condition lhs rhs thenBranch expr : Node}
  {value elseBranch : Option Node} {label payload : Option String} {kind : DeferKind}

@[simp] theorem outer_deferred : (deferred kind expr).outer = [expr] := rfl

@[simp] theorem outer_binaryOp : (binaryOp op lhs rhs).outer = [lhs, rhs] := rfl

@[simp] theorem outer_comptime : (comptime expr).outer = [expr] := rfl

@[simp] theorem outer_tryExpr : (tryExpr expr).outer = [expr] := rfl

@[simp] theorem outer_catchExpr : (catchExpr lhs payload rhs).outer = [lhs, rhs] := by
  cases payload <;> rfl

@[simp] theorem outer_ifThen :
    (ifThen condition payload thenBranch elseBranch).outer =
      condition :: thenBranch :: elseBranch.toList := by
  cases payload <;> cases elseBranch <;> rfl

@[simp] theorem outer_breakTo : (breakTo label value).outer = value.toList := by
  cases label <;> cases value <;> rfl

@[simp] theorem outer_returnFrom : (returnFrom value).outer = value.toList := by
  cases value <;> rfl

end Outer

variable {kind : Kind} {part : Node}

theorem mem_trees_of_inner (h : part ∈ kind.inner) : part ∈ kind.trees := by
  cases kind <;> simp only [inner, List.not_mem_nil] at h
  all_goals
    simp only [trees, values, List.flatMap_cons, List.flatMap_nil, FieldValue.trees_ofOption,
      FieldValue.trees_ofOption_text]
    simp only [FieldValue.trees, List.mem_append, List.mem_cons, List.not_mem_nil] at h ⊢
    tauto

theorem mem_trees_of_outer (h : part ∈ kind.outer) : part ∈ kind.trees := by
  cases kind
  case block => cases h
  case whileLoop | forLoop =>
    simp only [trees, values, List.flatMap_cons, List.flatMap_nil, FieldValue.trees_ofOption,
      FieldValue.trees_ofOption_text]
    simp only [outer, FieldValue.trees, List.mem_append, List.mem_cons, List.not_mem_nil] at h ⊢
    tauto
  all_goals exact h

/-- What a construct uses is one of its parts, or a part of one of its fields. -/
theorem mem_outer_of_used (h : part ∈ kind.used) :
    part ∈ kind.outer ∨ ∃ field ∈ kind.outer, part ∈ field.kind.outer := by
  cases kind <;> simp only [used, List.not_mem_nil] at h
  case containerDecl =>
    obtain ⟨field, hfield, hpart⟩ := List.mem_flatMap.1 h
    refine .inr ⟨field, ?_, ?_⟩
    · simp [outer, trees, values, FieldValue.trees, hfield]
    · cases hk : field.kind <;> simp only [hk, List.not_mem_nil] at hpart
      exact mem_trees_of_fieldParts hpart
  case binaryOp op lhs rhs =>
    split at h
    · cases h
    · exact .inl h
  all_goals
    left
    simp only [outer, trees, values, List.flatMap_cons, List.flatMap_nil,
      FieldValue.trees_ofOption, FieldValue.trees_ofOption_text]
    simp only [FieldValue.trees, List.mem_append, List.mem_cons, List.not_mem_nil] at h ⊢
    tauto

end Kind

namespace Node

/-- In a node there is a `break` with a label, or without one, and with a value or without, that
leads to an end around the node. -/
inductive Breaks (label : Option String) (value : Option Node) : Node → Prop
  | here {node : Node} (hk : node.kind = .breakTo label value) : Breaks label value node
  | outer {node part : Node} (hp : part ∈ node.kind.outer) (h : Breaks label value part) :
      Breaks label value node
  | inner {node part : Node} (hp : part ∈ node.kind.inner)
      (ht : node.kind.takesBreak label = false) (h : Breaks label value part) :
      Breaks label value node

/-- An expression has a value on every path on which it comes to its end. -/
inductive Fills : Node → Prop
  | plain {node : Node} (hb : node.kind.branches = false) (hd : node.kind.delivers = true) :
      Fills node
  | jump {node : Node} (hj : node.kind.isJump = true) : Fills node
  /-- The value of a block without a label is void. -/
  | block {node : Node} {statements : List Node} (hk : node.kind = .block none statements) :
      Fills node
  /-- The end of a block with a label is not reached. -/
  | labelled {node : Node} {label : String} {statements : List Node}
      (hk : node.kind = .block (some label) statements)
      (hend : ∃ statement ∈ statements, statement.kind.isJump = true)
      (carries : ∀ part ∈ statements, ∀ l, node.kind.takesBreak l = true → ¬ part.Breaks l none)
      (values : ∀ part ∈ statements, ∀ l e, node.kind.takesBreak l = true →
        part.Breaks l (some e) → Fills e) : Fills node
  | ifThen {node condition thenBranch elseBranch : Node} {payload : Option String}
      (hk : node.kind = .ifThen condition payload thenBranch (some elseBranch))
      (ht : Fills thenBranch) (he : Fills elseBranch) : Fills node
  | loop {node elseBranch : Node} (hk : node.kind.loopElse? = some elseBranch)
      (he : Fills elseBranch)
      (carries : ∀ part ∈ node.kind.inner, ∀ l, node.kind.takesBreak l = true →
        ¬ part.Breaks l none)
      (values : ∀ part ∈ node.kind.inner, ∀ l e, node.kind.takesBreak l = true →
        part.Breaks l (some e) → Fills e) : Fills node
  | comptime {node expr : Node} (hk : node.kind = .comptime expr) (he : Fills expr) : Fills node
  | tryExpr {node expr : Node} (hk : node.kind = .tryExpr expr) : Fills node
  | catchExpr {node lhs rhs : Node} {payload : Option String}
      (hk : node.kind = .catchExpr lhs payload rhs) (hr : Fills rhs) : Fills node
  | orElse {node lhs rhs : Node} (hk : node.kind = .binaryOp .orElse lhs rhs) (hr : Fills rhs) :
      Fills node
  | shortCircuit {node lhs rhs : Node} {op : BinaryOperator} (hk : node.kind = .binaryOp op lhs rhs)
      (hop : op = .boolAnd ∨ op = .boolOr) : Fills node

/-- What a construct relies on that has a value on every path, if it hands its location on to parts
or has an end that brings no value. -/
def Fills.Needs : Kind → Prop
  | .block (some _) statements => ∃ statement ∈ statements, statement.kind.isJump = true
  | .ifThen _ _ thenBranch elseBranch =>
    thenBranch.Fills ∧ ∃ branch, elseBranch = some branch ∧ branch.Fills
  | .whileLoop _ _ _ _ _ elseBranch _ | .forLoop _ _ _ _ _ elseBranch _ =>
    ∃ branch, elseBranch = some branch ∧ branch.Fills
  | .comptime part | .catchExpr _ _ part | .binaryOp .orElse _ part => part.Fills
  | _ => True

namespace Fills

variable {node part : Node} {kind : Kind} {label : Option String}

theorem needs (h : node.Fills) (hk : node.kind = kind) : Needs kind := by
  subst hk
  cases h with
  | plain hb _ =>
    generalize node.kind = kind at hb ⊢
    cases kind
    case block | ifThen | whileLoop | forLoop | comptime | catchExpr => cases hb
    case binaryOp op _ _ => cases op <;> trivial
    all_goals trivial
  | jump hj =>
    generalize node.kind = kind at hj ⊢
    cases kind <;> trivial
  | loop he hfills _ _ =>
    generalize node.kind = kind at he ⊢
    cases kind
    case whileLoop | forLoop => exact ⟨_, he, hfills⟩
    all_goals cases he
  | block hk | tryExpr hk =>
    rw [hk]
    trivial
  | shortCircuit hk hop =>
    rw [hk]
    rcases hop with rfl | rfl <;> trivial
  | labelled hk hend _ _ =>
    rw [hk]
    exact hend
  | ifThen hk ht he =>
    rw [hk]
    exact ⟨ht, _, rfl, he⟩
  | comptime hk hpart | catchExpr hk hpart | orElse hk hpart =>
    rw [hk]
    exact hpart

/-- What is true of the constructs for which a `break` may be meant is true where the others have no
parts of that sort. -/
theorem inner_cases (h : node.Fills) (hp : part ∈ node.kind.inner)
    (ht : node.kind.takesBreak label = true) :
    ¬ part.Breaks label none ∧ ∀ e, part.Breaks label (some e) → e.Fills := by
  cases h with
  | labelled hk _ carries values =>
    rw [hk] at hp
    exact ⟨carries part hp label ht, fun e => values part hp label e ht⟩
  | loop _ _ carries values =>
    exact ⟨carries part hp label ht, fun e => values part hp label e ht⟩
  | block hk =>
    rw [hk] at ht
    cases label <;> cases ht
  | plain hb =>
    generalize node.kind = kind at hb hp
    cases kind <;> contradiction
  | jump hj =>
    generalize node.kind = kind at hj hp
    cases kind <;> contradiction
  | ifThen hk | comptime hk | tryExpr hk | catchExpr hk | orElse hk | shortCircuit hk =>
    rw [hk] at hp
    cases hp

/-- What has no value to deliver does not fill its location. -/
theorem delivers (h : node.Fills) : node.kind.delivers = true := by
  cases h with
  | plain _ hd => exact hd
  | jump hj =>
    generalize node.kind = kind at hj ⊢
    cases kind <;> first | rfl | cases hj
  | loop he =>
    generalize node.kind = kind at he ⊢
    cases kind <;> first | rfl | cases he
  | block hk | labelled hk | ifThen hk | comptime hk | tryExpr hk | catchExpr hk | orElse hk
  | shortCircuit hk =>
    rw [hk]
    rfl

end Fills

/-- A node declares a local variable with an initializer, and an instruction makes its storage. -/
def Stores (decl init : Node) (x : Inst) : Prop :=
  (∃ name isConst isComptime typeExpr,
      decl.kind = .varDecl name isConst isComptime typeExpr (some init) ∧
        ∃ type evaluated, x.kind = .alloca (some name) type evaluated) ∧
    x.location = decl.location

end Node

/-- An instruction makes storage that stands in the source: that of a local variable. -/
def Inst.isLocal (x : Inst) : Prop := x.kind.isAlloca = true ∧ x.isGen = false

/-- On the ways from the storage of a local variable to its declaration there is at most one
instruction that writes to the storage, and there is one if the initializer has a value on every
path. -/
def Stream.WritesOnce (s : Stream) (root : Node) : Prop :=
  ∀ q r x y var n, s.fetch? q = some x → x.isLocal → s.fetch? r = some y →
    y.kind = .declVar var x.id → s.Way x.id q r n →
      n ≤ 1 ∧ ((∀ decl ∈ root.nodes, ∀ init, decl.Stores init x → init.Fills) → n = 1)

namespace Lower

variable {α β : Type} {parts : Parts} {node : Node} {scope : ScopeId}
  {location : Option Location} {loc : ResultLoc}

/-! ### Values that are stored when they have been computed -/

theorem throw_bind {e : Stop} {f : α → LowerM β} : (throw e : LowerM α) >>= f = throw e := rfl

theorem fail_bind {m : Message} {f : α → LowerM β} : (fail m : LowerM α) >>= f = fail m := by
  simp only [fail, bind_assoc]
  congr 1
  funext env
  congr 1
  funext s
  split
  · split <;> simp only [bind_assoc, throw_bind]
  · simp only [bind_assoc, throw_bind]

theorem lowerUnary_eq_bind_deliver {op : UnaryOperator} {operand : Node} :
    lowerUnary parts node op operand scope loc = (do
      let value ← lowerUnary parts node op operand scope .none
      deliver value loc scope node.location) := by
  cases op with
  | addressOf =>
    rw [lowerUnary, lowerUnary]
    split <;> simp [emitTo, deliver]
  | _ => simp [lowerUnary, emitTo, deliver]

theorem lowerBinary_eq_bind_deliver {op : BinaryOperator} {lhs rhs : Node}
    (hop : op.isLogical = false) :
    lowerBinary parts node op lhs rhs scope loc = (do
      let value ← lowerBinary parts node op lhs rhs scope .none
      deliver value loc scope node.location) := by
  cases op <;> first | exact absurd hop (by decide) | simp [lowerBinary, emitTo, deliver]

theorem lowerBuiltinCall_eq_bind_deliver {name : String} {args : List Node} :
    lowerBuiltinCall parts node name args scope loc = (do
      let value ← lowerBuiltinCall parts node name args scope .none
      deliver value loc scope node.location) := by
  unfold lowerBuiltinCall
  dsimp only
  split
  · simp only [failAt, fail_bind]
  split
  · simp only [failAt, fail_bind]
  split
  · simp [lowerAs, emitTo, deliver]
  · simp [emitTo, deliver]

theorem lowerAsm_eq_bind_deliver {template : String} {isVolatile : Bool} :
    lowerAsm node template isVolatile scope loc = (do
      let value ← lowerAsm node template isVolatile scope .none
      deliver value loc scope node.location) := by
  simp only [lowerAsm, bind_assoc]
  congr 1
  funext scopes
  split
  · simp only [failAt, fail_bind]
  · simp [emitTo, deliver]

/-- An expression that does not use its location itself is computed first, and stored then. -/
theorem lowerExpr_eq_bind_deliver (hb : node.kind.branches = false)
    (hd : node.kind.delivers = true) (hp : node.kind.fillsInPlace = false) :
    lowerExpr parts node scope loc = (do
      let value ← lowerExpr parts node scope .none
      deliver value loc scope node.location) := by
  rw [lowerExpr, lowerExpr]
  cases h : node.kind <;> rw [h] at hb hd hp
  case block | comptime | ifThen | whileLoop | forLoop | breakTo | continueTo | returnFrom |
      unreachable | tryExpr | catchExpr => cases hb
  case assign | assignOp | suspend => cases hd
  case call | structInit | arrayInit => cases hp
  case varDecl | deferred | root | fnDecl | param | testDecl | containerField =>
    simp only [failAt, fail_bind]
  case intLiteral | floatLiteral | stringLiteral | boolLiteral | nullLiteral | undefinedLiteral |
      errorValue => simp [emitTo, deliver]
  case symbol name => simp [deliver]
  case fieldAccess | arrayAccess => simp [lowerLoad, emitTo, deliver]
  case unaryOp op operand => exact lowerUnary_eq_bind_deliver
  case binaryOp op lhs rhs => exact lowerBinary_eq_bind_deliver hb
  case builtinCall name args => exact lowerBuiltinCall_eq_bind_deliver
  case containerDecl kind fields decls => simp [lowerContainer, emitTo, deliver]
  case errorSetDecl members => simp [lowerErrorSet, emitTo, deliver]
  case asm template isVolatile => exact lowerAsm_eq_bind_deliver

/-- What has no value to deliver takes no account of its location. -/
theorem lowerExpr_eq_of_delivers (hd : node.kind.delivers = false) :
    lowerExpr parts node scope loc = lowerExpr parts node scope .none := by
  rw [lowerExpr, lowerExpr]
  cases hk : node.kind <;> simp only [hk, Kind.delivers, Bool.true_eq_false] at hd
  all_goals rfl

end Lower

end SourceIr
