import SourceIr.Handle
import SourceIr.Location
import SourceIr.Syntax.Operator

/-!
# Instructions

An instruction that has not been analysed.  Its operands are earlier instructions of the same
stream; branches name blocks, so that control flow never refers forward to an instruction.

* `ConstValue`, `InstKind`, `Inst`;
* `InstKind.operands`, what an instruction reads;
* `InstKind.isNoreturn`, `InstKind.targets`, how a block ends.
-/

namespace SourceIr

/-- A value that is known when it is lowered. -/
inductive ConstValue where
  | void
  | bool (value : Bool)
  | int (value : Int)
  | float (value : Float)
  | str (value : String)
  | null
  | undefined
  /-- A primitive type by its name. -/
  | type (name : String)
  deriving Inhabited

/-- A field of a container type, with the instructions for its type and default. -/
structure ContainerFieldInst where
  name : String
  typeInst : Option InstId
  defaultValue : Option InstId
  deriving DecidableEq, Repr

/-- What an instruction does. -/
inductive InstKind where
  | const (value : ConstValue)
  /-- Refers to a declaration; with `lval` its address is meant. -/
  | declRef (decl : DeclId) (name : String) (lval : Bool)
  | varPtr (var : VarId)
  | returnPtr
  | argPtr (index : Nat)
  | loadPtr (ptr : InstId)
  | storePtr (ptr value : InstId)
  | alloca (name : Option String) (typeInst : Option InstId) (isComptime : Bool)
  | declVar (var : VarId) (ptr : InstId)
  | fieldPtr (container : InstId) (field : String)
  | elemPtr (array index : InstId)
  | binOp (op : BinaryOperator) (lhs rhs : InstId)
  | unOp (op : UnaryOperator) (operand : InstId)
  /-- The address of a temporary. -/
  | ref (value : InstId)
  | as (destType value : InstId)
  | call (callee : InstId) (args : List InstId) (modifier : CallModifier)
      (resultPtr : Option InstId)
  | builtinCall (name : String) (args : List InstId)
  | containerDecl (kind : ContainerKind) (name bareName : String)
      (fields : List ContainerFieldInst) (decls : List String)
  | errorSet (name bareName : String) (members : List String)
  | errorValue (name : String)
  | structInit (typeInst : Option InstId) (fields : List (String × InstId))
      (resultPtr : Option InstId)
  | arrayInit (typeInst : Option InstId) (elements : List InstId) (resultPtr : Option InstId)
  | br (target : BlockId)
  | condBr (cond : InstId) (thenBlock elseBlock : BlockId)
  | phi (incoming : List (BlockId × InstId))
  | ret (operand : Option InstId)
  | unreachable
  | isErr (value : InstId)
  | unwrapErrCode (value : InstId)
  | unwrapErrPayload (value : InstId) (safetyCheck : Bool)
  | testNonNull (value : InstId)
  | optionalUnwrap (value : InstId) (safetyCheck : Bool)
  /-- Evaluates the child stream with this index. -/
  | comptimeBlock (unit : Nat)
  | checkStatementIsVoid (value : InstId)
  | asm (template : String) (isVolatile : Bool)
  | suspendBegin
  | suspendFinish (begin : InstId)
  deriving Inhabited

namespace InstKind

/-- Whether the instruction ends its block. -/
def isNoreturn : InstKind → Bool
  | br .. | condBr .. | ret .. | unreachable => true
  | _ => false

/-- The blocks that control may go on to. -/
def targets : InstKind → List BlockId
  | br target => [target]
  | condBr _ thenBlock elseBlock => [thenBlock, elseBlock]
  | _ => []

/-- The instructions that this one reads, in the order in which it names them. -/
def operands : InstKind → List InstId
  | const _ | declRef .. | varPtr _ | returnPtr | argPtr _ | errorSet .. | errorValue _ | br _
  | unreachable | comptimeBlock _ | asm .. | suspendBegin => []
  | alloca _ typeInst _ => typeInst.toList
  | loadPtr ptr => [ptr]
  | storePtr ptr value => [ptr, value]
  | declVar _ ptr => [ptr]
  | fieldPtr container _ => [container]
  | elemPtr array index => [array, index]
  | binOp _ lhs rhs => [lhs, rhs]
  | unOp _ operand => [operand]
  | ref value => [value]
  | as destType value => [destType, value]
  | call callee args _ resultPtr => callee :: args ++ resultPtr.toList
  | builtinCall _ args => args
  | containerDecl _ _ _ fields _ =>
    fields.flatMap fun f => f.typeInst.toList ++ f.defaultValue.toList
  | structInit typeInst fields resultPtr =>
    typeInst.toList ++ fields.map (·.2) ++ resultPtr.toList
  | arrayInit typeInst elements resultPtr => typeInst.toList ++ elements ++ resultPtr.toList
  | condBr cond _ _ => [cond]
  | phi incoming => incoming.map (·.2)
  | ret operand => operand.toList
  | isErr value | unwrapErrCode value | unwrapErrPayload value _ | testNonNull value
  | optionalUnwrap value _ | checkStatementIsVoid value => [value]
  | suspendFinish begin => [begin]

end InstKind

/-- An instruction of a stream. -/
structure Inst where
  id : InstId
  kind : InstKind
  block : BlockId
  scope : ScopeId
  location : Option Location
  /-- Whether it must be evaluated at compile time. -/
  isComptime : Bool
  /-- Whether the lowering adds it without a counterpart in the source. -/
  isGen : Bool
  deriving Inhabited

end SourceIr
