import SourceIr.Text.Json.Record

/-!
# Operators and modifiers

The closed vocabularies of the syntax tree.  Each constant has a name, under which it is read and
written, and `all` lists the constants of a vocabulary.
-/

namespace SourceIr

/-- The operators with two operands. -/
inductive BinaryOperator where
  | eq | ne | lt | le | gt | ge
  | add | sub | mul | div | mod
  | bitAnd | bitOr | bitXor | shl | shr
  | boolAnd | boolOr | orElse
  deriving DecidableEq, Repr, Inhabited

namespace BinaryOperator

/-- Every operator. -/
def all : List BinaryOperator :=
  [eq, ne, lt, le, gt, ge, add, sub, mul, div, mod, bitAnd, bitOr, bitXor, shl, shr,
    boolAnd, boolOr, orElse]

/-- The name of the operator in a syntax tree. -/
def name : BinaryOperator → String
  | eq => "Eq"
  | ne => "Ne"
  | lt => "Lt"
  | le => "Le"
  | gt => "Gt"
  | ge => "Ge"
  | add => "Add"
  | sub => "Sub"
  | mul => "Mul"
  | div => "Div"
  | mod => "Mod"
  | bitAnd => "BitAnd"
  | bitOr => "BitOr"
  | bitXor => "BitXor"
  | shl => "Shl"
  | shr => "Shr"
  | boolAnd => "BoolAnd"
  | boolOr => "BoolOr"
  | orElse => "Orelse"

/-- The operator as it is written in a program. -/
def symbol : BinaryOperator → String
  | eq => "=="
  | ne => "!="
  | lt => "<"
  | le => "<="
  | gt => ">"
  | ge => ">="
  | add => "+"
  | sub => "-"
  | mul => "*"
  | div => "/"
  | mod => "%"
  | bitAnd => "&"
  | bitOr => "|"
  | bitXor => "^"
  | shl => "<<"
  | shr => ">>"
  | boolAnd => "and"
  | boolOr => "or"
  | orElse => "orelse"

/-- The operators that may skip their right operand: `and`, `or` and `orelse`. -/
def isLogical : BinaryOperator → Bool
  | boolAnd | boolOr | orElse => true
  | _ => false

instance : Encode BinaryOperator := ⟨fun op => .str op.name⟩
instance : Decode BinaryOperator := ⟨Json.enumerated? all name⟩

end BinaryOperator

/-- The operators with one operand. -/
inductive UnaryOperator where
  | negate | boolNot | bitNot | addressOf | deref | optionalUnwrap
  deriving DecidableEq, Repr, Inhabited

namespace UnaryOperator

/-- Every operator. -/
def all : List UnaryOperator := [negate, boolNot, bitNot, addressOf, deref, optionalUnwrap]

/-- The name of the operator. -/
def name : UnaryOperator → String
  | negate => "Negate"
  | boolNot => "BoolNot"
  | bitNot => "BitNot"
  | addressOf => "AddressOf"
  | deref => "Deref"
  | optionalUnwrap => "OptionalUnwrap"

instance : Encode UnaryOperator := ⟨fun op => .str op.name⟩
instance : Decode UnaryOperator := ⟨Json.enumerated? all name⟩

end UnaryOperator

/-- How a call is to be carried out. -/
inductive CallModifier where
  | auto | alwaysInline | neverInline | compileTime | async
  deriving DecidableEq, Repr, Inhabited

namespace CallModifier

/-- Every modifier. -/
def all : List CallModifier := [auto, alwaysInline, neverInline, compileTime, async]

/-- The name of the modifier. -/
def name : CallModifier → String
  | auto => "Auto"
  | alwaysInline => "AlwaysInline"
  | neverInline => "NeverInline"
  | compileTime => "CompileTime"
  | async => "Async"

/-- The word for a modifier that cannot be honoured at compile time. -/
def runTimeOnly? : CallModifier → Option String
  | neverInline => some "never_inline"
  | async => some "async"
  | _ => none

instance : Encode CallModifier := ⟨fun m => .str m.name⟩
instance : Decode CallModifier := ⟨Json.enumerated? all name⟩

end CallModifier

/-- The kinds of container types. -/
inductive ContainerKind where
  | struct | enum | union | opaqueType
  deriving DecidableEq, Repr, Inhabited

namespace ContainerKind

/-- Every kind. -/
def all : List ContainerKind := [struct, enum, union, opaqueType]

/-- The name of the kind in a syntax tree. -/
def name : ContainerKind → String
  | struct => "Struct"
  | enum => "Enum"
  | union => "Union"
  | opaqueType => "Opaque"

/-- The word for the kind in messages and in the names of unnamed types. -/
def tag : ContainerKind → String
  | struct => "struct"
  | enum => "enum"
  | union => "union"
  | opaqueType => "opaque"

instance : Encode ContainerKind := ⟨fun k => .str k.name⟩
instance : Decode ContainerKind := ⟨Json.enumerated? all name⟩

end ContainerKind

/-- When a deferred expression runs: at every exit from its scope, or only when the function
returns an error. -/
inductive DeferKind where
  | normal | error
  deriving DecidableEq, Repr, Inhabited

namespace DeferKind

/-- Both kinds. -/
def all : List DeferKind := [normal, error]

/-- The name of the kind. -/
def name : DeferKind → String
  | normal => "Normal"
  | error => "Error"

instance : Encode DeferKind := ⟨fun k => .str k.name⟩
instance : Decode DeferKind := ⟨Json.enumerated? all name⟩

end DeferKind

end SourceIr
