import SourceIr.Inst.Basic
import SourceIr.Text.Decimal
import SourceIr.Text.Quoted

/-!
# The text of instructions

Each instruction is shown on one line: its name, then its operands in a form of its own.  An
operand that is absent is shown as `_`.
-/

namespace SourceIr

/-- A float is shown with up to three zeros behind the point, and a tie goes up. -/
def ConstValue.number : Decimal.Format := ⟨.up, 3⟩

/-- The constant as it is shown. -/
def ConstValue.text : ConstValue → String
  | .void => "\x7b\x7d"
  | .bool b => if b then "true" else "false"
  | .int n => toString n
  | .float x => number.text x
  | .str s => Text.quoted s
  | .null => "null"
  | .undefined => "undefined"
  | .type name => name

namespace InstKind

/-- The name of the instruction. -/
def name : InstKind → String
  | const .. => "const"
  | declRef .. => "decl_ref"
  | varPtr .. => "var_ptr"
  | returnPtr => "ret_ptr"
  | argPtr .. => "arg_ptr"
  | loadPtr .. => "load"
  | storePtr .. => "store"
  | alloca .. => "alloca"
  | declVar .. => "decl_var"
  | fieldPtr .. => "field_ptr"
  | elemPtr .. => "elem_ptr"
  | binOp .. => "bin_op"
  | unOp .. => "un_op"
  | ref .. => "ref"
  | as .. => "as"
  | call .. => "call"
  | builtinCall .. => "builtin_call"
  | containerDecl .. => "container_decl"
  | errorSet .. => "error_set"
  | errorValue .. => "error_value"
  | structInit .. => "struct_init"
  | arrayInit .. => "array_init"
  | br .. => "br"
  | condBr .. => "cond_br"
  | phi .. => "phi"
  | ret .. => "return"
  | unreachable => "unreachable"
  | isErr .. => "is_err"
  | unwrapErrCode .. => "unwrap_err_code"
  | unwrapErrPayload .. => "unwrap_err_payload"
  | testNonNull .. => "test_non_null"
  | optionalUnwrap .. => "optional_unwrap"
  | comptimeBlock .. => "comptime_block"
  | checkStatementIsVoid .. => "check_void"
  | asm .. => "asm"
  | suspendBegin => "suspend_begin"
  | suspendFinish .. => "suspend_finish"

/-- Texts with commas between them. -/
def commaList (texts : List String) : String := ", ".intercalate texts

/-- Operands with commas between them. -/
def operandList (ids : List InstId) : String := commaList (ids.map InstId.text)

/-- An operand that may be absent. -/
def operandOr : Option InstId → String
  | some id => id.text
  | none => "_"

/-- A list between braces. -/
def braced (inner : String) : String := "\x7b" ++ inner ++ "\x7d"

/-- A remark that is shown only if it applies. -/
def remark (applies : Bool) (text : String) : String := if applies then text else ""

/-- The instruction as it is shown, without its handle. -/
def text (kind : InstKind) : String :=
  match kind with
  | const v => s!"{kind.name} {v.text}"
  | declRef _ decl lval => s!"{kind.name} {decl}" ++ remark lval " (lval)"
  | varPtr var => s!"{kind.name} {var.text}"
  | returnPtr | unreachable | suspendBegin => kind.name
  | argPtr index => s!"{kind.name} #{index}"
  | loadPtr ptr => s!"{kind.name} {ptr.text}"
  | storePtr ptr value => s!"{kind.name} {ptr.text} <- {value.text}"
  | alloca var typeInst isComptime =>
    let slot := var.getD "_"
    remark isComptime "comptime " ++ s!"{kind.name} {slot} : {operandOr typeInst}"
  | declVar var ptr => s!"{kind.name} {var.text} = {ptr.text}"
  | fieldPtr container field => s!"{kind.name} {container.text}.{field}"
  | elemPtr array index => s!"{kind.name} {array.text}[{index.text}]"
  | binOp op lhs rhs => s!"{kind.name} {lhs.text} {op.symbol} {rhs.text}"
  | unOp op operand => s!"{kind.name} {op.name} {operand.text}"
  | ref value => s!"{kind.name} {value.text}"
  | as destType value => s!"{kind.name} {destType.text}, {value.text}"
  | call callee args modifier resultPtr =>
    s!"{kind.name} {callee.text}({operandList args}) {modifier.name} -> {operandOr resultPtr}"
  | builtinCall builtin args => s!"{kind.name} {builtin}({operandList args})"
  | containerDecl container type _ fields decls =>
    s!"{kind.name} {container.tag} {type} fields=[{commaList (fields.map (·.name))}]" ++
      s!" decls=[{commaList decls}]"
  | errorSet type _ members => s!"{kind.name} {type} " ++ braced (commaList members)
  | errorValue err => s!"{kind.name} error.{err}"
  | structInit typeInst fields resultPtr =>
    s!"{kind.name} {operandOr typeInst} " ++
      braced (commaList (fields.map fun f => s!".{f.1} = {f.2.text}")) ++
      s!" -> {operandOr resultPtr}"
  | arrayInit typeInst elements resultPtr =>
    s!"{kind.name} {operandOr typeInst} " ++ braced (operandList elements) ++
      s!" -> {operandOr resultPtr}"
  | br target => s!"{kind.name} {target.text}"
  | condBr cond thenBlock elseBlock =>
    s!"{kind.name} {cond.text}, {thenBlock.text}, {elseBlock.text}"
  | phi incoming =>
    s!"{kind.name} [" ++ commaList (incoming.map fun e => s!"{e.1.text}: {e.2.text}") ++ "]"
  | ret operand => s!"{kind.name} {operandOr operand}"
  | isErr value | unwrapErrCode value | testNonNull value | checkStatementIsVoid value =>
    s!"{kind.name} {value.text}"
  | unwrapErrPayload value safetyCheck | optionalUnwrap value safetyCheck =>
    s!"{kind.name} {value.text}" ++ remark safetyCheck " (safe)"
  | comptimeBlock unit => s!"{kind.name} child#{unit}"
  | asm template isVolatile =>
    kind.name ++ remark isVolatile " volatile" ++ " " ++ Text.quoted template
  | suspendFinish begin => s!"{kind.name} {begin.text}"

end InstKind

/-- The instruction as it is shown: its handle, what it does, and whether at compile time. -/
def Inst.text (inst : Inst) : String :=
  s!"{inst.id.text} = {inst.kind.text}" ++ InstKind.remark inst.isComptime " [comptime]"

end SourceIr
