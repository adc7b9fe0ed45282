import SourceIr.Builtin
import SourceIr.Inst.Basic

/-!
# Side effects

Whether something is lost when an instruction is dropped because nobody uses its value.  The
answer depends on the instruction alone and not on where it stands.
-/

namespace SourceIr.InstKind

/-- Whether an instruction has an effect besides its value.  Checks that may fail count, and so
does an initializer that writes into storage. -/
def hasSideEffects : InstKind → Bool
  | br .. | condBr .. | ret .. | unreachable | storePtr .. | declVar .. | call ..
  | checkStatementIsVoid .. | comptimeBlock .. | suspendBegin | suspendFinish .. => true
  | asm _ isVolatile => isVolatile
  | optionalUnwrap _ safetyCheck | unwrapErrPayload _ safetyCheck => safetyCheck
  | structInit _ _ resultPtr | arrayInit _ _ resultPtr => resultPtr.isSome
  | builtinCall name _ => Builtin.mayHaveEffect name
  | const .. | declRef .. | varPtr .. | returnPtr | argPtr .. | loadPtr .. | alloca ..
  | fieldPtr .. | elemPtr .. | binOp .. | unOp .. | ref .. | as .. | containerDecl ..
  | errorSet .. | errorValue .. | phi .. | isErr .. | unwrapErrCode .. | testNonNull .. => false

end SourceIr.InstKind
