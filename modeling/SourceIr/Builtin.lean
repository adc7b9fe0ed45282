/-!
# Builtin functions

The functions that are called with an `@` in front of their name: how many arguments each takes,
and whether a call has an effect when its result is not used.
-/

namespace SourceIr

/-- How many arguments a function takes. -/
inductive Arity where
  | exactly (n : Nat)
  | atLeast (n : Nat)
  deriving DecidableEq, Repr

namespace Arity

/-- Whether a number of arguments is accepted. -/
def accepts : Arity → Nat → Bool
  | exactly k, n => n == k
  | atLeast k, n => k ≤ n

/-- The arity in a message. -/
def text : Arity → String
  | exactly k => toString k
  | atLeast k => s!"at least {k}"

end Arity

/-- What is known of a builtin function. -/
structure Builtin where
  arity : Arity
  hasSideEffects : Bool
  deriving DecidableEq, Repr

namespace Builtin

/-- The functions that are called for their effect. -/
def effectful : List (String × Arity) := [
  ("import", .exactly 1), ("compileError", .exactly 1), ("compileLog", .atLeast 0),
  ("setEvalBranchQuota", .exactly 1), ("setRuntimeSafety", .exactly 1), ("setCold", .exactly 1),
  ("panic", .exactly 1), ("breakpoint", .exactly 0), ("memcpy", .exactly 3),
  ("memset", .exactly 3), ("fence", .exactly 1), ("atomicStore", .exactly 4),
  ("cImport", .exactly 1)]

/-- The functions that are called for their result alone. -/
def pureOnes : List (String × Arity) := [
  ("This", .exactly 0), ("TypeOf", .atLeast 1), ("sizeOf", .exactly 1), ("alignOf", .exactly 1),
  ("as", .exactly 2), ("intCast", .exactly 2), ("truncate", .exactly 2), ("bitCast", .exactly 2),
  ("ptrCast", .exactly 2), ("floatCast", .exactly 2), ("intToFloat", .exactly 2),
  ("floatToInt", .exactly 2), ("field", .exactly 2), ("hasField", .exactly 2),
  ("hasDecl", .exactly 2), ("typeInfo", .exactly 1), ("typeName", .exactly 1),
  ("errorName", .exactly 1), ("tagName", .exactly 1), ("min", .exactly 2), ("max", .exactly 2),
  ("frame", .exactly 0), ("returnAddress", .exactly 0)]

/-- The name without any `@` in front. -/
def bareName (name : String) : String :=
  String.ofList (name.toList.dropWhile (· == '@'))

/-- The builtin function of a name, with or without `@` in front. -/
def find? (name : String) : Option Builtin :=
  let bare := bareName name
  match effectful.lookup bare with
  | some arity => some ⟨arity, true⟩
  | none => (pureOnes.lookup bare).map (⟨·, false⟩)

/-- Whether a call of a name has an effect.  What is unknown may have any. -/
def mayHaveEffect (name : String) : Bool :=
  match find? name with
  | some b => b.hasSideEffects
  | none => true

end Builtin

end SourceIr
