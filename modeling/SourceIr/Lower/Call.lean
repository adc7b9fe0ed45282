import SourceIr.Builtin
import SourceIr.Lower.Result

/-!
# Calls

Calls of functions, with their modifiers, and of builtin functions.  While the arguments of a
call at compile time are lowered, the call is an open evaluation.
-/

namespace SourceIr.Lower

/-- The callee as a frame names it. -/
def calleeName (callee : Node) : String :=
  match callee.kind with
  | .symbol name => s!"'{name}'"
  | .fieldAccess _ field => s!"'{field}'"
  | _ => "function"

/-- Fails on a modifier that cannot be honoured where everything is evaluated at compile time. -/
def checkModifier (node : Node) (modifier : CallModifier) (forced : Bool) : LowerM PUnit := do
  match if forced then modifier.runTimeOnly? else none with
  | some word =>
    failAt .forcedComptimeViolation s!"unable to perform '{word}' call at compile time"
      "lower_call" node
  | none => return ⟨⟩

/-- Lowers arguments in order. -/
def lowerArgs (parts : Parts) (scope : ScopeId) : List Node → LowerM (List InstId)
  | [] => return []
  | arg :: rest => do
    let value ← parts.value arg scope
    return value :: (← lowerArgs parts scope rest)

/-- Lowers a call. -/
def lowerCall (parts : Parts) (node callee : Node) (args : List Node) (modifier : CallModifier)
    (scope : ScopeId) (loc : ResultLoc) : LowerM InstId := do
  let forced := (← scopesFrom scope).isForcedComptime scope
  checkModifier node modifier forced
  let target ← parts.value callee scope
  let atCompileTime := modifier = .compileTime
  let lowerAll : LowerM (List InstId) := do
    let argScope ← if atCompileTime && !forced then openScope scope .comptime else pure scope
    lowerArgs parts argScope args
  let values ←
    if atCompileTime || (← isComptimeAt scope) then
      withFrame node.location s!"call to {calleeName callee}" lowerAll
    else lowerAll
  let ptr ← resultPtr loc scope node.location
  emitWith (.call target values modifier ptr) scope node.location atCompileTime false

/-- The argument at a position. -/
def argAt (args : List Node) (i : Nat) : LowerM Node :=
  match args[i]? with
  | some arg => return arg
  | none => throw (.fault (.outOfRange args.length i))

/-- Lowers `@as(type, value)`. -/
def lowerAs (parts : Parts) (node : Node) (args : List Node) (scope : ScopeId)
    (loc : ResultLoc) : LowerM InstId := do
  let destType ← parts.comptimeValue (← argAt args 0) scope
  let value ← parts.value (← argAt args 1) scope
  emitTo (.as destType value) scope node.location loc

/-- Lowers a call of a builtin function, which must be known and take this many arguments. -/
def lowerBuiltinCall (parts : Parts) (node : Node) (name : String) (args : List Node)
    (scope : ScopeId) (loc : ResultLoc) : LowerM InstId := do
  let bare := Builtin.bareName name
  match Builtin.find? bare with
  | none =>
    failAt .unresolvedName s!"invalid builtin function: '@{bare}'" "lower_builtin_call" node
  | some info =>
    if !info.arity.accepts args.length then
      failAt .invalidConstruct
        s!"expected {info.arity.text} argument(s), found {args.length}" "lower_builtin_call" node
    else
      match bare with
      | "as" => lowerAs parts node args scope loc
      | _ =>
        let values ← lowerArgs parts scope args
        emitTo (.builtinCall bare values) scope node.location loc

end SourceIr.Lower
