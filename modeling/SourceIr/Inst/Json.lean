import SourceIr.Inst.Basic

/-!
# Instructions as data

Every instruction is written as a variant with its fields in their declared order, and read back
from that form.
-/

namespace SourceIr

namespace ConstValue

instance : Encode ConstValue := ⟨fun
  | void => .str "Void"
  | bool value => .wrapped "Bool" (encode value)
  | int value => .wrapped "Int" (encode value)
  | float value => .wrapped "Float" (encode value)
  | str value => .wrapped "Str" (encode value)
  | null => .str "Null"
  | undefined => .str "Undefined"
  | type name => .wrapped "Type" (encode name)⟩

/-- The constants without a value. -/
def ofName? : String → Option ConstValue
  | "Void" => some void
  | "Null" => some null
  | "Undefined" => some undefined
  | _ => none

instance : Decode ConstValue := ⟨fun value => do
  let (name, body) ← value.variant?
  if Json.isUnit body then ofName? name
  else
    let body ← body
    match name with
    | "Bool" => return bool (← decode? body)
    | "Int" => return int (← decode? body)
    | "Float" => return float (← decode? body)
    | "Str" => return str (← decode? body)
    | "Type" => return type (← decode? body)
    | _ => none⟩

end ConstValue

instance : Encode ContainerFieldInst := ⟨fun f =>
  .obj [("name", encode f.name), ("type_inst", encode f.typeInst),
    ("default_value", encode f.defaultValue)]⟩

instance : Decode ContainerFieldInst := ⟨fun value => do
  let r ← value.record? ["name", "type_inst", "default_value"]
  return { name := ← r.required "name", typeInst := ← r.optional "type_inst",
           defaultValue := ← r.optional "default_value" }⟩

namespace InstKind

instance : Encode InstKind := ⟨fun
  | const value => .wrapped "Const" (encode value)
  | declRef decl name lval => .variant "DeclRef"
      [("decl", encode decl), ("name", encode name), ("lval", encode lval)]
  | varPtr var => .variant "VarPtr" [("var", encode var)]
  | returnPtr => .str "ReturnPtr"
  | argPtr index => .variant "ArgPtr" [("index", encode index)]
  | loadPtr ptr => .variant "LoadPtr" [("ptr", encode ptr)]
  | storePtr ptr value => .variant "StorePtr" [("ptr", encode ptr), ("value", encode value)]
  | alloca name typeInst isComptime => .variant "Alloca"
      [("name", encode name), ("type_inst", encode typeInst), ("is_comptime", encode isComptime)]
  | declVar var ptr => .variant "DeclVar" [("var", encode var), ("ptr", encode ptr)]
  | fieldPtr container field => .variant "FieldPtr"
      [("container", encode container), ("field", encode field)]
  | elemPtr array index => .variant "ElemPtr" [("array", encode array), ("index", encode index)]
  | binOp op lhs rhs => .variant "BinOp"
      [("op", encode op), ("lhs", encode lhs), ("rhs", encode rhs)]
  | unOp op operand => .variant "UnOp" [("op", encode op), ("operand", encode operand)]
  | ref value => .variant "Ref" [("value", encode value)]
  | as destType value => .variant "As" [("dest_type", encode destType), ("value", encode value)]
  | call callee args modifier resultPtr => .variant "Call"
      [("callee", encode callee), ("args", encode args), ("modifier", encode modifier),
       ("result_ptr", encode resultPtr)]
  | builtinCall name args => .variant "BuiltinCall" [("name", encode name), ("args", encode args)]
  | containerDecl kind name bareName fields decls => .variant "ContainerDecl"
      [("kind", encode kind), ("name", encode name), ("bare_name", encode bareName),
       ("fields", encode fields), ("decls", encode decls)]
  | errorSet name bareName members => .variant "ErrorSet"
      [("name", encode name), ("bare_name", encode bareName), ("members", encode members)]
  | errorValue name => .variant "ErrorValue" [("name", encode name)]
  | structInit typeInst fields resultPtr => .variant "StructInit"
      [("type_inst", encode typeInst), ("fields", encode fields),
       ("result_ptr", encode resultPtr)]
  | arrayInit typeInst elements resultPtr => .variant "ArrayInit"
      [("type_inst", encode typeInst), ("elements", encode elements),
       ("result_ptr", encode resultPtr)]
  | br target => .variant "Br" [("target", encode target)]
  | condBr cond thenBlock elseBlock => .variant "CondBr"
      [("cond", encode cond), ("then_block", encode thenBlock), ("else_block", encode elseBlock)]
  | phi incoming => .variant "Phi" [("incoming", encode incoming)]
  | ret operand => .variant "Return" [("operand", encode operand)]
  | unreachable => .str "Unreachable"
  | isErr value => .variant "IsErr" [("value", encode value)]
  | unwrapErrCode value => .variant "UnwrapErrCode" [("value", encode value)]
  | unwrapErrPayload value safetyCheck => .variant "UnwrapErrPayload"
      [("value", encode value), ("safety_check", encode safetyCheck)]
  | testNonNull value => .variant "TestNonNull" [("value", encode value)]
  | optionalUnwrap value safetyCheck => .variant "OptionalUnwrap"
      [("value", encode value), ("safety_check", encode safetyCheck)]
  | comptimeBlock unit => .variant "ComptimeBlock" [("unit", encode unit)]
  | checkStatementIsVoid value => .variant "CheckStatementIsVoid" [("value", encode value)]
  | asm template isVolatile => .variant "Asm"
      [("template", encode template), ("is_volatile", encode isVolatile)]
  | suspendBegin => .str "SuspendBegin"
  | suspendFinish begin => .variant "SuspendFinish" [("begin", encode begin)]⟩

/-- The instructions without fields. -/
def ofName? : String → Option InstKind
  | "ReturnPtr" => some returnPtr
  | "Unreachable" => some unreachable
  | "SuspendBegin" => some suspendBegin
  | _ => none

/-- The fields of an instruction that has any. -/
def fieldNames? : String → Option (List String)
  | "DeclRef" => some ["decl", "name", "lval"]
  | "VarPtr" => some ["var"]
  | "ArgPtr" => some ["index"]
  | "LoadPtr" => some ["ptr"]
  | "StorePtr" => some ["ptr", "value"]
  | "Alloca" => some ["name", "type_inst", "is_comptime"]
  | "DeclVar" => some ["var", "ptr"]
  | "FieldPtr" => some ["container", "field"]
  | "ElemPtr" => some ["array", "index"]
  | "BinOp" => some ["op", "lhs", "rhs"]
  | "UnOp" => some ["op", "operand"]
  | "Ref" | "IsErr" | "UnwrapErrCode" | "TestNonNull" | "CheckStatementIsVoid" => some ["value"]
  | "As" => some ["dest_type", "value"]
  | "Call" => some ["callee", "args", "modifier", "result_ptr"]
  | "BuiltinCall" => some ["name", "args"]
  | "ContainerDecl" => some ["kind", "name", "bare_name", "fields", "decls"]
  | "ErrorSet" => some ["name", "bare_name", "members"]
  | "ErrorValue" => some ["name"]
  | "StructInit" => some ["type_inst", "fields", "result_ptr"]
  | "ArrayInit" => some ["type_inst", "elements", "result_ptr"]
  | "Br" => some ["target"]
  | "CondBr" => some ["cond", "then_block", "else_block"]
  | "Phi" => some ["incoming"]
  | "Return" => some ["operand"]
  | "UnwrapErrPayload" | "OptionalUnwrap" => some ["value", "safety_check"]
  | "ComptimeBlock" => some ["unit"]
  | "Asm" => some ["template", "is_volatile"]
  | "SuspendFinish" => some ["begin"]
  | _ => none

/-- The instruction with this name and these fields. -/
def ofRecord? (name : String) (r : Json.Record) : Option InstKind := do
  match name with
  | "DeclRef" => return declRef (← r.required "decl") (← r.required "name") (← r.required "lval")
  | "VarPtr" => return varPtr (← r.required "var")
  | "ArgPtr" => return argPtr (← r.required "index")
  | "LoadPtr" => return loadPtr (← r.required "ptr")
  | "StorePtr" => return storePtr (← r.required "ptr") (← r.required "value")
  | "Alloca" =>
    return alloca (← r.optional "name") (← r.optional "type_inst") (← r.required "is_comptime")
  | "DeclVar" => return declVar (← r.required "var") (← r.required "ptr")
  | "FieldPtr" => return fieldPtr (← r.required "container") (← r.required "field")
  | "ElemPtr" => return elemPtr (← r.required "array") (← r.required "index")
  | "BinOp" => return binOp (← r.required "op") (← r.required "lhs") (← r.required "rhs")
  | "UnOp" => return unOp (← r.required "op") (← r.required "operand")
  | "Ref" => return ref (← r.required "value")
  | "As" => return as (← r.required "dest_type") (← r.required "value")
  | "Call" =>
    return call (← r.required "callee") (← r.required "args") (← r.required "modifier")
      (← r.optional "result_ptr")
  | "BuiltinCall" => return builtinCall (← r.required "name") (← r.required "args")
  | "ContainerDecl" =>
    return containerDecl (← r.required "kind") (← r.required "name") (← r.required "bare_name")
      (← r.required "fields") (← r.required "decls")
  | "ErrorSet" =>
    return errorSet (← r.required "name") (← r.required "bare_name") (← r.required "members")
  | "ErrorValue" => return errorValue (← r.required "name")
  | "StructInit" =>
    return structInit (← r.optional "type_inst") (← r.required "fields")
      (← r.optional "result_ptr")
  | "ArrayInit" =>
    return arrayInit (← r.optional "type_inst") (← r.required "elements")
      (← r.optional "result_ptr")
  | "Br" => return br (← r.required "target")
  | "CondBr" =>
    return condBr (← r.required "cond") (← r.required "then_block") (← r.required "else_block")
  | "Phi" => return phi (← r.required "incoming")
  | "Return" => return ret (← r.optional "operand")
  | "IsErr" => return isErr (← r.required "value")
  | "UnwrapErrCode" => return unwrapErrCode (← r.required "value")
  | "UnwrapErrPayload" =>
    return unwrapErrPayload (← r.required "value") (← r.required "safety_check")
  | "TestNonNull" => return testNonNull (← r.required "value")
  | "OptionalUnwrap" =>
    return optionalUnwrap (← r.required "value") (← r.required "safety_check")
  | "ComptimeBlock" => return comptimeBlock (← r.required "unit")
  | "CheckStatementIsVoid" => return checkStatementIsVoid (← r.required "value")
  | "Asm" => return asm (← r.required "template") (← r.required "is_volatile")
  | "SuspendFinish" => return suspendFinish (← r.required "begin")
  | _ => none

instance : Decode InstKind := ⟨fun value => do
  let (name, body) ← value.variant?
  if Json.isUnit body then ofName? name
  else if name = "Const" then return const (← decode? (← body))
  else ofRecord? name (← (← body).record? (← fieldNames? name))⟩

end InstKind

instance : Encode Inst := ⟨fun i =>
  .obj [("id", encode i.id), ("kind", encode i.kind), ("block", encode i.block),
    ("scope", encode i.scope), ("location", encode i.location),
    ("is_comptime", encode i.isComptime), ("is_gen", encode i.isGen)]⟩

end SourceIr
