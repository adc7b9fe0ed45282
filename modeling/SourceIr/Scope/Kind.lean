import SourceIr.Handle
import SourceIr.Syntax.Operator

/-!
# Kinds of scopes

What a scope stands for.  The kinds decide how far a jump may reach, what a name can refer to and
what is evaluated at compile time.
-/

namespace SourceIr

/-- What a scope stands for. -/
inductive ScopeKind where
  /-- The outermost scope of a unit, in the namespace of a file. -/
  | topLevel (root : String)
  /-- A function or a test. -/
  | fnDef (name : String)
  /-- The members of a container, by its qualified path. -/
  | container (path : String)
  /-- A block.  With a label it can be left early, to its end block. -/
  | block (label : Option String) (endBlock : Option BlockId)
  /-- The body of a loop. -/
  | loop (label : Option String) (breakBlock continueBlock : BlockId)
  /-- Everything below is evaluated at compile time. -/
  | comptime
  /-- What follows a `defer` statement in its block. -/
  | deferred (kind : DeferKind)
  /-- A deferred expression while it is lowered. -/
  | deferredBody
  /-- The handler of a `catch`. -/
  | errorHandling
  /-- The body of a `suspend`. -/
  | suspend
  deriving DecidableEq, Repr, Inhabited

namespace ScopeKind

/-- The label of a block or a loop. -/
def label? : ScopeKind → Option String
  | block label _ | loop label _ _ => label
  | _ => none

/-- Whether the scope is that of a function. -/
def isFn : ScopeKind → Bool
  | fnDef _ => true
  | _ => false

/-- Whether the scope ends the search for the target of a jump: jumps stay within a function. -/
def endsJumps : ScopeKind → Bool
  | fnDef _ | topLevel _ | container _ => true
  | _ => false

instance : Encode ScopeKind := ⟨fun
  | topLevel root => .variant "TopLevel" [("namespace", encode root)]
  | fnDef name => .variant "FnDef" [("name", encode name)]
  | container path => .variant "Container" [("path", encode path)]
  | block label endBlock =>
    .variant "Block" [("label", encode label), ("end_block", encode endBlock)]
  | loop label breakBlock continueBlock => .variant "Loop"
      [("label", encode label), ("break_block", encode breakBlock),
       ("continue_block", encode continueBlock)]
  | comptime => .str "Comptime"
  | deferred kind => .variant "Defer" [("kind", encode kind)]
  | deferredBody => .str "DeferExpr"
  | errorHandling => .str "ErrorHandling"
  | suspend => .str "Suspend"⟩

/-- The kinds without fields. -/
def ofName? : String → Option ScopeKind
  | "Comptime" => some comptime
  | "DeferExpr" => some deferredBody
  | "ErrorHandling" => some errorHandling
  | "Suspend" => some suspend
  | _ => none

/-- The kind with this name and these fields. -/
def ofBody? (name : String) (body : Json) : Option ScopeKind := do
  match name with
  | "TopLevel" =>
    let r ← body.record? ["namespace"]
    return topLevel (← r.required "namespace")
  | "FnDef" =>
    let r ← body.record? ["name"]
    return fnDef (← r.required "name")
  | "Container" =>
    let r ← body.record? ["path"]
    return container (← r.required "path")
  | "Block" =>
    let r ← body.record? ["label", "end_block"]
    return block (← r.optional "label") (← r.optional "end_block")
  | "Loop" =>
    let r ← body.record? ["label", "break_block", "continue_block"]
    return loop (← r.optional "label") (← r.required "break_block")
      (← r.required "continue_block")
  | "Defer" =>
    let r ← body.record? ["kind"]
    return deferred (← r.required "kind")
  | _ => none

instance : Decode ScopeKind := ⟨fun value => do
  let (name, body) ← value.variant?
  if Json.isUnit body then ofName? name else ofBody? name (← body)⟩

end ScopeKind

end SourceIr
