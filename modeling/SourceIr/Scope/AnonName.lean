import SourceIr.Scope.Tree

/-!
# Names of unnamed types

A container or error set that no declaration names is called after its kind and its place, behind
the namespace and the function around it.  Without a place the number of its node takes over.
The names serve messages; they do not tell types apart.
-/

namespace SourceIr

/-- The name of a type, with and without what encloses it. -/
structure TypeName where
  full : String
  bare : String
  deriving DecidableEq, Repr

instance : Encode TypeName := ⟨fun n =>
  .obj [("full", encode n.full), ("bare", encode n.bare)]⟩

namespace TypeName

/-- The namespace around a scope, `root` if there is none. -/
def rootOf (t : ScopeTree) (s : ScopeId) : String := (t.rootName s).getD "root"

/-- The name of the function around a scope. -/
def fnNameOf? (t : ScopeTree) (s : ScopeId) : Option String := do
  match (← t.scope? (← t.enclosingFn s)).kind with
  | .fnDef name => some name
  | _ => none

/-- The name of a type that a declaration names. -/
def ofDecl (t : ScopeTree) (s : ScopeId) (name : String) : TypeName :=
  ⟨s!"{rootOf t s}.{name}", name⟩

/-- The name of a type that no declaration names. -/
def anonymous (t : ScopeTree) (s : ScopeId) (kind : String) (location : Option Location)
    (number : Nat) : TypeName :=
  let bare :=
    match location with
    | some l => s!"{kind}:{l.position}"
    | none => s!"{kind}#{number}"
  let outer :=
    match fnNameOf? t s with
    | some fn => s!"{rootOf t s}.{fn}"
    | none => rootOf t s
  ⟨s!"{outer}.{bare}", bare⟩

end TypeName

end SourceIr
