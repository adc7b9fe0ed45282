import SourceIr.Scope.Tree

/-!
# Declaring local variables

A variable that the user names may not take a name that already refers to something: a variable
in sight, unless both may be shadowed, a primitive type, or a declaration.  A request that is
refused leaves the scopes as they are.
-/

namespace SourceIr.ScopeTree

/-- The diagnostic for a name that is taken, with a note on what takes it. -/
def collision (message : String) (location : Option Location) (note : String)
    (noteLocation : Option Location) : Message :=
  (Message.ofKind .nameCollision message "create_local_var" location none).withNote
    (.ofNote note noteLocation)

/-- The visible variable that keeps a request from its name, if there is one. -/
def clash? (t : ScopeTree) (s : ScopeId) (name : String) (r : BindingRequest) :
    Option Variable :=
  ((t.lookupAll s name).filterMap t.var?).find? fun v => !v.isShadowable || !r.isShadowable

/-- Why a name is refused in a scope, if it is. -/
def nameError? (t : ScopeTree) (s : ScopeId) (name : String) (r : BindingRequest)
    (table : DeclTable) : Option Message :=
  match t.clash? s name r with
  | some previous => some (collision s!"redeclaration of variable '{name}'" r.location
      "previous declaration here" previous.location)
  | none =>
    if isPrimitiveType name then
      some (collision s!"variable shadows primitive type '{name}'" r.location
        "primitive type declared here" (some .builtin))
    else
      (t.lookupDecl s name table).map fun d =>
        collision s!"redefinition of '{name}'" r.location "previous definition here" d.location

/-- Why a request is refused in a scope, if it is. -/
def bindingError? (t : ScopeTree) (s : ScopeId) (r : BindingRequest) (table : DeclTable) :
    Option Message :=
  match r.name with
  | some name => if r.skipNameCheck then none else t.nameError? s name r table
  | none => none

/-- The breach in looking at what a request is checked against, if there is one. -/
def bindingFault? (t : ScopeTree) (s : ScopeId) (r : BindingRequest) : Option Fault :=
  match t.fault? s with
  | some f => some f
  | none => if r.skipNameCheck || r.name.isNone then none else t.varFault? s

/-- A scope with one more variable. -/
def withVar (v : VarId) (name : Option String) (s : Scope) : Scope :=
  { s with
    vars := s.vars.push v
    names := (name.map (·, v)).toList ++ s.names }

/-- The tree with one more variable in a scope. -/
def addVar (t : ScopeTree) (s : ScopeId) (r : BindingRequest) : VarId × ScopeTree :=
  let id : VarId := ⟨t.vars.size⟩
  (id,
    { scopes := t.scopes.modify s.index (withVar id r.name)
      vars := t.vars.push { r with id, scope := s } })

/-- Declares a variable in a scope, or says why its name is refused. -/
def declare (t : ScopeTree) (s : ScopeId) (r : BindingRequest) (table : DeclTable) :
    Except Message (VarId × ScopeTree) :=
  match t.bindingError? s r table with
  | some m => .error m
  | none => .ok (t.addVar s r)

/-- The tree with another compile-time status for a variable. -/
def setComptime (t : ScopeTree) (v : VarId) (status : ComptimeStatus) : ScopeTree :=
  { t with vars := t.vars.modify v.index fun var => { var with comptime := status } }

end SourceIr.ScopeTree
