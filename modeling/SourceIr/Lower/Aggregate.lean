import SourceIr.Lower.Result
import SourceIr.Scope.AnonName

/-!
# Types and aggregates

Container types, error sets, and the initializers of structs and arrays.  Names in one of these
are pairwise distinct; the second use of a name is reported with a note on the first.  When an
initializer is written to storage, each part is written in place.
-/

namespace SourceIr.Lower

/-- The names that have been used, with their places. -/
abbrev Seen := List (String × Option Location)

/-- The name of the type that a node makes.  A node that initializes a declaration takes its
name. -/
def typeName (node : Node) (scope : ScopeId) (kind : String) : LowerM TypeName := do
  match ← takeNameHint node with
  | some name => return .ofDecl (← scopesFrom scope) scope name
  | none =>
    let scopes ← scopesFrom scope
    match scopes.enclosingFn scope with
    | some fn => let _ ← scopeAt fn
    | none => pure ⟨⟩
    return .anonymous scopes scope kind node.location node.id

/-- Lowers the fields of a container: their types and defaults, in order. -/
def lowerFields (parts : Parts) (kind : ContainerKind) (scope : ScopeId) (seen : Seen) :
    List Node → LowerM (List ContainerFieldInst × Seen)
  | [] => return ([], seen)
  | field :: rest => do
    match field.kind with
    | .containerField name typeExpr defaultValue =>
      match seen.lookup name with
      | some previous =>
        failTaken s!"duplicate {kind.tag} field: '{name}'" "lower_container_decl" field previous
          "other field here"
      | none =>
        let typeInst ← parts.comptimeValue? typeExpr scope
        let defaultValue ← parts.comptimeValue? defaultValue scope
        let (fields, seen) ← lowerFields parts kind scope ((name, field.location) :: seen) rest
        return (⟨name, typeInst, defaultValue⟩ :: fields, seen)
    | other =>
      failAt .invalidConstruct s!"expected container field, found {other.name}"
        "lower_container_decl" field

/-- Whether a member declaration shares the names of the fields.  A test does not. -/
def sharesNames (decl : Node) : Bool :=
  match decl.kind with
  | .testDecl .. => false
  | _ => true

/-- The names of the members of a container, in order.  Fields and declarations share one space of
names. -/
def memberNames (seen : Seen) : List Node → LowerM (List String)
  | [] => return []
  | decl :: rest => do
    match decl.declName? with
    | none => memberNames seen rest
    | some name =>
      if sharesNames decl then
        match seen.lookup name with
        | some previous =>
          failTaken s!"redefinition of '{name}'" "lower_container_decl" decl previous
            "previous definition here"
        | none => return name :: (← memberNames ((name, decl.location) :: seen) rest)
      else return name :: (← memberNames seen rest)

/-- Fails on a field of a type that has none. -/
def checkOpaque (kind : ContainerKind) (fields : List Node) : LowerM PUnit := do
  match fields with
  | [] => return ⟨⟩
  | field :: _ =>
    if kind = .opaqueType then
      failAt .invalidConstruct "opaque types cannot have fields" "lower_container_decl" field

/-- Lowers a container type. -/
def lowerContainer (parts : Parts) (node : Node) (kind : ContainerKind)
    (fields decls : List Node) (scope : ScopeId) (loc : ResultLoc) : LowerM InstId := do
  let name ← typeName node scope kind.tag
  checkOpaque kind fields
  let (lowered, seen) ← lowerFields parts kind scope [] fields
  let members ← memberNames seen decls
  emitTo (.containerDecl kind name.full name.bare lowered members) scope node.location loc

/-- Counts the node that is made for a member, if one is. -/
def countMade : Node.MemberSymbol → LowerM PUnit
  | .written => return ⟨⟩
  | .made _ => modify fun s => { s with nodesMade := s.nodesMade + 1 }

/-- The names of the members of an error set, in order. -/
def errorNames (seen : Seen) : List Node → LowerM (List String)
  | [] => return []
  | member :: rest => do
    match member.memberSymbol? 0, member.memberName? with
    | some symbol, some name =>
      countMade symbol
      match seen.lookup name with
      | some previous =>
        failTaken s!"duplicate error set field '{name}'" "lower_error_set" member previous
          "other field here"
      | none => return name :: (← errorNames ((name, member.location) :: seen) rest)
    | _, _ =>
      failAt .invalidConstruct s!"expected error set member, found {member.kind.name}"
        "lower_error_set" member

/-- Lowers an error set. -/
def lowerErrorSet (node : Node) (members : List Node) (scope : ScopeId) (loc : ResultLoc) :
    LowerM InstId := do
  let name ← typeName node scope "error"
  let names ← errorNames [] members
  emitTo (.errorSet name.full name.bare names) scope node.location loc

/-- Where the value of a field goes: into the field of the storage, if there is storage. -/
def fieldLoc (target : Option InstId) (field : FieldInit) (scope : ScopeId) :
    LowerM ResultLoc := do
  match target with
  | some ptr => return .existing (← emitGen (.fieldPtr ptr field.name) scope field.value.location)
  | none => return .none

/-- Lowers the values of the fields of a struct, in order. -/
def lowerFieldInits (parts : Parts) (target : Option InstId) (scope : ScopeId) (seen : Seen) :
    List FieldInit → LowerM (List (String × InstId))
  | [] => return []
  | field :: rest => do
    match seen.lookup field.name with
    | some previous =>
      failTaken s!"duplicate field '{field.name}' in initializer" "lower_struct_init" field.value
        previous "other field here"
    | none =>
      let value ← parts.expr field.value scope (← fieldLoc target field scope)
      return (field.name, value) ::
        (← lowerFieldInits parts target scope ((field.name, field.value.location) :: seen) rest)

/-- Lowers a struct initializer. -/
def lowerStructInit (parts : Parts) (node : Node) (typeExpr : Option Node)
    (fields : List FieldInit) (scope : ScopeId) (loc : ResultLoc) : LowerM InstId := do
  let typeInst ← parts.comptimeValue? typeExpr scope
  let target ← resultPtr loc scope node.location
  let values ← lowerFieldInits parts target scope [] fields
  emit (.structInit typeInst values target) scope node.location

/-- Where the value of an element goes: to its place in the storage, if there is storage. -/
def elementLoc (target : Option InstId) (index : Nat) (element : Node) (scope : ScopeId) :
    LowerM ResultLoc := do
  match target with
  | some ptr =>
    let index ← emitGen (.const (.int index)) scope element.location
    return .existing (← emitGen (.elemPtr ptr index) scope element.location)
  | none => return .none

/-- Lowers the elements of an array from the one at `index` on. -/
def lowerElements (parts : Parts) (target : Option InstId) (scope : ScopeId) (index : Nat) :
    List Node → LowerM (List InstId)
  | [] => return []
  | element :: rest => do
    let value ← parts.expr element scope (← elementLoc target index element scope)
    return value :: (← lowerElements parts target scope (index + 1) rest)

/-- Lowers an array initializer. -/
def lowerArrayInit (parts : Parts) (node : Node) (typeExpr : Option Node) (elements : List Node)
    (scope : ScopeId) (loc : ResultLoc) : LowerM InstId := do
  let typeInst ← parts.comptimeValue? typeExpr scope
  let target ← resultPtr loc scope node.location
  let values ← lowerElements parts target scope 0 elements
  emit (.arrayInit typeInst values target) scope node.location

end SourceIr.Lower
