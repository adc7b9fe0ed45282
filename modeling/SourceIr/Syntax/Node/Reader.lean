import SourceIr.Syntax.Node.Shape
import SourceIr.Text.Json.Parser

/-!
# Reading a syntax tree

A tree is read from JSON.  A node that is given as an object is numbered when its text ends, so
that it comes after everything below it; a node that is given as an array of its fields is
numbered when its text begins.  The reader counts on from the number it is given.
-/

namespace SourceIr

/-- A reader that numbers the nodes it makes. -/
abbrev Numbering := StateT Nat Option

namespace Node

/-- The number for the next node. -/
def nextId : Numbering Nat := getModify (· + 1)

/-- A node of this number and kind with the place that its record gives. -/
def ofRecord? (value : Json) (id : Nat) (kind : Kind) : Option Node := do
  let r ← value.record? ["kind", "location", "span"]
  return { id, kind, location := ← r.optionalOr "location", span := ← r.optionalOr "span" }

/-- A field initializer whose record gives the name. -/
def finishInit (value : Json) (node : Node) : Numbering FieldInit := do
  let r ← value.record? ["name", "value"]
  return { name := ← r.required "name", value := node }

/-- The node among the shapes of values. -/
def ofValue? : FieldValue → Option Node
  | .node node => some node
  | _ => none

/-- The field initializer among the shapes of values. -/
def initOfValue? : FieldValue → Option FieldInit
  | .init init => some init
  | _ => none

mutual

/-- A value of a known shape.  `null` is a value of every shape and is refused later where the
field is required. -/
def readValue (shape : Shape) : Json → Numbering FieldValue
  | .null => return .null
  | .arr items =>
    match shape with
    | .node => do
      let id ← nextId
      let kind ← readFirst items
      return .node (← ofRecord? (.arr items) id kind)
    | .init => do
      let node ← readSecond items
      return .init (← finishInit (.arr items) node)
    | .nodes => return .nodes (← readNodes items)
    | .inits => return .inits (← readInits items)
    | _ => failure
  | .obj members =>
    match shape with
    | .node => do
      let kind ← kindAmong members
      let id ← nextId
      return .node (← ofRecord? (.obj members) id kind)
    | .init => do
      let node ← valueAmong members
      return .init (← finishInit (.obj members) node)
    | shape => shape.scalar? (.obj members)
  | value => shape.scalar? value

/-- The nodes of a list. -/
def readNodes : List Json → Numbering (List Node)
  | [] => return []
  | item :: rest => do
    let node ← ofValue? (← readValue .node item)
    return node :: (← readNodes rest)

/-- The field initializers of a list. -/
def readInits : List Json → Numbering (List FieldInit)
  | [] => return []
  | item :: rest => do
    let init ← initOfValue? (← readValue .init item)
    return init :: (← readInits rest)

/-- The construct at the head of a node that is given as an array. -/
def readFirst : List Json → Numbering Kind
  | [] => failure
  | item :: _ => readKind item

/-- The node that follows the name in a field initializer that is given as an array. -/
def readSecond : List Json → Numbering Node
  | [_, item] => do ofValue? (← readValue .node item)
  | _ => failure

/-- The construct of a node among the members of its object. -/
def kindAmong : List (String × Json) → Numbering Kind
  | [] => failure
  | (name, value) :: rest => if name == "kind" then readKind value else kindAmong rest

/-- The node of a field initializer among the members of its object. -/
def valueAmong : List (String × Json) → Numbering Node
  | [] => failure
  | (name, value) :: rest => do
    if name == "value" then ofValue? (← readValue .node value) else valueAmong rest

/-- A construct: its name, or an object with the name and the fields. -/
def readKind : Json → Numbering Kind
  | .str name => Kind.ofName? name
  | .obj [(name, .null)] => Kind.ofName? name
  | .obj [(name, .obj members)] => do
    let shapes ← Kind.shapes? name
    let _ ← (Json.obj members).record? (shapes.map (·.1))
    Kind.ofFields? name ⟨← readMembers shapes members, false⟩
  | .obj [(name, .arr items)] => do
    let shapes ← Kind.shapes? name
    let _ ← (Json.arr items).record? (shapes.map (·.1))
    Kind.ofFields? name ⟨← readItems shapes items, true⟩
  | _ => failure

/-- The fields that are given by name, in the order of the text. -/
def readMembers (shapes : List (String × Shape)) :
    List (String × Json) → Numbering (List (String × FieldValue))
  | [] => return []
  | (name, value) :: rest => do
    match shapes.lookup name with
    | some shape =>
      let field ← readValue shape value
      return (name, field) :: (← readMembers shapes rest)
    | none => readMembers shapes rest

/-- The fields that are given by position. -/
def readItems : List (String × Shape) → List Json → Numbering (List (String × FieldValue))
  | (name, shape) :: shapes, item :: rest => do
    let field ← readValue shape item
    return (name, field) :: (← readItems shapes rest)
  | _, _ => return []

end

/-- The node that a value gives. -/
def read (value : Json) : Numbering Node := do
  ofValue? (← readValue .node value)

/-- The tree that a text gives, with its nodes numbered from `start` on, and the number for the
next node. -/
def ofText? (text : String) (start : Nat) : Option (Node × Nat) := do
  (read (← Json.parse? text)).run start

end Node

end SourceIr
