import SourceIr.Location
import SourceIr.Diagnostic.Level

/-!
# Diagnostics

A diagnostic has a text, the name of the routine that issues it and the place it speaks of.  It
may carry notes, which are diagnostics themselves, and frames: the compile-time evaluations that
were open when it was issued, the most recent one first.

* `Frame` and `Message`;
* `Message.text`, the first line; `Message.rendered`, with notes and frames;
* reading and writing as JSON.
-/

namespace SourceIr

/-- A compile-time evaluation that encloses the one at hand. -/
structure Frame where
  location : Option Location
  description : String
  deriving DecidableEq, Repr, Inhabited

/-- A text with the place it speaks of in front, if it has one. -/
def placed (location : Option Location) (text : String) : String :=
  match location with
  | some l => s!"{l.text}: {text}"
  | none => text

namespace Frame

/-- The frame as it is shown to a user. -/
def text (f : Frame) : String := placed f.location f.description

instance : Encode Frame := ⟨fun f =>
  .obj [("location", encode f.location), ("description", encode f.description)]⟩

instance : Decode Frame := ⟨fun value => do
  let r ← value.record? ["location", "description"]
  return { location := ← r.optional "location", description := ← r.required "description" }⟩

end Frame

/-- A diagnostic. -/
structure Message where
  kind : DiagnosticKind
  level : Level
  message : String
  issuer : String
  location : Option Location
  span : Option Span
  notes : List Message
  callStack : List Frame

namespace Message

/-- A diagnostic of the level of its kind, without notes and frames. -/
def ofKind (kind : DiagnosticKind) (message issuer : String)
    (location : Option Location) (span : Option Span) : Message :=
  { kind, level := kind.level, message, issuer, location, span, notes := [], callStack := [] }

/-- A note. -/
def ofNote (message : String) (location : Option Location) : Message :=
  ofKind .note message "note" location none

instance : Inhabited Message := ⟨ofNote "" none⟩

/-- The diagnostic with one more note. -/
def withNote (m : Message) (note : Message) : Message :=
  { m with notes := m.notes ++ [note] }

/-- Whether the diagnostic spoils its unit. -/
def isFatal (m : Message) : Bool := m.level.isFatal

/-- The first line: the text behind its place. -/
def text (m : Message) : String := placed m.location m.message

/-- The text, then the notes and the frames, each on a line of its own. -/
def rendered (m : Message) : String :=
  m.text ++ String.join (m.notes.map fun note => "\n  note: " ++ note.text) ++
    String.join (m.callStack.map fun frame => "\n  " ++ frame.text)

mutual

/-- The diagnostic as data, all fields in their declared order. -/
def toJson : Message → Json
  | ⟨kind, level, message, issuer, location, span, notes, callStack⟩ =>
    .obj [("kind", encode kind), ("level", encode level), ("message", encode message),
      ("issuer", encode issuer), ("location", encode location), ("span", encode span),
      ("notes", .arr (listToJson notes)), ("call_stack", encode callStack)]

/-- The diagnostics of a list as data. -/
def listToJson : List Message → List Json
  | [] => []
  | m :: rest => m.toJson :: listToJson rest

end

instance : Encode Message := ⟨toJson⟩

/-- A diagnostic from its record, with the notes that were read from it. -/
def ofRecord? (value : Json) (notes : List Message) : Option Message := do
  let r ← value.record?
    ["kind", "level", "message", "issuer", "location", "span", "notes", "call_stack"]
  return {
    kind := ← r.required "kind"
    level := ← r.required "level"
    message := ← r.required "message"
    issuer := ← r.required "issuer"
    location := ← r.optional "location"
    span := ← r.optional "span"
    notes
    callStack := ← r.defaulted "call_stack" [] }

mutual

/-- The diagnostic that a value gives. -/
def ofJson? : Json → Option Message
  | .obj members => do ofRecord? (.obj members) (← notesAmong? members)
  | .arr items => do ofRecord? (.arr items) (← notesAt? 6 items)
  | _ => none

/-- The notes among the members of an object, none if they are left out. -/
def notesAmong? : List (String × Json) → Option (List Message)
  | [] => some []
  | (name, value) :: rest => if name == "notes" then ofArray? value else notesAmong? rest

/-- The notes at a position of an array, none if it ends before. -/
def notesAt? : Nat → List Json → Option (List Message)
  | _, [] => some []
  | 0, value :: _ => ofArray? value
  | n + 1, _ :: rest => notesAt? n rest

/-- The diagnostics of an array. -/
def ofArray? : Json → Option (List Message)
  | .arr items => ofItems? items
  | _ => none

/-- The diagnostics of a list. -/
def ofItems? : List Json → Option (List Message)
  | [] => some []
  | item :: rest => do return (← ofJson? item) :: (← ofItems? rest)

end

instance : Decode Message := ⟨ofJson?⟩

end Message

end SourceIr
