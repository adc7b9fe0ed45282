import SourceIr.Text.Json.Record

/-!
# Places in a source file

A location is a file with a line and a column, both counted from one.  What the language
provides by itself is located in the pseudo-file `<builtin>`, which is shown without numbers.
-/

namespace SourceIr

/-- A place in a file. -/
structure Location where
  file : String
  line : Nat
  column : Nat
  deriving DecidableEq, Repr, Inhabited

namespace Location

/-- The place of what needs no declaration, such as a primitive type. -/
def builtin : Location := ⟨"<builtin>", 0, 0⟩

/-- Whether the place is the pseudo-file. -/
def isBuiltin (l : Location) : Bool := l.file == builtin.file

/-- The place as it is shown to a user. -/
def text (l : Location) : String :=
  if l.isBuiltin then l.file else s!"{l.file}:{l.line}:{l.column}"

/-- Line and column alone. -/
def position (l : Location) : String := s!"{l.line}:{l.column}"

instance : Encode Location := ⟨fun l =>
  .obj [("file", encode l.file), ("line", encode l.line), ("column", encode l.column)]⟩

instance : Decode Location := ⟨fun value => do
  let r ← value.record? ["file", "line", "column"]
  return { file := ← r.required "file", line := ← r.required "line",
           column := ← r.required "column" }⟩

end Location

/-- What lies between two places. -/
structure Span where
  start : Location
  stop : Location
  deriving DecidableEq, Repr, Inhabited

namespace Span

/-- Both ends as they are shown to a user. -/
def text (s : Span) : String := s!"{s.start.text} - {s.stop.text}"

instance : Encode Span := ⟨fun s => .obj [("start", encode s.start), ("end", encode s.stop)]⟩

instance : Decode Span := ⟨fun value => do
  let r ← value.record? ["start", "end"]
  return { start := ← r.required "start", stop := ← r.required "end" }⟩

end Span

end SourceIr
