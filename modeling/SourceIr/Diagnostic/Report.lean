import SourceIr.Diagnostic.Message

/-!
# Reports

What everything that can be reported has in common, and the three forms in which it is shown: a
line for a log, a line for the user of a program, and a diagnostic with its level in front.

* `Issue`: level, text, issuer and place, of a diagnostic or of another failure;
* `Issue.summary` and `Issue.details`, the two lines;
* `Message.labelled`, the diagnostic as a program prints it.
-/

namespace SourceIr

/-- Something that can be reported. -/
structure Issue where
  level : Level
  message : String
  issuer : String
  span : Option Span
  location : Option Location
  deriving DecidableEq, Repr

namespace Issue

/-- The line for the user of a program. -/
def summary (i : Issue) : String :=
  let place := (i.location.map Location.text).getD "unknown location"
  s!"ASTGEN | {i.level.text} | {place} | {i.message}"

/-- The line for a log, with issuer and span. -/
def details (i : Issue) : String :=
  let place := (i.location.map Location.text).getD "unknown"
  let span := (i.span.map Span.text).getD "span:none"
  s!"ASTGEN | {i.level.text} | {place} | {i.issuer} | {span} | {i.message}"

end Issue

namespace Message

/-- The diagnostic as something that can be reported. -/
def issue (m : Message) : Issue := ⟨m.level, m.message, m.issuer, m.span, m.location⟩

/-- Whether a line ends in a carriage return, which is then no part of it. -/
def dropReturn (line : List Char) : List Char :=
  match line.reverse with
  | '\r' :: rest => rest.reverse
  | _ => line

/-- The lines of a text: each ends at a line feed, with or without a carriage return before it,
or at the end of the text, which starts no empty line of its own. -/
def lines (text : List Char) : List (List Char) :=
  go text []
where
  /-- Collects the line that has been started. -/
  go : List Char → List Char → List (List Char)
    | [], [] => []
    | [], started => [started.reverse]
    | '\n' :: rest, started => dropReturn started.reverse :: go rest []
    | c :: rest, started => go rest (c :: started)

/-- The diagnostic as a program prints it: the level, then the lines of the rendering. -/
def labelled (m : Message) : String :=
  match (lines m.rendered.toList).map String.ofList with
  | [] => ""
  | first :: rest => "\n".intercalate (s!"{m.level.label}: {first}" :: rest)

end Message

end SourceIr
