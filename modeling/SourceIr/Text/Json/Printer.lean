import SourceIr.Text.Json
import SourceIr.Text.Decimal

/-!
# Printing JSON

Two layouts: `compact` without any white space, and `pretty` with one member or item a line and
two spaces per level, where empty arrays and objects stay on their line.  Strings keep every
character except quotation marks, backslashes and controls below the space.
-/

namespace SourceIr.Json

/-- Two lower-case hexadecimal digits. -/
def hexByte (n : Nat) : String :=
  String.ofList [Nat.digitChar (n / 16 % 16), Nat.digitChar (n % 16)]

/-- One character inside quotation marks. -/
def escapeChar (c : Char) : String :=
  match c with
  | '"' => "\\\""
  | '\\' => "\\\\"
  | '\n' => "\\n"
  | '\r' => "\\r"
  | '\t' => "\\t"
  | '\x08' => "\\b"
  | '\x0c' => "\\f"
  | c => if c.toNat < 0x20 then "\\u00" ++ hexByte c.toNat else c.toString

/-- A string literal. -/
def literal (text : String) : String :=
  "\"" ++ String.join (text.toList.map escapeChar) ++ "\""

/-- A float has up to four zeros behind the point, and a tie goes to the even digit. -/
def number : Decimal.Format := ⟨.toEven, 4⟩

mutual

/-- The text without white space. -/
def compact : Json → String
  | .null | .valueless => "null"
  | .bool b => if b then "true" else "false"
  | .int n => toString n
  | .float x => number.text x
  | .str s => literal s
  | .arr items => "[" ++ ",".intercalate (compactItems items) ++ "]"
  | .obj members => "\x7b" ++ ",".intercalate (compactMembers members) ++ "\x7d"

/-- The texts of the items of an array. -/
def compactItems : List Json → List String
  | [] => []
  | item :: rest => compact item :: compactItems rest

/-- The texts of the members of an object. -/
def compactMembers : List (String × Json) → List String
  | [] => []
  | (name, value) :: rest => (literal name ++ ":" ++ compact value) :: compactMembers rest

end

/-- Lines between two brackets, each behind `pad` and two spaces more. -/
def bracketed (pad opening closing : String) (lines : List String) : String :=
  if lines.isEmpty then opening ++ closing
  else opening ++ "\n" ++ ",\n".intercalate (lines.map (pad ++ "  " ++ ·)) ++ "\n" ++ pad ++ closing

mutual

/-- The text with one item a line, nested under the margin `pad`. -/
def prettyAt (pad : String) : Json → String
  | .arr items => bracketed pad "[" "]" (prettyItems (pad ++ "  ") items)
  | .obj members => bracketed pad "\x7b" "\x7d" (prettyMembers (pad ++ "  ") members)
  | other => compact other

/-- The texts of the items of an array under a margin. -/
def prettyItems (pad : String) : List Json → List String
  | [] => []
  | item :: rest => prettyAt pad item :: prettyItems pad rest

/-- The texts of the members of an object under a margin. -/
def prettyMembers (pad : String) : List (String × Json) → List String
  | [] => []
  | (name, value) :: rest =>
    (literal name ++ ": " ++ prettyAt pad value) :: prettyMembers pad rest

end

/-- The text with one member or item a line. -/
def pretty (value : Json) : String := prettyAt "" value

end SourceIr.Json
