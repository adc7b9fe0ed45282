import SourceIr.Text.Printable

/-!
# Quoted text

The form in which string constants appear in instruction text: between double quotes, with a
backslash before a quote or a backslash, a letter for the common controls, and `\u{…}` with the
hexadecimal code point for every other character that cannot be shown.  A single quote stands
for itself.
-/

namespace SourceIr.Text

/-- The hexadecimal numeral of a code point in lower case, without leading zeros. -/
def hexNumeral (code : Nat) : String :=
  String.ofList (Nat.toDigits 16 code)

/-- One character as it is written between the quotes. -/
def quotedChar (c : Char) : String :=
  match c with
  | '\x00' => "\\0"
  | '\t' => "\\t"
  | '\n' => "\\n"
  | '\r' => "\\r"
  | '"' => "\\\""
  | '\\' => "\\\\"
  | c => if isPrintable c then c.toString else "\\u\x7b" ++ hexNumeral c.toNat ++ "\x7d"

/-- The text between double quotes. -/
def quoted (text : String) : String :=
  "\"" ++ String.join (text.toList.map quotedChar) ++ "\""

end SourceIr.Text
