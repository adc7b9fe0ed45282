import SourceIr.Text.Digit
import SourceIr.Word

/-!
# Primitive types

The types that need no declaration: a fixed list of names, and the integers of every width up to
65535 bits, written as `i` or `u` with the width as a decimal numeral without leading zeros.

* `isNumeral`, the form of a width;
* `readShort?`, the number that a text writes, if a short word holds it;
* `isPrimitiveType`, the names on the list and those of the integers.
-/

namespace SourceIr

/-- The primitive types with a name of their own. -/
def namedPrimitives : List String := [
  "i8", "u8", "i16", "u16", "i32", "u32", "i64", "u64", "i128", "u128",
  "isize", "usize", "c_int", "c_uint", "c_long", "c_ulong", "c_char",
  "f16", "f32", "f64", "f80", "f128",
  "bool", "void", "type", "anyerror", "noreturn", "anyopaque",
  "comptime_int", "comptime_float", "anyframe"]

/-- The greatest width of an integer type. -/
def maxWidth : Nat := 65535

/-- A number with one more digit behind it, `none` if the character is no digit or a short word
does not hold the number. -/
def pushDigit? (n : Nat) (c : Char) : Option Nat := do
  let d ← Text.digit? c
  if n * 10 + d < Word.shortSize then some (n * 10 + d) else none

/-- The short word that a text writes: digits, which a plus sign may precede. -/
def readShort? (text : List Char) : Option Nat :=
  let digits := if text.head? == some '+' then text.tail else text
  if digits.isEmpty then none else digits.foldlM pushDigit? 0

/-- Whether a text is made of digits, without a zero in front of others. -/
def isNumeral (text : List Char) : Bool :=
  !text.isEmpty && text.all Char.isDigit && !(1 < text.length && text.head? == some '0')

/-- Whether a text is the numeral of an integer width. -/
def isWidth (text : List Char) : Bool :=
  isNumeral text && (readShort? text).any (· ≤ maxWidth)

/-- Whether a name is that of a primitive type. -/
def isPrimitiveType (name : String) : Bool :=
  namedPrimitives.contains name ||
    match name.toList with
    | c :: digits => (c == 'i' || c == 'u') && isWidth digits
    | [] => false

end SourceIr
