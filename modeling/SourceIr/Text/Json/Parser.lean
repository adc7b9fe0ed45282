import SourceIr.Text.Digit
import SourceIr.Text.Json
import SourceIr.Word

/-!
# Reading JSON text

A text is one value with white space around it.  Numbers are read in two steps: a `Numeral` holds
the digits as they are written, and `Numeral.value` says what the literal denotes.

An integer literal in the range of 64-bit integers denotes that integer.  Any other literal
denotes a double: its leading digits, as far as they fit into 64 bits, are rounded to a double
and scaled by the power of ten that remains, in double arithmetic.
-/

namespace SourceIr.Json

/-- A number as it is written. -/
structure Numeral where
  negative : Bool
  whole : List Nat
  fraction : List Nat
  /-- Whether there is a point. -/
  pointed : Bool
  /-- The sign (`true` is minus) and the digits of the exponent, if there is one. -/
  exponent : Option (Bool × List Nat)

namespace Numeral

/-- Takes digits into a coefficient as long as it stays below `2^64`; the rest is returned. -/
def fill : Nat → List Nat → Nat × List Nat
  | n, [] => (n, [])
  | n, d :: rest => if n * 10 + d < Word.size then fill (n * 10 + d) rest else (n, d :: rest)

/-- `10^e` as a double. -/
def tenTo (e : Nat) : Float := Float.ofScientific 1 false e

/-- `x · 10^e` in double arithmetic; `none` when the result is infinite.  Beyond `10^-308` the
division is done in steps. -/
def scale : Nat → Float → Int → Option Float
  | 0, x, _ => some x
  | steps + 1, x, e =>
    if e.natAbs ≤ 308 then
      if 0 ≤ e then
        let y := x * tenTo e.toNat
        if y.isInf then none else some y
      else some (x / tenTo e.natAbs)
    else if x == 0 then some x
    else if 0 ≤ e then none
    else scale steps (x / tenTo 308) (e + 308)

/-- The greatest exponent that is taken at its value. -/
def exponentLimit : Nat := 0x7fffffff

/-- The magnitude of the literal as a double, `none` when it is out of range. -/
def magnitude (n : Numeral) : Option Float :=
  let (start, dropped) := fill 0 n.whole
  let (coefficient, unused) := fill start n.fraction
  let taken := n.fraction.length - unused.length
  let shift : Int := (dropped.length : Int) - taken
  let x := (UInt64.ofNat coefficient).toFloat
  match n.exponent with
  | none => scale 5 x shift
  | some (negative, digits) =>
    let e := Text.ofDigits 10 digits
    if exponentLimit < e then
      if coefficient = 0 || negative then some 0 else none
    else
      scale 5 x (if negative then shift - e else shift + e)

/-- What the literal denotes. -/
def value (n : Numeral) : Json :=
  let integer := Text.ofDigits 10 n.whole
  if !n.pointed && n.exponent.isNone && !n.negative && Word.isUnsigned integer then
    .int integer
  else if !n.pointed && n.exponent.isNone && n.negative && 0 < integer && integer ≤ Word.half then
    .int (-integer)
  else
    match n.magnitude with
    | some x => .float (if n.negative then -x else x)
    | none => .valueless

end Numeral

/-- The exponent at the start of a text, if there is one.  Fails on a mark without digits. -/
def exponent? : List Char → Option (Option (Bool × List Nat) × List Char)
  | c :: rest =>
    if c == 'e' || c == 'E' then
      let (negative, rest) :=
        match rest with
        | '-' :: after => (true, after)
        | '+' :: after => (false, after)
        | _ => (false, rest)
      match Text.digits rest with
      | ([], _) => none
      | (ds, after) => some (some (negative, ds), after)
    else some (none, c :: rest)
  | [] => some (none, [])

/-- The number at the start of a text. -/
def numeral? (text : List Char) : Option (Numeral × List Char) :=
  let (negative, text) :=
    match text with
    | '-' :: after => (true, after)
    | _ => (false, text)
  match Text.digits text with
  | ([], _) => none
  | (0 :: _ :: _, _) => none
  | (whole, '.' :: rest) =>
    match Text.digits rest with
    | ([], _) => none
    | (fraction, after) =>
      (exponent? after).map fun (e, after) => (⟨negative, whole, fraction, true, e⟩, after)
  | (whole, after) =>
    (exponent? after).map fun (e, after) => (⟨negative, whole, [], false, e⟩, after)

/-- The character that a backslash and this letter stand for. -/
def simpleEscape? : Char → Option Char
  | '"' => some '"'
  | '\\' => some '\\'
  | '/' => some '/'
  | 'b' => some '\x08'
  | 'f' => some '\x0c'
  | 'n' => some '\n'
  | 'r' => some '\r'
  | 't' => some '\t'
  | _ => none

/-- One unit of a string: a character, or the code of an escape with four hexadecimal digits. -/
inductive StringUnit where
  | char (c : Char)
  | code (n : Nat)

/-- The units of a string from after its opening quotation mark, and the text after the closing
one. -/
def stringUnits? : List Char → Option (List StringUnit × List Char)
  | [] => none
  | '"' :: rest => some ([], rest)
  | '\\' :: 'u' :: a :: b :: c :: d :: rest => do
    let n ← Text.hexCode? [a, b, c, d]
    let (units, after) ← stringUnits? rest
    return (.code n :: units, after)
  | '\\' :: e :: rest => do
    let c ← simpleEscape? e
    let (units, after) ← stringUnits? rest
    return (.char c :: units, after)
  | c :: rest => do
    if c.toNat < 0x20 || c == '\\' then none
    let (units, after) ← stringUnits? rest
    return (.char c :: units, after)

/-- Whether a code is the first half of a surrogate pair. -/
def isHigh (n : Nat) : Bool := 0xd800 ≤ n && n < 0xdc00

/-- Whether a code is the second half of a surrogate pair. -/
def isLow (n : Nat) : Bool := 0xdc00 ≤ n && n < 0xe000

/-- The characters of a string, `none` when a surrogate has no partner. -/
def unitChars? : List StringUnit → Option (List Char)
  | [] => some []
  | .char c :: rest => (unitChars? rest).map (c :: ·)
  | .code hi :: .code lo :: rest =>
    if isHigh hi then
      if isLow lo then
        (unitChars? rest).map (Char.ofNat (0x10000 + (hi - 0xd800) * 0x400 + (lo - 0xdc00)) :: ·)
      else none
    else if isLow hi then none
    else (unitChars? (.code lo :: rest)).map (Char.ofNat hi :: ·)
  | .code n :: rest =>
    if isHigh n || isLow n then none else (unitChars? rest).map (Char.ofNat n :: ·)

/-- The text of a string whose surrogates are all paired. -/
def unitsText? (units : List StringUnit) : Option String :=
  (unitChars? units).map String.ofList

/-- The text without its leading white space. -/
def skipBlank : List Char → List Char
  | [] => []
  | c :: rest =>
    if c == ' ' || c == '\n' || c == '\t' || c == '\r' then skipBlank rest else c :: rest

/-- An object, or a literal without a value when the name of a member is broken. -/
def ofMembers (members : List (Option String × Json)) : Json :=
  match members.mapM fun member => member.1.map (·, member.2) with
  | some members => .obj members
  | none => .valueless

mutual

/-- The value at the start of a text.  The fuel bounds the brackets and commas still ahead. -/
def value? : Nat → List Char → Option (Json × List Char)
  | 0, _ => none
  | fuel + 1, text =>
    match skipBlank text with
    | 'n' :: 'u' :: 'l' :: 'l' :: rest => some (.null, rest)
    | 't' :: 'r' :: 'u' :: 'e' :: rest => some (.bool true, rest)
    | 'f' :: 'a' :: 'l' :: 's' :: 'e' :: rest => some (.bool false, rest)
    | '"' :: rest => do
      let (units, rest) ← stringUnits? rest
      return ((unitsText? units).elim .valueless .str, rest)
    | '[' :: rest =>
      match skipBlank rest with
      | ']' :: after => some (.arr [], after)
      | _ => do
        let (items, rest) ← items? fuel rest
        return (.arr items, rest)
    | '{' :: rest =>
      match skipBlank rest with
      | '}' :: after => some (.obj [], after)
      | _ => do
        let (members, rest) ← members? fuel rest
        return (ofMembers members, rest)
    | other => (numeral? other).map fun (n, rest) => (n.value, rest)

/-- The items of an array from the first of them to after the closing bracket. -/
def items? : Nat → List Char → Option (List Json × List Char)
  | 0, _ => none
  | fuel + 1, text => do
    let (item, rest) ← value? fuel text
    match skipBlank rest with
    | ',' :: rest =>
      let (items, rest) ← items? fuel rest
      return (item :: items, rest)
    | ']' :: rest => return ([item], rest)
    | _ => none

/-- The members of an object from the first of them to after the closing brace. -/
def members? : Nat → List Char → Option (List (Option String × Json) × List Char)
  | 0, _ => none
  | fuel + 1, text =>
    match skipBlank text with
    | '"' :: rest => do
      let (units, rest) ← stringUnits? rest
      let name := unitsText? units
      match skipBlank rest with
      | ':' :: rest =>
        let (value, rest) ← value? fuel rest
        match skipBlank rest with
        | ',' :: rest =>
          let (members, rest) ← members? fuel rest
          return ((name, value) :: members, rest)
        | '}' :: rest => return ([(name, value)], rest)
        | _ => none
      | _ => none
    | _ => none

end

/-- The value that a text denotes, if it is one value and nothing else. -/
def parse? (text : String) : Option Json := do
  let chars := text.toList
  let (value, rest) ← value? (chars.length + 1) chars
  if (skipBlank rest).isEmpty then some value else none

end SourceIr.Json
