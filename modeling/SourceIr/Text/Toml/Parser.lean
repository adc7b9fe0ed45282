import SourceIr.Text.Toml
import SourceIr.Word

/-!
# Reading TOML text

A text is read line by line.  A line is blank, a header, or an entry; a value in brackets and a
string in three quotation marks may go on over several lines.

* `Toml.string?`, `Toml.number?`, `Toml.value?`, each from the start of a text;
* `Toml.lines?`, and `Toml.Document.ofLines`, which puts the entries below their headers;
* `Toml.parse?`.
-/

namespace SourceIr.Toml

open Text

/-! ### Space, line ends and comments -/

/-- Whether a character may stand in a string and in a comment. -/
def isTextChar (c : Char) : Bool := c = '\t' || (' ' ≤ c && c ≠ '\x7f')

/-- Whether a character is space within a line. -/
def isSpace (c : Char) : Bool := c = ' ' || c = '\t'

/-- The text after its leading space. -/
def skipSpace (text : List Char) : List Char := text.dropWhile isSpace

/-- The text after the line end at its start. -/
def newline? : List Char → Option (List Char)
  | '\n' :: rest => some rest
  | '\r' :: '\n' :: rest => some rest
  | _ => none

/-- The text after the comment at its start, if there is one. -/
def skipComment : List Char → List Char
  | '#' :: rest => rest.dropWhile isTextChar
  | text => text

/-- The text after the end of a line on which only space and a comment are left. -/
def lineEnd? (text : List Char) : Option (List Char) :=
  match skipComment (skipSpace text) with
  | [] => some []
  | rest => newline? rest

/-- The text after space, line ends and comments.  The flag says whether a comment has begun. -/
def skipLines : Bool → List Char → List Char
  | _, [] => []
  | inComment, c :: rest =>
    if c = '\n' || (c = '\r' && rest.head? = some '\n') then skipLines false rest
    else if inComment then (if isTextChar c then skipLines true rest else c :: rest)
    else if isSpace c then skipLines false rest
    else if c = '#' then skipLines true rest
    else c :: rest

/-! ### Strings and keys -/

/-- What ends a string: a quotation mark, or three of them when the string may have several lines.
In front of those three there may be one or two more, which belong to the string. -/
def closing? (mark : Char) (multi : Bool) (text : List Char) : Option (List Char × List Char) :=
  let count := (text.takeWhile (· = mark)).length
  if multi then
    if count < 3 then none
    else
      let kept := min (count - 3) 2
      some (List.replicate kept mark, text.drop (kept + 3))
  else if count = 0 then none
  else some ([], text.drop 1)

/-- The character that a backslash and this letter stand for. -/
def escaped? : Char → Option Char
  | 'b' => some '\x08'
  | 'f' => some '\x0c'
  | 'n' => some '\n'
  | 'r' => some '\r'
  | 't' => some '\t'
  | '"' => some '"'
  | '\\' => some '\\'
  | _ => none

/-- The character whose code these hexadecimal digits write. -/
def scalar? (digits : List Char) : Option Char := do
  let code ← hexCode? digits
  if code.isValidChar then some (Char.ofNat code) else none

/-- A string in quotation marks from after its opening, and the text after it.  The flag
`skipping` says that a backslash has ended a line, so that space and line ends are left out. -/
def basic? (multi : Bool) (skipping : Bool) (text : List Char) :
    Option (List Char × List Char) :=
  match closing? '"' multi text with
  | some closed => some closed
  | none =>
    match text with
    | [] => none
    | '\r' :: '\n' :: rest =>
      if !multi then none
      else if skipping then basic? multi true rest
      else do
        let (chars, after) ← basic? multi false rest
        return ('\n' :: chars, after)
    | '\\' :: 'u' :: a :: b :: c :: d :: rest => do
      let char ← scalar? [a, b, c, d]
      let (chars, after) ← basic? multi false rest
      return (char :: chars, after)
    | '\\' :: 'U' :: a :: b :: c :: d :: e :: f :: g :: h :: rest => do
      let char ← scalar? [a, b, c, d, e, f, g, h]
      let (chars, after) ← basic? multi false rest
      return (char :: chars, after)
    | '\\' :: e :: rest =>
      if multi && (newline? (skipSpace (e :: rest))).isSome then basic? multi true (e :: rest)
      else do
        let char ← escaped? e
        let (chars, after) ← basic? multi false rest
        return (char :: chars, after)
    | c :: rest =>
      if skipping && (isSpace c || c = '\n') then basic? multi true rest
      else if (isTextChar c && c ≠ '\\') || (multi && c = '\n') then do
        let (chars, after) ← basic? multi false rest
        return (c :: chars, after)
      else none

/-- A string in apostrophes from after its opening, and the text after it. -/
def literal? (multi : Bool) (text : List Char) : Option (List Char × List Char) :=
  match closing? '\'' multi text with
  | some closed => some closed
  | none =>
    match text with
    | [] => none
    | '\r' :: '\n' :: rest =>
      if multi then do
        let (chars, after) ← literal? multi rest
        return ('\n' :: chars, after)
      else none
    | c :: rest =>
      if isTextChar c || (multi && c = '\n') then do
        let (chars, after) ← literal? multi rest
        return (c :: chars, after)
      else none

/-- The text without a line end at its start. -/
def dropNewline (text : List Char) : List Char := (newline? text).getD text

/-- The string at the start of a text. -/
def string? (text : List Char) : Option (String × List Char) :=
  let found :=
    match text with
    | '"' :: '"' :: '"' :: rest => basic? true false (dropNewline rest)
    | '"' :: rest => basic? false false rest
    | '\'' :: '\'' :: '\'' :: rest => literal? true (dropNewline rest)
    | '\'' :: rest => literal? false rest
    | _ => none
  found.map fun (chars, rest) => (String.ofList chars, rest)

/-- Whether a character may stand in a key without quotation marks. -/
def isBare (c : Char) : Bool := c.isAlphanum || c = '_' || c = '-'

/-- The simple key at the start of a text. -/
def simpleKey? (text : List Char) : Option (String × List Char) :=
  let found :=
    match text with
    | '"' :: rest => basic? false false rest
    | '\'' :: rest => literal? false rest
    | _ =>
      let (bare, rest) := text.span isBare
      if bare.isEmpty then none else some (bare, rest)
  found.map fun (chars, rest) => (String.ofList chars, rest)

/-- The greatest number of brackets around a value, and of tables that a key passes through. -/
def depthLimit : Nat := 79

/-- The dotted key at the start of a text, with the space around it.  The fuel bounds its
length. -/
def key? : Nat → List Char → Option (Key × List Char)
  | 0, _ => none
  | fuel + 1, text => do
    let (name, rest) ← simpleKey? (skipSpace text)
    match skipSpace rest with
    | '.' :: rest =>
      let (key, rest) ← key? fuel rest
      return (⟨name :: key.path, key.name⟩, rest)
    | rest => return (⟨[], name⟩, rest)

/-! ### Numbers -/

/-- The digits of a row in which single underscores may stand between digits. -/
def ungrouped? (digit? : Char → Option Nat) : List Char → Option (List Nat)
  | [] => none
  | [c] => (digit? c).map ([·])
  | c :: '_' :: rest => do return (← digit? c) :: (← ungrouped? digit? rest)
  | c :: rest => do return (← digit? c) :: (← ungrouped? digit? rest)

/-- The row of digits at the start of a text. -/
def figures? (digit? : Char → Option Nat) (text : List Char) : Option (List Nat × List Char) :=
  let (row, rest) := text.span fun c => c = '_' || (digit? c).isSome
  (ungrouped? digit? row).map (·, rest)

/-- The integer, if it has 64 bits. -/
def integer? (n : Int) : Option Toml :=
  if Word.isSigned n then some (.int n) else none

/-- The base that a letter after a zero stands for. -/
def base? : Char → Option Nat
  | 'x' => some 16
  | 'o' => some 8
  | 'b' => some 2
  | _ => none

/-- The sign at the start of a text, and whether it is a minus. -/
def sign : List Char → Bool × List Char
  | '-' :: rest => (true, rest)
  | '+' :: rest => (false, rest)
  | text => (false, text)

/-- The exponent at the start of a text, if there is one. -/
def exponent? : List Char → Option (Option Int × List Char)
  | c :: rest =>
    if c = 'e' || c = 'E' then do
      let (negative, rest) := sign rest
      let (ds, rest) ← figures? digit? rest
      let e : Int := ofDigits 10 ds
      return (some (if negative then -e else e), rest)
    else some (none, c :: rest)
  | [] => some (none, [])

/-- The fraction at the start of a text, if there is one. -/
def fraction? : List Char → Option (Option (List Nat) × List Char)
  | '.' :: rest => (figures? digit? rest).map fun (ds, rest) => (some ds, rest)
  | text => some (none, text)

/-- The double nearest to `n · 10^e`. -/
def double (n : Nat) (e : Int) : Float :=
  let size : Int := e + (Nat.toDigits 10 n).length
  if n = 0 || size < -400 then 0
  else if 400 < size then 1.0 / 0.0
  else if 0 ≤ e then Float.ofScientific n false e.toNat
  else Float.ofScientific n true e.natAbs

/-- The float of a sign, the digits before and after the point and an exponent.  Above the range
of doubles there is none; below it there is minus infinity. -/
def float? (negative : Bool) (whole fraction : List Nat) (e : Int) : Option Toml :=
  let x := double (ofDigits 10 (whole ++ fraction)) (e - fraction.length)
  if negative then some (.float (-x)) else if x.isInf then none else some (.float x)

/-- The number in base ten at the start of a text. -/
def decimal? (text : List Char) : Option (Toml × List Char) :=
  let (negative, rest) := sign text
  match rest with
  | 'i' :: 'n' :: 'f' :: rest => some (.float ((if negative then -1.0 else 1.0) / 0.0), rest)
  | 'n' :: 'a' :: 'n' :: rest => some (.float (0.0 / 0.0), rest)
  | _ => do
    let (whole, rest) ← figures? digit? rest
    if whole.head? = some 0 && 1 < whole.length then none
    let (fraction, rest) ← fraction? rest
    let (exponent, rest) ← exponent? rest
    if fraction.isNone && exponent.isNone then
      let n : Int := ofDigits 10 whole
      return (← integer? (if negative then -n else n), rest)
    return (← float? negative whole (fraction.getD []) (exponent.getD 0), rest)

/-- The number at the start of a text. -/
def number? (text : List Char) : Option (Toml × List Char) :=
  match text with
  | '0' :: letter :: rest =>
    match base? letter with
    | some base => do
      let (ds, rest) ← figures? (digitIn? base) rest
      return (← integer? (ofDigits base ds), rest)
    | none => decimal? text
  | _ => decimal? text

/-! ### Values -/

/-- The value without brackets at the start of a text. -/
def scalarValue? (text : List Char) : Option (Toml × List Char) :=
  match text with
  | '"' :: _ | '\'' :: _ => (string? text).map fun (s, rest) => (.str s, rest)
  | 't' :: 'r' :: 'u' :: 'e' :: rest => some (.bool true, rest)
  | 'f' :: 'a' :: 'l' :: 's' :: 'e' :: rest => some (.bool false, rest)
  | _ =>
    match Moment.read? text with
    | some (m, rest) => some (.moment m, rest)
    | none => number? text

mutual

/-- The value at the start of a text, with at most this many brackets around one another.  The
fuel bounds the brackets and commas still ahead. -/
def value? : Nat → Nat → List Char → Option (Toml × List Char)
  | fuel + 1, depth + 1, '[' :: rest =>
    match skipLines false rest with
    | ']' :: after => some (.arr [], after)
    | _ => (items? fuel depth rest).map fun (items, rest) => (.arr items, rest)
  | fuel + 1, depth + 1, '{' :: rest =>
    match skipSpace rest with
    | '}' :: after => some (.table .inline [], after)
    | _ => do
      let (pairs, rest) ← pairs? fuel depth rest
      return (.table .inline (← addAll? pairs []), rest)
  | _, _, text => scalarValue? text

/-- The items of an array from the first of them to after the closing bracket. -/
def items? : Nat → Nat → List Char → Option (List Toml × List Char)
  | 0, _, _ => none
  | fuel + 1, depth, text => do
    let (item, rest) ← value? fuel depth (skipLines false text)
    match skipLines false rest with
    | ']' :: rest => return ([item], rest)
    | ',' :: rest =>
      match skipLines false rest with
      | ']' :: rest => return ([item], rest)
      | _ =>
        let (items, rest) ← items? fuel depth rest
        return (item :: items, rest)
    | _ => none

/-- The entries of a table in braces from the first of them to after the closing brace. -/
def pairs? : Nat → Nat → List Char → Option (List (Key × Toml) × List Char)
  | 0, _, _ => none
  | fuel + 1, depth, text => do
    let (key, rest) ← key? depthLimit text
    match rest with
    | '=' :: rest =>
      let (value, rest) ← value? fuel depth (skipSpace rest)
      match skipSpace rest with
      | '}' :: rest => return ([(key, value)], rest)
      | ',' :: rest =>
        let (pairs, rest) ← pairs? fuel depth rest
        return ((key, value) :: pairs, rest)
      | _ => none
    | _ => none

end

/-! ### Lines -/

/-- A line that says something. -/
inductive Line where
  | entry (key : Key) (value : Toml)
  | header (isItem : Bool) (key : Key)

/-- The header at the start of a text. -/
def header? : List Char → Option (Line × List Char)
  | '[' :: '[' :: rest => do
    let (key, rest) ← key? depthLimit rest
    match rest with
    | ']' :: ']' :: rest => some (.header true key, rest)
    | _ => none
  | '[' :: rest => do
    let (key, rest) ← key? depthLimit rest
    match rest with
    | ']' :: rest => some (.header false key, rest)
    | _ => none
  | _ => none

/-- The entry at the start of a text. -/
def entry? (text : List Char) : Option (Line × List Char) := do
  let (key, rest) ← key? depthLimit text
  match rest with
  | '=' :: rest =>
    let (value, rest) ← value? (rest.length + 1) depthLimit (skipSpace rest)
    return (.entry key value, rest)
  | _ => none

/-- The lines of a text that say something.  The fuel bounds the number of lines. -/
def lines? : Nat → List Char → Option (List Line)
  | 0, _ => none
  | fuel + 1, text =>
    match skipSpace text with
    | [] => some []
    | start =>
      match lineEnd? start with
      | some rest => lines? fuel rest
      | none => do
        let (line, rest) ← if start.head? = some '[' then header? start else entry? start
        return line :: (← lines? fuel (← lineEnd? rest))

/-- The document of some lines: each entry belongs to the header before it. -/
def Document.ofLines : List Line → Document
  | [] => ⟨[], []⟩
  | .entry key value :: rest =>
    let d := ofLines rest
    { d with leading := (key, value) :: d.leading }
  | .header isItem key :: rest =>
    let d := ofLines rest
    ⟨[], ⟨isItem, key, d.leading⟩ :: d.sections⟩

/-- The text without a byte order mark at its start. -/
def dropMark : List Char → List Char
  | '\ufeff' :: rest => rest
  | text => text

/-- The table that a text writes. -/
def parse? (text : String) : Option Entries := do
  let chars := dropMark text.toList
  (Document.ofLines (← lines? (chars.length + 1) chars)).entries?

end SourceIr.Toml
