import SourceIr.Cli.Files

/-!
# Patterns for paths

A pattern is matched name by name: `?` stands for any character, `*` for any row of characters,
and brackets for one character of a class, or for one outside it after `!`.  The name `**` stands
for any row of folders.

* `Glob.Pattern.read`, a pattern for a name, with `Glob.PatternFault`;
* `Glob.Pattern.fits`;
* `Glob.expand`, the paths that a pattern for paths stands for, in the order of the walk.
-/

namespace SourceIr.Cli.Glob

/-- What is wrong with a pattern. -/
inductive PatternFaultKind where
  | stars
  | partialRecursion
  | openClass
  deriving DecidableEq, Repr

/-- A fault of a pattern, with the number of characters before it. -/
structure PatternFault where
  position : Nat
  kind : PatternFaultKind
  deriving DecidableEq, Repr

namespace PatternFault

/-- What a fault consists in. -/
def reason : PatternFaultKind → String
  | .stars => "wildcards are either regular `*` or recursive `**`"
  | .partialRecursion => "recursive wildcards must form a single path component"
  | .openClass => "invalid range pattern"

/-- The message of a fault. -/
def message (f : PatternFault) : String :=
  s!"Pattern syntax error near position {f.position}: {reason f.kind}"

end PatternFault

/-- A part of a pattern. -/
inductive Token where
  | char (c : Char)
  | anyChar
  | anyRow
  | anyFolders
  /-- One character in one of these ranges, or in none of them. -/
  | oneOf (inside : Bool) (ranges : List (Char × Char))
  deriving DecidableEq, Repr

/-- The ranges of a class.  A hyphen between two characters makes a range of them. -/
def ranges : List Char → List (Char × Char)
  | a :: '-' :: b :: rest => (a, b) :: ranges rest
  | c :: rest => (c, c) :: ranges rest
  | [] => []

/-- The class from after its opening bracket, and the text after the closing one.  A bracket in
first place belongs to the class. -/
def classBody? : List Char → Option (List Char × List Char)
  | [] => none
  | first :: rest =>
    match rest.span (· ≠ ']') with
    | (inner, _ :: after) => some (first :: inner, after)
    | (_, []) => none

/-- The class from after its opening bracket, and the text after the closing one. -/
def class? : List Char → Option (Token × List Char)
  | '!' :: rest => (classBody? rest).map fun (body, after) => (.oneOf false (ranges body), after)
  | rest => (classBody? rest).map fun (body, after) => (.oneOf true (ranges body), after)

/-- The parts of a pattern whose text goes on at a position, after a character unless it is the
first.  The fuel bounds the length of the text. -/
def tokens : Nat → Nat → Option Char → List Char → Except PatternFault (List Token)
  | 0, _, _, _ => .ok []
  | _, _, _, [] => .ok []
  | fuel + 1, position, _, '?' :: rest =>
    (tokens fuel (position + 1) (some '?') rest).map (.anyChar :: ·)
  | fuel + 1, position, before, '*' :: rest =>
    let count := 1 + (rest.takeWhile (· = '*')).length
    let after := rest.dropWhile (· = '*')
    if 2 < count then .error ⟨position + 2, .stars⟩
    else if count = 1 then (tokens fuel (position + 1) (some '*') after).map (.anyRow :: ·)
    else if before.isSome && before ≠ some '/' then .error ⟨position - 1, .partialRecursion⟩
    else
      match after with
      | [] => .ok [.anyFolders]
      | c :: rest =>
        if c = '/' then (tokens fuel (position + 3) (some '/') rest).map (.anyFolders :: ·)
        else .error ⟨position + 2, .partialRecursion⟩
  | fuel + 1, position, _, '[' :: rest =>
    match class? rest with
    | none => .error ⟨position, .openClass⟩
    | some (token, after) =>
      (tokens fuel (position + 1 + (rest.length - after.length)) (some ']') after).map (token :: ·)
  | fuel + 1, position, _, c :: rest =>
    (tokens fuel (position + 1) (some c) rest).map (.char c :: ·)

/-- A pattern for a name. -/
abbrev Pattern := List Token

namespace Pattern

/-- The pattern that a text writes. -/
def read (text : String) : Except PatternFault Pattern :=
  let chars := text.toList
  tokens chars.length 0 none chars

/-- Whether a part that stands for one character stands for this one. -/
def accepts (c : Char) : Token → Bool
  | .char d => c = d
  | .anyChar => true
  | .oneOf inside ranges => ranges.any (fun r => r.1 ≤ c && c ≤ r.2) == inside
  | .anyRow | .anyFolders => false

/-- Whether a pattern stands for a name. -/
def fits : Pattern → List Char → Bool
  | [], name => name.isEmpty
  | .anyRow :: rest, [] => fits rest []
  | .anyRow :: rest, c :: name =>
    fits rest (c :: name) || fits (.anyRow :: rest) name
  | token :: rest, c :: name => accepts c token && fits rest name
  | _ :: _, [] => false
termination_by p name => (p.length, name.length)

/-- The character that a part stands for, if it is the only one. -/
def char? : Token → Option Char
  | .char c => some c
  | _ => none

/-- The name that a pattern without wildcards stands for. -/
def name? (p : Pattern) : Option String :=
  (List.mapM char? p).map String.ofList

/-- Whether a pattern stands for folders at any depth. -/
def isRecursive (p : Pattern) : Bool := p = [.anyFolders]

/-- The names of the folder itself and of the one around it, as far as a pattern with a leading
dot stands for them. -/
def dotNames (p : Pattern) : List String :=
  if p.head? = some (.char '.') then ["..", "."].filter fun name => p.fits name.toList else []

end Pattern

/-- The path of a name in a folder. -/
def join (folder name : String) : String :=
  if folder.endsWith "/" || folder.isEmpty then folder ++ name else s!"{folder}/{name}"

/-- Whether a path is the working directory, which is left out in front of a name. -/
def isHere (path : String) : Bool :=
  path.startsWith "." && (path.splitOn "/").all fun step => step = "." || step = ""

/-- The path of a name found in a folder. -/
def childPath (folder name : String) : String := if isHere folder then name else join folder name

section Walk

variable (files : Files) (foldersOnly : Bool)

/-- A path as a result, unless a folder is wanted and it is none. -/
def accepted (path : String) : List String :=
  if foldersOnly && !files.leadsToFolder path then [] else [path]

/-- The paths below a folder that a row of patterns stands for.  The fuel bounds the steps of the
walk: each goes one pattern on, or one folder down. -/
def below : Nat → List Pattern → String → List String
  | _, [], path => accepted files foldersOnly path
  | 0, _ :: _, _ => []
  | fuel + 1, pattern :: rest, path =>
    match Pattern.name? pattern with
    | some name =>
      let next := childPath path name
      let found :=
        if name = "." || name = ".." then files.leadsToFolder path
        else files.leadsToSomething next
      if found then below fuel rest next else []
    | none =>
      if !files.leadsToFolder path then []
      else
        (Pattern.dotNames pattern).flatMap (fun name => below fuel rest (join path name)) ++
          (files.childrenAt path).flatMap fun name =>
            let child := childPath path name
            let onward (pattern : Pattern) (rest : List Pattern) : List String :=
              if pattern.fits name.toList then below fuel rest child else []
            if Pattern.isRecursive pattern then
              let deeper :=
                if files.leadsToFolder child then below fuel (pattern :: rest) child else []
              match rest.dropWhile Pattern.isRecursive with
              | [] => if files.leadsToFolder child then child :: deeper else []
              | next :: more => onward next more ++ deeper
            else onward pattern rest

end Walk

/-- The patterns for the names on a path.  A separator at the end starts no name. -/
def components (text : String) : List String :=
  match (text.splitOn "/").reverse with
  | "" :: names => names.reverse
  | names => names.reverse

/-- The separators at the start of a pattern. -/
def root (text : String) : String := String.ofList (text.toList.takeWhile (· = '/'))

/-- The greatest number of names on the way to a file. -/
def depth (files : Files) : Nat := (files.places.map List.length).foldl max 0

/-- The paths that a pattern for paths stands for. -/
def expand (files : Files) (text : String) : Except PatternFault (List String) := do
  let _ ← Pattern.read text
  let root := root text
  let patterns ← (components (String.ofList (text.toList.drop root.length))).mapM Pattern.read
  let start := if root.isEmpty then "." else root
  let fuel := (patterns.length + 1) * (depth files + 2)
  return below files (text.endsWith "/") fuel patterns start

/-- The folder in which the walk for a pattern starts to look at names. -/
def base (text : String) : String :=
  let isPlain (name : String) : Bool := !name.toList.any fun c => c = '*' || c = '?' || c = '['
  let names := (components text).takeWhile isPlain
  if names.isEmpty then "." else "/".intercalate names ++ "/"

end SourceIr.Cli.Glob
