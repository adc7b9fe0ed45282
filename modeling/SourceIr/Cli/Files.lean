/-!
# Files

The files that a command can see.  A place is the list of names on the way to it from the working
directory; it starts with `..` if it is outside, and with `/` if it is counted from the root.

* `Files`, with `Files.isFile`, `Files.isFolder` and `Files.children`;
* `Files.walk`, the place that a path leads to;
* `Files.read` and `Files.write`, which fail with a `PathFault`.
-/

namespace SourceIr.Cli

/-- Why a file cannot be read or written. -/
inductive PathFault where
  | missing
  | notFolder
  | isFolder
  deriving DecidableEq, Repr

/-- The message of a fault. -/
def PathFault.message : PathFault → String
  | missing => "No such file or directory (os error 2)"
  | notFolder => "Not a directory (os error 20)"
  | isFolder => "Is a directory (os error 21)"

/-- Files with their texts.  A folder exists if it is listed, or if something is in it. -/
structure Files where
  texts : List (List String × String) := []
  folders : List (List String) := []

namespace Files

/-- The name that follows a folder on the way to a place below it. -/
def below? (folder place : List String) : Option String :=
  if folder.isPrefixOf place then
    place[folder.length]?.filter fun name => name ≠ ".." && name ≠ "/"
  else none

/-- All places that are known to exist. -/
def places (fs : Files) : List (List String) := fs.texts.map (·.1) ++ fs.folders

/-- Whether a place is the working directory, a folder around it, or the root. -/
def isOuter (place : List String) : Bool := place = ["/"] || place.all (· = "..")

/-- Whether there is a file at a place. -/
def isFile (fs : Files) (place : List String) : Bool := (fs.texts.lookup place).isSome

/-- Whether there is a folder at a place. -/
def isFolder (fs : Files) (place : List String) : Bool :=
  isOuter place || fs.folders.contains place || fs.places.any fun p => (below? place p).isSome

/-- The names in a folder, in order. -/
def children (fs : Files) (place : List String) : List String :=
  ((fs.places.filterMap (below? place)).eraseDups).mergeSort (fun a b => decide (a ≤ b))

/-- The folder around a place. -/
def parent (place : List String) : List String :=
  if place = ["/"] then place
  else if isOuter place then ".." :: place
  else place.dropLast

/-- The place that further steps lead to.  Each step is taken from a folder, and only the last
one may lead to nothing. -/
def walkFrom (fs : Files) (place : List String) : List String → Except PathFault (List String)
  | [] => .ok place
  | step :: steps =>
    if !fs.isFolder place then .error (if fs.isFile place then .notFolder else .missing)
    else if step = "" || step = "." then walkFrom fs place steps
    else if step = ".." then walkFrom fs (parent place) steps
    else walkFrom fs (place ++ [step]) steps

/-- The steps of a path, and the folder from which they are counted. -/
def steps (path : String) : List String × List String :=
  match path.splitOn "/" with
  | "" :: names => (["/"], names)
  | names => ([], names)

/-- The place that a path leads to. -/
def walk (fs : Files) (path : String) : Except PathFault (List String) :=
  if path.isEmpty then .error .missing
  else fs.walkFrom (steps path).1 (steps path).2

/-- Whether a path leads to a folder. -/
def leadsToFolder (fs : Files) (path : String) : Bool :=
  match fs.walk path with
  | .ok place => fs.isFolder place
  | .error _ => false

/-- Whether a path leads to anything. -/
def leadsToSomething (fs : Files) (path : String) : Bool :=
  match fs.walk path with
  | .ok place => fs.isFolder place || fs.isFile place
  | .error _ => false

/-- The names in the folder that a path leads to. -/
def childrenAt (fs : Files) (path : String) : List String :=
  match fs.walk path with
  | .ok place => fs.children place
  | .error _ => []

/-- The text of a file. -/
def read (fs : Files) (path : String) : Except PathFault String := do
  let place ← fs.walk path
  match fs.texts.lookup place with
  | some text => return text
  | none => throw (if fs.isFolder place then .isFolder else .missing)

/-- The files with a text at a place. -/
def put (fs : Files) (place : List String) (text : String) : Files :=
  { fs with texts := (place, text) :: fs.texts.filter (·.1 ≠ place) }

/-- The place of a path on which no step leads back. -/
def place (path : String) : List String :=
  (steps path).1 ++ (steps path).2.filter fun step => step ≠ "" && step ≠ "."

/-- The files of these paths. -/
def ofList (files : List (String × String)) : Files where
  texts := files.map fun f => (place f.1, f.2)

/-- The steps without empty ones at their end, the last one first. -/
def trimmed (steps : List String) : List String := steps.reverse.dropWhile (· = "")

/-- The place of a file to be written.  It is a name in a folder, and no folder. -/
def target (fs : Files) (path : String) : Except PathFault (List String) := do
  if path.isEmpty then throw .missing
  let (start, names) := steps path
  match trimmed names with
  | [] => throw .isFolder
  | name :: before =>
    let folder ← fs.walkFrom start before.reverse
    if !fs.isFolder folder then throw (if fs.isFile folder then .notFolder else .missing)
    let place := folder ++ [name]
    if name = "." || name = ".." || path.endsWith "/" || fs.isFolder place then throw .isFolder
    return place

/-- Writes a text to a file, which is made if there is none. -/
def write (fs : Files) (path text : String) : Except PathFault Files := do
  return fs.put (← fs.target path) text

end Files

end SourceIr.Cli
