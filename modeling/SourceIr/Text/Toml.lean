import SourceIr.Text.Toml.Moment

/-!
# TOML values

A TOML document is a table.  Its text gives the table piece by piece, and says of each table in
it how it comes to be; that decides which later pieces may still add to it.

* `Toml`, the values; `Toml.Origin`, how a table comes to be;
* `Toml.Key`, a dotted key; `Toml.Section`, a header with the entries below it;
* `Toml.Document`, a text as a list of sections, and `Toml.Document.entries?`, its table.
-/

namespace SourceIr

namespace Toml

/-- How a table comes to be. -/
inductive Origin where
  /-- It is written in braces. -/
  | inline
  /-- It has a header of its own. -/
  | headed
  /-- It is passed through by a header. -/
  | implied
  /-- It is passed through by a dotted key. -/
  | dotted
  deriving DecidableEq, Repr

end Toml

/-- A TOML value.  `tables` is an array whose items have headers of their own. -/
inductive Toml where
  | str (text : String)
  | int (value : Int)
  | float (value : Float)
  | bool (value : Bool)
  | moment (value : Toml.Moment)
  | arr (items : List Toml)
  | table (origin : Toml.Origin) (entries : List (String × Toml))
  | tables (items : List (List (String × Toml)))
  deriving Inhabited

namespace Toml

/-- The entries of a table, in the order in which they were added. -/
abbrev Entries := List (String × Toml)

/-- The entries with another value under a name they have. -/
def replace (name : String) (value : Toml) (es : Entries) : Entries :=
  es.map fun e => if e.1 = name then (name, value) else e

/-- The entries without a name. -/
def remove (name : String) (es : Entries) : Entries := es.filter (·.1 ≠ name)

/-- A dotted key: the tables that it passes through, and the name in the last of them. -/
structure Key where
  path : List String
  name : String
  deriving DecidableEq, Repr

/-- Whether a dotted key may pass through a table. -/
def Origin.isOpen : Origin → Bool
  | implied | dotted => true
  | inline | headed => false

/-- Changes the last of some tables. -/
def changeLast? (change : Entries → Option Entries) (items : List Entries) :
    Option (List Entries) :=
  match items.reverse with
  | [] => none
  | last :: earlier => (change last).map fun last => (last :: earlier).reverse

/-- Adds a value under a dotted key.  The table that receives it is the one at hand, when the
path is empty, and otherwise one that dotted keys have made. -/
def add? (value : Toml) (name : String) : List String → Entries → Option Entries
  | [], es => if (es.lookup name).isSome then none else some (es ++ [(name, value)])
  | step :: path, es =>
    match es.lookup step with
    | none => (add? value name path []).map fun inner => es ++ [(step, .table .dotted inner)]
    | some (.table origin inner) =>
      if origin.isOpen && (origin = .dotted || !path.isEmpty) then
        (add? value name path inner).map fun inner => replace step (.table origin inner) es
      else none
    | some (.tables items) =>
      if path.isEmpty then none
      else (changeLast? (add? value name path) items).map fun items =>
        replace step (.tables items) es
    | some _ => none

/-- The table of these entries, added to the given ones in their order. -/
def addAll? (new : List (Key × Toml)) (es : Entries) : Option Entries :=
  new.foldlM (fun es e => add? e.2 e.1.name e.1.path es) es

/-- Changes the table that the path of a header leads to.  In an array of tables the path goes on
in the last one. -/
def changeAt? (change : Entries → Option Entries) : List String → Entries → Option Entries
  | [], es => change es
  | step :: path, es =>
    match es.lookup step with
    | none => (changeAt? change path []).map fun inner => es ++ [(step, .table .implied inner)]
    | some (.table origin inner) =>
      if origin = .inline then none
      else (changeAt? change path inner).map fun inner => replace step (.table origin inner) es
    | some (.tables items) =>
      (changeLast? (changeAt? change path) items).map fun items => replace step (.tables items) es
    | some _ => none

/-- A header with the entries below it. -/
structure Section where
  /-- Whether the header adds an item to an array of tables. -/
  isItem : Bool
  header : Key
  body : List (Key × Toml)

namespace Section

/-- Adds the section as a table of its own.  The table may be there if headers have only passed
through it. -/
def addTable? (s : Section) (es : Entries) : Option Entries :=
  match es.lookup s.header.name with
  | none => (addAll? s.body []).map fun inner => es ++ [(s.header.name, .table .headed inner)]
  | some (.table .implied inner) =>
    (addAll? s.body inner).map fun inner =>
      remove s.header.name es ++ [(s.header.name, .table .headed inner)]
  | some _ => none

/-- Adds the section as the last item of an array of tables. -/
def addItem? (s : Section) (es : Entries) : Option Entries := do
  let item ← addAll? s.body []
  match es.lookup s.header.name with
  | none => some (es ++ [(s.header.name, .tables [item])])
  | some (.tables items) => some (replace s.header.name (.tables (items ++ [item])) es)
  | some _ => none

/-- Adds the section to the table of a document. -/
def addTo? (es : Entries) (s : Section) : Option Entries :=
  changeAt? (if s.isItem then s.addItem? else s.addTable?) s.header.path es

end Section

/-- A document: the entries before the first header, and the sections. -/
structure Document where
  leading : List (Key × Toml)
  sections : List Section

/-- The table of a document, if each name is defined once. -/
def Document.entries? (d : Document) : Option Entries := do
  d.sections.foldlM Section.addTo? (← addAll? d.leading [])

end Toml

end SourceIr
