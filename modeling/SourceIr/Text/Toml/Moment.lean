import SourceIr.Text.Digit

/-!
# Dates and times

A date, a time of day, or both, with or without the distance from universal time.

* `Moment`, with `Date.isValid` and `Time.isValid`;
* `Moment.read?`, from the start of a text.
-/

namespace SourceIr.Toml

open Text

/-- A day. -/
structure Date where
  year : Nat
  month : Nat
  day : Nat
  deriving DecidableEq, Repr

namespace Date

/-- Whether a year has a leap day. -/
def isLeap (year : Nat) : Bool := year % 4 = 0 && (year % 100 ≠ 0 || year % 400 = 0)

/-- The number of days of a month. -/
def daysIn (year month : Nat) : Nat :=
  if month = 2 then (if isLeap year then 29 else 28)
  else if month = 4 || month = 6 || month = 9 || month = 11 then 30
  else 31

/-- Whether the calendar has this day. -/
def isValid (d : Date) : Bool :=
  1 ≤ d.month && d.month ≤ 12 && 1 ≤ d.day && d.day ≤ daysIn d.year d.month

end Date

/-- A time of day, with the digits of the fraction of its second. -/
structure Time where
  hour : Nat
  minute : Nat
  second : Nat
  fraction : List Nat
  deriving DecidableEq, Repr

/-- Whether a day has this time.  The second may be a leap second. -/
def Time.isValid (t : Time) : Bool := t.hour ≤ 23 && t.minute ≤ 59 && t.second ≤ 60

/-- A date, a time, or both; with both, perhaps the distance from universal time in minutes. -/
structure Moment where
  date : Option Date := none
  time : Option Time := none
  offset : Option Int := none
  deriving DecidableEq, Repr

namespace Moment

/-- The number that two digits at the start of a text write. -/
def twoDigits? : List Char → Option (Nat × List Char)
  | a :: b :: rest => do return (ofDigits 10 [← digit? a, ← digit? b], rest)
  | _ => none

/-- The numbers of two digits at the start of a text that this mark separates. -/
def pair? (mark : Char) (text : List Char) : Option (Nat × Nat × List Char) := do
  let (first, rest) ← twoDigits? text
  match rest with
  | c :: rest =>
    if c = mark then
      let (second, rest) ← twoDigits? rest
      return (first, second, rest)
    else none
  | [] => none

/-- The date at the start of a text. -/
def date? : List Char → Option (Date × List Char)
  | a :: b :: c :: d :: '-' :: rest => do
    let year := ofDigits 10 (← [a, b, c, d].mapM digit?)
    let (month, day, rest) ← pair? '-' rest
    let date : Date := ⟨year, month, day⟩
    if date.isValid then some (date, rest) else none
  | _ => none

/-- The digits after a point at the start of a text, if there are any. -/
def fraction (text : List Char) : List Nat × List Char :=
  match text with
  | '.' :: rest =>
    match digits rest with
    | ([], _) => ([], text)
    | found => found
  | _ => ([], text)

/-- The time at the start of a text. -/
def time? (text : List Char) : Option (Time × List Char) := do
  let (hour, minute, rest) ← pair? ':' text
  match rest with
  | ':' :: rest =>
    let (second, rest) ← twoDigits? rest
    let (fraction, rest) := fraction rest
    let time : Time := ⟨hour, minute, second, fraction⟩
    if time.isValid then some (time, rest) else none
  | _ => none

/-- The hours and minutes at the start of a text, in minutes. -/
def minutes? (text : List Char) : Option (Nat × List Char) := do
  let (hours, minutes, rest) ← pair? ':' text
  if hours ≤ 23 && minutes ≤ 59 then some (hours * 60 + minutes, rest) else none

/-- The distance from universal time at the start of a text. -/
def offset? : List Char → Option (Int × List Char)
  | 'Z' :: rest | 'z' :: rest => some (0, rest)
  | '+' :: rest => (minutes? rest).map fun (m, rest) => ((m : Int), rest)
  | '-' :: rest => (minutes? rest).map fun (m, rest) => (-(m : Int), rest)
  | _ => none

/-- Whether a character may stand between a date and a time. -/
def joins (c : Char) : Bool := c = 'T' || c = 't' || c = ' '

/-- The time that is joined to a date, with its distance from universal time. -/
def timeOfDate? : List Char → Option (Time × Option Int × List Char)
  | c :: rest =>
    if joins c then do
      let (time, rest) ← time? rest
      match offset? rest with
      | some (offset, rest) => some (time, some offset, rest)
      | none => some (time, none, rest)
    else none
  | [] => none

/-- The date or time at the start of a text. -/
def read? (text : List Char) : Option (Moment × List Char) :=
  match date? text with
  | some (date, rest) =>
    match timeOfDate? rest with
    | some (time, offset, rest) => some ({ date, time, offset }, rest)
    | none => some ({ date }, rest)
  | none => (time? text).map fun (time, rest) => ({ time }, rest)

end Moment

end SourceIr.Toml
