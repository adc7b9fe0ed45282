import SourceIr.Text.Json
import SourceIr.Word

/-!
# Reading records and variants

A record is an object, or an array of its fields in their declared order.  A field of an object
that the record does not know is skipped; one that it knows may not be given twice.  A field
that is missing is refused unless it has a default, or unless it is optional and the record is
an object; `null` counts as a value, so it stands for a default nowhere.

A variant is the name alone, when it has no fields, or an object with one member that is named
for the variant.

* `Decode`, the types that are read from JSON;
* `Json.record?` with `required`, `optional`, `defaulted` and `optionalOr`;
* `Json.variant?` and `Json.enumerated?`.
-/

namespace SourceIr

/-- The types that are read from JSON. -/
class Decode (α : Type) where
  decode? : Json → Option α

export Decode (decode?)

namespace Json

/-- What a record says of one of its fields. -/
inductive Slot where
  /-- The value that is given. -/
  | given (value : Json)
  /-- An object without the field. -/
  | missing
  /-- An array that ends before the field. -/
  | beyond

/-- The fields of a record under their names. -/
abbrev Record := List (String × Slot)

/-- The values of a name among the members of an object. -/
def named (name : String) (members : List (String × Json)) : List Json :=
  (members.filter (·.1 == name)).map (·.2)

/-- One field of an object, `none` if it is given twice. -/
def slot? (members : List (String × Json)) (name : String) : Option (String × Slot) :=
  match named name members with
  | [] => some (name, .missing)
  | [value] => some (name, .given value)
  | _ => none

/-- The fields of an array, `none` if there are more items than fields. -/
def positional? : List String → List Json → Option Record
  | [], [] => some []
  | [], _ :: _ => none
  | name :: names, [] => (positional? names []).map ((name, .beyond) :: ·)
  | name :: names, item :: items => (positional? names items).map ((name, .given item) :: ·)

/-- The value as a record with these fields. -/
def record? (names : List String) : Json → Option Record
  | .obj members => names.mapM (slot? members)
  | .arr items => positional? names items
  | _ => none

namespace Record

/-- The entry of a field. -/
def slot (r : Record) (name : String) : Slot := (r.lookup name).getD .missing

variable {α : Type} [Decode α]

/-- A field that must be given. -/
def required (r : Record) (name : String) : Option α :=
  match r.slot name with
  | .given value => decode? value
  | _ => none

/-- The value under an option: `null` or a value of the type. -/
def nullable? : Json → Option (Option α)
  | .null => some none
  | value => (decode? value).map some

/-- A field that an object may leave out. -/
def optional (r : Record) (name : String) : Option (Option α) :=
  match r.slot name with
  | .given value => nullable? value
  | .missing => some none
  | .beyond => none

/-- A field that may be left out and then has this value. -/
def defaulted (r : Record) (name : String) (default : α) : Option α :=
  match r.slot name with
  | .given value => decode? value
  | _ => some default

/-- A field that may be `null`, or left out in either form of the record. -/
def optionalOr (r : Record) (name : String) : Option (Option α) :=
  match r.slot name with
  | .given value => nullable? value
  | _ => some none

end Record

instance : Decode Json := ⟨some⟩

instance : Decode Bool := ⟨fun
  | .bool b => some b
  | _ => none⟩

instance : Decode Nat := ⟨fun
  | .int n => if Word.isUnsigned n then some n.toNat else none
  | _ => none⟩

instance : Decode Int := ⟨fun
  | .int n => if Word.isSigned n then some n else none
  | _ => none⟩

/-- The double nearest to an integer of 64 bits. -/
def floatOfInt (n : Int) : Float :=
  if 0 ≤ n then (UInt64.ofNat n.toNat).toFloat else -(UInt64.ofNat n.natAbs).toFloat

instance : Decode Float := ⟨fun
  | .float x => some x
  | .int n => some (floatOfInt n)
  | _ => none⟩

instance : Decode String := ⟨fun
  | .str s => some s
  | _ => none⟩

variable {α β : Type} [Decode α] [Decode β]

instance : Decode (Option α) := ⟨Record.nullable?⟩

instance : Decode (List α) := ⟨fun
  | .arr items => items.mapM decode?
  | _ => none⟩

instance : Decode (α × β) := ⟨fun
  | .arr [a, b] => do return (← decode? a, ← decode? b)
  | _ => none⟩

/-- The name of a variant, and what it holds unless only the name is given. -/
def variant? : Json → Option (String × Option Json)
  | .str name => some (name, none)
  | .obj [(name, body)] => some (name, some body)
  | _ => none

/-- Whether a variant holds nothing. -/
def isUnit : Option Json → Bool
  | none | some .null => true
  | _ => false

/-- One of these constants by its name. -/
def enumerated? {γ : Type} (all : List γ) (name : γ → String) (value : Json) : Option γ := do
  let (given, body) ← value.variant?
  if isUnit body then all.find? (name · == given) else none

end Json

end SourceIr
