/-!
# JSON values

A value as a reader of records needs it.  Members of an object keep their order and their
repetitions.  Numbers are told apart by their form: a literal without point and exponent in the
range of 64-bit integers is an integer, every other literal is the double it stands for.

* `Json`, the values;
* `Encode`, the types that are written as JSON, with `Option` written as `null` or the value.
-/

namespace SourceIr

/-- A JSON value.  `valueless` is a literal that is well formed and yet denotes nothing: a
number beyond the range of a double, or a string with half of a surrogate pair, also as the name
of a member of an object.  It may stand where it is skipped, and is refused where it is read. -/
inductive Json where
  | null
  | bool (value : Bool)
  | int (value : Int)
  | float (value : Float)
  | str (text : String)
  | arr (items : List Json)
  | obj (members : List (String × Json))
  | valueless
  deriving Inhabited

/-- The types that are written as JSON. -/
class Encode (α : Type) where
  encode : α → Json

export Encode (encode)

namespace Json

instance : Encode Json := ⟨id⟩
instance : Encode Bool := ⟨.bool⟩
instance : Encode Nat := ⟨fun n => .int n⟩
instance : Encode Int := ⟨.int⟩
instance : Encode Float := ⟨.float⟩
instance : Encode String := ⟨.str⟩

variable {α β : Type} [Encode α] [Encode β]

instance : Encode (Option α) := ⟨fun
  | none => .null
  | some a => encode a⟩

instance : Encode (List α) := ⟨fun as => .arr (as.map encode)⟩
instance : Encode (Array α) := ⟨fun as => .arr (as.toList.map encode)⟩
instance : Encode (α × β) := ⟨fun p => .arr [encode p.1, encode p.2]⟩

/-- A variant with fields: an object whose only member is named for the variant. -/
def variant (name : String) (fields : List (String × Json)) : Json :=
  .obj [(name, .obj fields)]

/-- A variant that holds one value without a name. -/
def wrapped (name : String) (value : Json) : Json :=
  .obj [(name, value)]

end Json

end SourceIr
