import SourceIr.Location
import SourceIr.Syntax.Operator

/-!
# Words, names and places in JSON

What is read back as it was written: a text, an integer that fits into its word, a constant of a
closed vocabulary, and a place whose line and column are words.

* `Json.ReadsBack`, a value that is read back;
* `Location.Fits` and `Span.Fits`, the places that a program can hold;
* `Location.fits_of_decode?` and `Span.fits_of_decode?`: no other place is read.
-/

namespace SourceIr

namespace Json

variable {α : Type} [Encode α] [Decode α]

/-- A value that is read back as it was written. -/
abbrev ReadsBack (a : α) : Prop := decode? (encode a) = some a

theorem readsBack_text (s : String) : ReadsBack s := rfl

theorem readsBack_int {n : Int} (h : Word.isSigned n) : ReadsBack n := if_pos h

theorem readsBack_nat {n : Nat} (h : Word.isUnsigned n) : ReadsBack n := if_pos h

/-- An absent value is read back, and so is one that is not written as `null`. -/
theorem readsBack_option {o : Option α} (h : ∀ a ∈ o, ReadsBack a ∧ encode a ≠ .null) :
    ReadsBack o := by
  cases o with
  | none => rfl
  | some a =>
    obtain ⟨back, notNull⟩ := h a rfl
    show Record.nullable? (encode a) = some (some a)
    unfold Record.nullable?
    split
    · contradiction
    · rw [back]
      rfl

end Json

open Json (ReadsBack)

theorem BinaryOperator.readsBack (op : BinaryOperator) : ReadsBack op := by cases op <;> rfl

theorem UnaryOperator.readsBack (op : UnaryOperator) : ReadsBack op := by cases op <;> rfl

theorem CallModifier.readsBack (modifier : CallModifier) : ReadsBack modifier := by
  cases modifier <;> rfl

theorem ContainerKind.readsBack (kind : ContainerKind) : ReadsBack kind := by cases kind <;> rfl

theorem DeferKind.readsBack (kind : DeferKind) : ReadsBack kind := by cases kind <;> rfl

/-! ### Places -/

/-- A place whose line and column are words. -/
structure Location.Fits (l : Location) : Prop where
  line : Word.isUnsigned l.line
  column : Word.isUnsigned l.column

/-- What lies between two such places. -/
structure Span.Fits (s : Span) : Prop where
  start : s.start.Fits
  stop : s.stop.Fits

theorem Location.decode?_obj (file line column : Json) :
    (decode? (.obj [("file", file), ("line", line), ("column", column)]) : Option Location) =
      (do return { file := ← decode? file, line := ← decode? line, column := ← decode? column }) :=
  rfl

theorem Location.readsBack {l : Location} (h : l.Fits) : ReadsBack l := by
  show decode? (.obj
    [("file", encode l.file), ("line", encode l.line), ("column", encode l.column)]) = some l
  rw [Location.decode?_obj, Json.readsBack_text, Json.readsBack_nat h.line,
    Json.readsBack_nat h.column]
  rfl

theorem Span.decode?_obj (start stop : Json) :
    (decode? (.obj [("start", start), ("end", stop)]) : Option Span) =
      (do return { start := ← decode? start, stop := ← decode? stop }) :=
  rfl

theorem Span.readsBack {s : Span} (h : s.Fits) : ReadsBack s := by
  show decode? (.obj [("start", encode s.start), ("end", encode s.stop)]) = some s
  rw [Span.decode?_obj, Location.readsBack h.start, Location.readsBack h.stop]
  rfl

/-! ### What is read -/

theorem Word.isUnsigned_of_decode? {value : Json} {n : Nat} (h : decode? value = some n) :
    Word.isUnsigned n := by
  cases value with
  | int m =>
    obtain ⟨fits, same⟩ := Option.ite_none_right_eq_some.mp h
    have nonneg := ((Word.isUnsigned_iff m).mp fits).1
    rwa [← Option.some.inj same, Int.toNat_of_nonneg nonneg]
  | _ => cases h

theorem Word.isSigned_of_decode? {value : Json} {n : Int} (h : decode? value = some n) :
    Word.isSigned n := by
  cases value with
  | int m =>
    obtain ⟨fits, same⟩ := Option.ite_none_right_eq_some.mp h
    exact Option.some.inj same ▸ fits
  | _ => cases h

namespace Json.Record

variable {α : Type} [Decode α] {r : Record} {name : String} {a : α}

/-- A required field has a value that is read. -/
theorem exists_of_required (h : r.required name = some a) : ∃ value, decode? value = some a := by
  unfold required at h
  split at h
  · exact ⟨_, h⟩
  · cases h

/-- What is there of a field that may be `null` is the value that is read. -/
theorem exists_of_optionalOr (h : r.optionalOr name = some (some a)) :
    ∃ value, decode? value = some a := by
  unfold optionalOr at h
  split at h
  · unfold nullable? at h
    split at h
    · cases h
    · obtain ⟨b, read, same⟩ := Option.map_eq_some_iff.mp h
      exact ⟨_, Option.some.inj same ▸ read⟩
  · cases h

end Json.Record

/-- A place that is read has words for its line and its column. -/
theorem Location.fits_of_decode? {value : Json} {l : Location} (h : decode? value = some l) :
    l.Fits := by
  obtain ⟨r, -, h⟩ := Option.bind_eq_some_iff.mp h
  obtain ⟨file, -, h⟩ := Option.bind_eq_some_iff.mp h
  obtain ⟨line, hLine, h⟩ := Option.bind_eq_some_iff.mp h
  obtain ⟨column, hColumn, h⟩ := Option.bind_eq_some_iff.mp h
  cases h
  obtain ⟨_, hLine⟩ := Json.Record.exists_of_required hLine
  obtain ⟨_, hColumn⟩ := Json.Record.exists_of_required hColumn
  exact ⟨Word.isUnsigned_of_decode? hLine, Word.isUnsigned_of_decode? hColumn⟩

theorem Span.fits_of_decode? {value : Json} {s : Span} (h : decode? value = some s) : s.Fits := by
  obtain ⟨r, -, h⟩ := Option.bind_eq_some_iff.mp h
  obtain ⟨start, hStart, h⟩ := Option.bind_eq_some_iff.mp h
  obtain ⟨stop, hStop, h⟩ := Option.bind_eq_some_iff.mp h
  cases h
  obtain ⟨_, hStart⟩ := Json.Record.exists_of_required hStart
  obtain ⟨_, hStop⟩ := Json.Record.exists_of_required hStop
  exact ⟨Location.fits_of_decode? hStart, Location.fits_of_decode? hStop⟩

end SourceIr
