/-!
# Words of 64 bits

The ranges of the integers that fit into a word, with and without a sign, and what the short words
of 32 bits hold.
-/

namespace SourceIr.Word

/-- The number of words, `2^64`. -/
def size : Nat := 0x10000000000000000

/-- The number of words without a sign bit, `2^63`. -/
def half : Nat := 0x8000000000000000

/-- The number of short words, `2^32`. -/
def shortSize : Nat := 0x100000000

/-- Whether an integer fits into a word without a sign. -/
def isUnsigned (n : Int) : Bool := 0 ≤ n && n < size

/-- Whether an integer fits into a word with a sign. -/
def isSigned (n : Int) : Bool := -(half : Int) ≤ n && n < half

theorem isUnsigned_iff (n : Int) : isUnsigned n ↔ 0 ≤ n ∧ n < size := by
  simp [isUnsigned]

end SourceIr.Word
