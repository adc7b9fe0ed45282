import Mathlib.Data.List.Basic
import SourceIr.Decl.Primitive

/-!
# The names of the primitive types

A name that starts with `i` or `u` is scanned character by character, and what stands behind the
letter is read as a short word, into which a long row of digits does not fit.  The names that pass
are those that one gets by writing the widths: a text without a superfluous zero is the numeral of
the number that it writes, and a number that a short word does not hold is greater than any width.

* `toDigits_ofDigitChars`, numerals are written as they are read;
* `readShort?_of_isNumeral`, reading fails only where a short word does not hold the number;
* `isPrimitiveType_iff`, the grammar of the names.
-/

namespace SourceIr

variable {c : Char} {text ds : List Char} {n : Nat}

/-! ### Digits -/

theorem digitChar_toNat_sub (hc : c.isDigit = true) : (c.toNat - 48).digitChar = c := by
  have hrange : 48 ≤ c.toNat ∧ c.toNat ≤ 57 := Char.isDigit_iff_toNat.1 hc
  apply Char.toNat_inj.1
  rw [Nat.toNat_digitChar_of_lt_ten (by omega)]
  omega

theorem toDigits_toNat_sub (hc : c.isDigit = true) : Nat.toDigits 10 (c.toNat - 48) = [c] := by
  rw [Nat.toDigits_of_lt_base (Text.digit?_lt (Text.digit?_of_isDigit hc)), digitChar_toNat_sub hc]

/-- Digits behind a number other than zero are appended to its numeral. -/
theorem toDigits_ofDigitChars_of_pos (hds : ∀ c ∈ ds, c.isDigit = true) (hn : 0 < n) :
    Nat.toDigits 10 (Nat.ofDigitChars 10 ds n) = Nat.toDigits 10 n ++ ds := by
  induction ds generalizing n with
  | nil => simp
  | cons c ds ih =>
    have hc : c.isDigit = true := hds c (by simp)
    have hlt : c.toNat - 48 < 10 := Text.digit?_lt (Text.digit?_of_isDigit hc)
    calc Nat.toDigits 10 (Nat.ofDigitChars 10 (c :: ds) n)
        = Nat.toDigits 10 (10 * n + (c.toNat - 48)) ++ ds := by
          rw [Nat.ofDigitChars_cons]
          exact ih (fun d hd => hds d (by simp [hd])) (by omega)
      _ = Nat.toDigits 10 n ++ Nat.toDigits 10 (c.toNat - 48) ++ ds := by
          rw [Nat.toDigits_append_toDigits (by decide) hn hlt]
      _ = Nat.toDigits 10 n ++ c :: ds := by simp [toDigits_toNat_sub hc]

/-- Only the numeral of zero starts with a zero. -/
theorem head?_toDigits_ne_zero (hn : 0 < n) : (Nat.toDigits 10 n).head? ≠ some '0' := by
  induction n using Nat.strongRecOn with
  | ind n ih =>
    rcases Nat.lt_or_ge n 10 with hlt | hge
    · rw [Nat.toDigits_of_lt_base hlt]
      simpa [Nat.digitChar_eq_zero] using Nat.pos_iff_ne_zero.1 hn
    · rw [Nat.toDigits_of_base_le (by decide) hge,
        List.head?_append_of_ne_nil _ Nat.toDigits_ne_nil]
      exact ih (n / 10) (by omega) (by omega)

/-! ### Numerals -/

theorem isNumeral_iff : isNumeral text = true ↔
    text ≠ [] ∧ (∀ c ∈ text, c.isDigit = true) ∧ (1 < text.length → text.head? ≠ some '0') := by
  simp [isNumeral, and_assoc, imp_iff_not_or]

theorem isNumeral_toDigits (n : Nat) : isNumeral (Nat.toDigits 10 n) = true := by
  refine isNumeral_iff.2 ⟨Nat.toDigits_ne_nil,
    fun c hc => Nat.isDigit_of_mem_toDigits (by decide) (by decide) hc, fun hlen => ?_⟩
  apply head?_toDigits_ne_zero
  rcases Nat.eq_zero_or_pos n with rfl | hn
  · simp at hlen
  · exact hn

/-- A numeral is the one that its number is written as. -/
theorem toDigits_ofDigitChars (h : isNumeral text = true) :
    Nat.toDigits 10 (Nat.ofDigitChars 10 text 0) = text := by
  obtain ⟨hne, hdigits, hzero⟩ := isNumeral_iff.1 h
  cases text with
  | nil => exact absurd rfl hne
  | cons c ds =>
    have hc : c.isDigit = true := hdigits c (by simp)
    have hds : ∀ d ∈ ds, d.isDigit = true := fun d hd => hdigits d (by simp [hd])
    have hfirst : Nat.ofDigitChars 10 (c :: ds) 0 = Nat.ofDigitChars 10 ds (c.toNat - 48) := by
      simp [Nat.ofDigitChars_cons]
    rw [hfirst]
    rcases Nat.eq_zero_or_pos (c.toNat - 48) with h0 | hpos
    · -- A zero stands alone.
      have hc0 : c = '0' := by rw [← digitChar_toNat_sub hc, h0]; rfl
      cases ds with
      | nil => simpa using toDigits_toNat_sub hc
      | cons d ds => exact absurd (by simp [hc0]) (hzero (by simp))
    · rw [toDigits_ofDigitChars_of_pos hds hpos, toDigits_toNat_sub hc]
      rfl

/-! ### Reading a width -/

theorem le_ofDigitChars : n ≤ Nat.ofDigitChars 10 ds n := by
  rw [Nat.ofDigitChars_eq_ofDigitChars_zero]
  have := Nat.le_mul_of_pos_left n (Nat.pow_pos (n := ds.length) (show 0 < 10 by decide))
  omega

theorem pushDigit?_of_isDigit (hc : c.isDigit = true) : pushDigit? n c =
    if 10 * n + (c.toNat - 48) < Word.shortSize then some (10 * n + (c.toNat - 48)) else none := by
  simp [pushDigit?, Text.digit?_of_isDigit hc, Nat.mul_comm]

/-- Once a number has outgrown a short word, no further digit brings it back. -/
theorem foldlM_pushDigit? (hds : ∀ c ∈ ds, c.isDigit = true) (hn : n < Word.shortSize) :
    ds.foldlM pushDigit? n =
      if Nat.ofDigitChars 10 ds n < Word.shortSize then some (Nat.ofDigitChars 10 ds n)
      else none := by
  induction ds generalizing n with
  | nil => simp [hn]
  | cons c ds ih =>
    have hpush : Nat.ofDigitChars 10 (c :: ds) n =
        Nat.ofDigitChars 10 ds (10 * n + (c.toNat - 48)) := Nat.ofDigitChars_cons
    rw [List.foldlM_cons, pushDigit?_of_isDigit (hds c (by simp)), hpush]
    split
    next hlt => exact ih (fun d hd => hds d (by simp [hd])) hlt
    next hge =>
      have hle : 10 * n + (c.toNat - 48) ≤ Nat.ofDigitChars 10 ds (10 * n + (c.toNat - 48)) :=
        le_ofDigitChars
      rw [if_neg (by omega)]
      rfl

theorem readShort?_of_isNumeral (h : isNumeral text = true) :
    readShort? text =
      if Nat.ofDigitChars 10 text 0 < Word.shortSize then some (Nat.ofDigitChars 10 text 0)
      else none := by
  obtain ⟨hne, hdigits, -⟩ := isNumeral_iff.1 h
  have hplus : text.head? ≠ some '+' := fun hhead =>
    absurd (hdigits '+' (List.mem_of_head? hhead)) (by decide)
  simp [readShort?, hplus, hne, foldlM_pushDigit? hdigits (show 0 < Word.shortSize by decide)]

/-- The texts of widths are the numerals of the numbers up to the greatest width. -/
theorem isWidth_iff : isWidth text = true ↔ ∃ w ≤ maxWidth, text = Nat.toDigits 10 w := by
  rw [isWidth, Bool.and_eq_true]
  constructor
  · rintro ⟨hform, hread⟩
    rw [readShort?_of_isNumeral hform] at hread
    split at hread
    next => exact ⟨_, by simpa using hread, (toDigits_ofDigitChars hform).symm⟩
    next => simp at hread
  · rintro ⟨w, hw, rfl⟩
    have hform := isNumeral_toDigits w
    have hfits : w < Word.shortSize := Nat.lt_of_le_of_lt hw (by decide)
    refine ⟨hform, ?_⟩
    rw [readShort?_of_isNumeral hform, Nat.ofDigitChars_ten_toDigits, if_pos hfits]
    simpa using hw

/-! ### The names -/

/-- A primitive type has a name on the list, or the name of an integer type: `i` or `u` and behind
it the numeral of a width. -/
theorem isPrimitiveType_iff (name : String) :
    isPrimitiveType name = true ↔
      name ∈ namedPrimitives ∨
        ∃ w ≤ 65535, name = "i" ++ toString w ∨ name = "u" ++ toString w := by
  have hname (letter : String) (w : Nat) :
      name = letter ++ toString w ↔ name.toList = letter.toList ++ Nat.toDigits 10 w := by
    rw [← String.toList_inj]
    simp
  rw [isPrimitiveType, Bool.or_eq_true, List.contains_iff_mem]
  refine or_congr_right ?_
  simp only [hname]
  cases name.toList with
  | nil => simp
  | cons c digits =>
    have hletter (w : Nat) :
        c :: digits = "i".toList ++ Nat.toDigits 10 w ∨
            c :: digits = "u".toList ++ Nat.toDigits 10 w ↔
          (c = 'i' ∨ c = 'u') ∧ digits = Nat.toDigits 10 w := by
      simp [← or_and_right]
    simp only [hletter, Bool.and_eq_true, Bool.or_eq_true, beq_iff_eq, isWidth_iff]
    constructor
    · rintro ⟨hc, w, hw, hdigits⟩
      exact ⟨w, hw, hc, hdigits⟩
    · rintro ⟨w, hw, hc, hdigits⟩
      exact ⟨hc, w, hw, hdigits⟩

/-- Modulo the number of short words this would be the width 1. -/
example : isPrimitiveType "u4294967297" = false := by decide

end SourceIr
