/-!
# Digits

The values of digits, and the numbers that rows of them write.
-/

namespace SourceIr.Text

/-- The value of a decimal digit. -/
def digit? (c : Char) : Option Nat :=
  if '0' ≤ c && c ≤ '9' then some (c.toNat - 48) else none

/-- The value of a digit in base sixteen. -/
def hexDigit? (c : Char) : Option Nat :=
  if '0' ≤ c && c ≤ '9' then some (c.toNat - 48)
  else if 'a' ≤ c && c ≤ 'f' then some (c.toNat - 87)
  else if 'A' ≤ c && c ≤ 'F' then some (c.toNat - 55)
  else none

/-- The value of a digit in a base up to sixteen. -/
def digitIn? (base : Nat) (c : Char) : Option Nat := (hexDigit? c).filter (· < base)

/-- The number that a row of digits writes. -/
def ofDigits (base : Nat) (digits : List Nat) : Nat := digits.foldl (fun n d => n * base + d) 0

/-- The number that these characters write in base sixteen. -/
def hexCode? (digits : List Char) : Option Nat := (digits.mapM hexDigit?).map (ofDigits 16)

/-- The digits at the start of a text, and what follows them. -/
def digits : List Char → List Nat × List Char
  | [] => ([], [])
  | c :: rest =>
    match digit? c with
    | some d => let (ds, after) := digits rest; (d :: ds, after)
    | none => ([], c :: rest)

theorem digit?_of_isDigit {c : Char} (hc : c.isDigit = true) : digit? c = some (c.toNat - 48) := by
  have h : '0' ≤ c ∧ c ≤ '9' := Char.isDigit_iff_toNat.1 hc
  simp [digit?, h]

theorem digit?_lt {c : Char} {d : Nat} (h : digit? c = some d) : d < 10 := by
  unfold digit? at h
  split at h
  · rename_i hc
    simp only [Bool.and_eq_true, decide_eq_true_eq] at hc
    have : c.toNat ≤ 57 := hc.2
    simp only [Option.some.injEq] at h
    omega
  · cases h

end SourceIr.Text
