import SourceIr.Word

/-!
# Shortest decimal text of a double

A finite double is `m · 2^q`.  The reals that round to it form an interval, whose ends belong to
it exactly if `m` is even.  Among the decimals in the interval those with the fewest digits are
taken, and of these the one nearest to the double.

* `Binary`: a positive double as `m · 2^q`, decoded from its bits;
* `Binary.shortest`: the digits and the exponent of the decimal that is chosen;
* `Format`: what a user of the text decides, and `Format.text`, the text.
-/

namespace SourceIr.Decimal

/-- A positive double `significand · 2^exponent`.  `tight` says that the double below is only
half as far away as the one above. -/
structure Binary where
  significand : Nat
  exponent : Int
  tight : Bool

/-- The magnitude of a finite double with these bits, `none` for zero. -/
def Binary.ofBits? (bits : UInt64) : Option Binary :=
  let fraction : Nat := bits.toNat % 0x10000000000000
  let field : Nat := bits.toNat / 0x10000000000000 % 0x800
  if field = 0 then
    if fraction = 0 then none else some ⟨fraction, -1074, false⟩
  else
    some ⟨0x10000000000000 + fraction, (field : Int) - 1075, fraction = 0 && 1 < field⟩

/-- A decimal `coefficient · 10^exponent`. -/
structure Digits where
  coefficient : Nat
  exponent : Int
  deriving DecidableEq, Repr

/-- `base ^ e`, as a natural number, for the positive part of `e`. -/
def power (base : Nat) (e : Int) : Nat := Nat.pow base e.toNat

/-- How `a · 2^q` compares with `c · 10^k`. -/
def compareScaled (a : Nat) (q : Int) (c : Nat) (k : Int) : Ordering :=
  compare (a * power 2 q * power 10 (-k)) (c * power 10 k * power 2 (-q))

/-- The number of decimal digits. -/
def digitCount (n : Nat) : Nat := (Nat.toDigits 10 n).length

/-- The exponent of the power of ten that starts the decade of the double. -/
def Binary.decade (b : Binary) : Int :=
  let num := b.significand * power 2 b.exponent
  let den := power 2 (-b.exponent)
  if den ≤ num then digitCount (num / den) - 1
  else -(digitCount ((den + num - 1) / num - 1) : Int)

/-- Whether `c · 10^k` rounds to the double. -/
def Binary.holds (b : Binary) (c : Nat) (k : Int) : Bool :=
  let even := b.significand % 2 = 0
  let low := 4 * b.significand - (if b.tight then 1 else 2)
  let high := 4 * b.significand + 2
  let below := compareScaled low (b.exponent - 2) c k
  let above := compareScaled high (b.exponent - 2) c k
  (below == .lt || (even && below == .eq)) && (above == .gt || (even && above == .eq))

/-- Which of two decimals is taken that are equally near to a double. -/
inductive Tie where
  /-- The greater one. -/
  | up
  /-- The one whose last digit is even. -/
  | toEven
  deriving DecidableEq, Repr

/-- Whether the upper neighbour of a fraction is nearer than the lower one, or chosen before it.
`rest / den` is the part of the fraction above its lower neighbour. -/
def Tie.prefersUpper (tie : Tie) (floor rest den : Nat) : Bool :=
  if 2 * rest = den then tie = .up || floor % 2 = 1 else den < 2 * rest

/-- The grid point nearest to the double among the two neighbours on the grid of `10^k`, if one
of them rounds to it. -/
def Binary.onGrid? (tie : Tie) (b : Binary) (k : Int) : Option Digits :=
  let num := b.significand * power 2 b.exponent * power 10 (-k)
  let den := power 2 (-b.exponent) * power 10 k
  let floor := num / den
  let upper := tie.prefersUpper floor (num % den) den
  let first := if upper then floor + 1 else floor
  let second := if upper then floor else floor + 1
  if b.holds first k then some ⟨first, k⟩
  else if b.holds second k then some ⟨second, k⟩
  else none

/-- The shortest decimal that rounds to the double: the coarsest grid with a point in the
interval wins, and seventeen digits always suffice. -/
def Binary.shortest (tie : Tie) (b : Binary) : Digits :=
  let grids := (List.range 17).map fun (n : Nat) => b.decade - n
  (grids.findSome? (b.onGrid? tie)).getD ⟨0, 0⟩

/-- The significant digits without trailing zeros, and the position of the decimal point
relative to the first of them. -/
def Digits.normal (d : Digits) : List Char × Int :=
  let digits := Nat.toDigits 10 d.coefficient
  let kept := (digits.reverse.dropWhile (· == '0')).reverse
  (kept, digits.length + d.exponent)

/-- The choices in the text of a double: which of two equally near decimals is written, and how
many zeros may stand between the point and the first digit. -/
structure Format where
  tie : Tie
  leadingZeros : Nat

/-- The text of digits with the point after `point` of them.  It is positional with at most
sixteen digits before the point and few enough zeros behind it. -/
def Format.layout (f : Format) (digits : List Char) (point : Int) : String :=
  if -(f.leadingZeros : Int) ≤ point && point ≤ 16 then
    if point ≤ 0 then
      "0." ++ String.ofList (List.replicate (-point).toNat '0' ++ digits)
    else
      let whole := digits.take point.toNat
      let fraction := digits.drop point.toNat
      String.ofList (whole ++ List.replicate (point.toNat - digits.length) '0') ++ "." ++
        (if fraction.isEmpty then "0" else String.ofList fraction)
  else
    let rest := digits.drop 1
    String.ofList (digits.take 1) ++ (if rest.isEmpty then "" else "." ++ String.ofList rest) ++
      "e" ++ toString (point - 1)

/-- The text of a finite double. -/
def Format.text (f : Format) (x : Float) : String :=
  let sign := if Word.half ≤ x.toBits.toNat then "-" else ""
  match Binary.ofBits? (x.toBits &&& 0x7fffffffffffffff) with
  | none => sign ++ "0.0"
  | some b =>
    let (digits, point) := (b.shortest f.tie).normal
    sign ++ f.layout digits point

end SourceIr.Decimal
