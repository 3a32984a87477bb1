import PathFacts.Decimal.Shortest

/-!
# Text of a 64-bit binary floating-point number

A double is kept as its bits.  `Double.ofBits` decodes them into `m * 2 ^ q`, and
`Double.text` writes the shortest decimal that reads back as the same double: always
positional, whole numbers without a point, a minus sign on negative zero, and one
word for every not-a-number whatever its sign and payload.
-/

namespace PathFacts.Decimal

/-- A decoded double; a finite one is `mantissa * 2 ^ exponent`, and `narrow` holds
where the next smaller double is only half as far away as the next larger one. -/
inductive Double where
  | nan
  | infinite (negative : Bool)
  | finite (negative : Bool) (mantissa : Nat) (exponent : Int) (narrow : Bool)

namespace Double

/-- Fields of the interchange format: one sign bit, eleven exponent bits, fifty-two
fraction bits. -/
def ofBits (bits : UInt64) : Double :=
  let n := bits.toNat
  let negative := decide (Nat.pow 2 63 ≤ n)
  let biased : Nat := n / Nat.pow 2 52 % Nat.pow 2 11
  let fraction : Nat := n % Nat.pow 2 52
  if biased = Nat.pow 2 11 - 1 then
    if fraction = 0 then .infinite negative else .nan
  else if biased = 0 then
    .finite negative fraction (-1074) false
  else
    .finite negative (Nat.pow 2 52 + fraction) ((biased : Int) - 1075)
      (fraction = 0 && decide (1 < biased))

/-- The window of numbers that read back as `mantissa * 2 ^ exponent`: half a step to
each side, a quarter below where the steps get smaller; ties go to even mantissas. -/
def window (mantissa : Nat) (exponent : Int) (narrow : Bool) : Window where
  lower := 4 * mantissa - (if narrow then 1 else 2)
  value := 4 * mantissa
  upper := 4 * mantissa + 2
  closed := mantissa % 2 = 0
  exponent := exponent - 2

/-- Digits of a finite double without its sign. -/
def magnitudeText (mantissa : Nat) (exponent : Int) (narrow : Bool) : String :=
  if mantissa = 0 then "0" else (window mantissa exponent narrow).shortest.positional

/-- The text of a double. -/
def text : Double → String
  | .nan => "NaN"
  | .infinite negative => if negative then "-inf" else "inf"
  | .finite negative m q narrow =>
    if negative then "-" ++ magnitudeText m q narrow else magnitudeText m q narrow

end Double
end PathFacts.Decimal
