/-!
# The shortest decimal in a window

A window is an interval of positive rationals around a value: every number in it
is read back as that value.  Among the decimals with one digit, with two digits,
and so on, the first grid that meets the window wins; of two grid points in the
window the nearer one is taken, and an exact tie goes to the larger.

All arithmetic is exact, on natural numbers.
-/

namespace PathFacts.Decimal

/-- The numbers from `lower` to `upper`, in units of `2 ^ exponent`, that read back
as `value`; the two ends belong to the window when `closed` holds. -/
structure Window where
  lower : Nat
  value : Nat
  upper : Nat
  closed : Bool
  exponent : Int

/-- The number `digits * 10 ^ exponent`. -/
structure Scientific where
  digits : Nat
  exponent : Int
deriving DecidableEq

namespace Window

/-- Factor that brings a count of `10 ^ k` onto the common scale of the window and
the grid. -/
def gridFactor (w : Window) (k : Int) : Nat :=
  Nat.pow 10 k.toNat * Nat.pow 2 (-w.exponent).toNat

/-- Factor that brings a bound of the window onto the same scale. -/
def boundFactor (w : Window) (k : Int) : Nat :=
  Nat.pow 2 w.exponent.toNat * Nat.pow 10 (-k).toNat

/-- Whether `d * 10 ^ k` lies in the window. -/
def admits (w : Window) (k : Int) (d : Nat) : Bool :=
  let x := d * w.gridFactor k
  let low := w.lower * w.boundFactor k
  let high := w.upper * w.boundFactor k
  if w.closed then decide (low ≤ x) && decide (x ≤ high)
  else decide (low < x) && decide (x < high)

/-- The point of the grid of multiples of `10 ^ k` that is in the window and nearest
to the value; only the two neighbours of the value need a look. -/
def nearest? (w : Window) (k : Int) : Option Nat :=
  let exact := w.value * w.boundFactor k
  let step := w.gridFactor k
  let below := exact / step
  let above := below + 1
  match w.admits k below, w.admits k above with
  | true, true =>
    if exact - below * step < above * step - exact then some below else some above
  | true, false => some below
  | false, true => some above
  | false, false => none

/-- Number of decimal digits of a positive number. -/
def digitCount (n : Nat) : Nat := (Nat.toDigits 10 n).length

/-- The power of ten just above the value; every window in use lies above
`10 ^ (-400)`. -/
def magnitude (w : Window) : Int :=
  let scaled :=
    w.value * Nat.pow 2 w.exponent.toNat * Nat.pow 10 400 / Nat.pow 2 (-w.exponent).toNat
  (digitCount scaled : Int) - 400

/-- Tries grids of `count` digits and up, at most `fuel` of them.  A neighbour above
can be the power of ten itself, which is written with one digit. -/
def search (w : Window) (point : Int) : (fuel count : Nat) → Scientific
  | 0, count => ⟨w.value * w.boundFactor (point - count) / w.gridFactor (point - count),
      point - count⟩
  | fuel + 1, count =>
    match w.nearest? (point - count) with
    | some d => if d = Nat.pow 10 count then ⟨1, point⟩ else ⟨d, point - count⟩
    | none => w.search point fuel (count + 1)

/-- The shortest decimal of the window. -/
def shortest (w : Window) : Scientific := w.search w.magnitude 17 1

end Window

/-- Positional digits of `digits * 10 ^ exponent`: no exponent is ever written, and
no point where the number is whole. -/
def Scientific.positional (s : Scientific) : String :=
  let ds := Nat.toDigits 10 s.digits
  if 0 ≤ s.exponent then
    String.ofList (ds ++ List.replicate s.exponent.toNat '0')
  else
    let places := (-s.exponent).toNat
    if places < ds.length then
      String.ofList (ds.take (ds.length - places) ++ '.' :: ds.drop (ds.length - places))
    else
      String.ofList ('0' :: '.' :: List.replicate (places - ds.length) '0' ++ ds)

end PathFacts.Decimal
