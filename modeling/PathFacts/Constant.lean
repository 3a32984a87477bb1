import PathFacts.Decimal.Double
import Std.Data.ExtTreeSet

/-!
# Constants

The concrete values that an expression may be known to have.  Floating-point
constants are kept as their bits, so equality is structural and tells `0.0` from
`-0.0` and one not-a-number from another.

Constants are ordered: integers, floats, booleans, characters, strings, null, and by
value inside each kind.  Sets of constants are listed in this order.
-/

namespace PathFacts

/-- A concrete constant. -/
inductive Constant where
  | int (value : Int64)
  | float (bits : UInt64)
  | bool (value : Bool)
  | char (value : Char)
  | str (text : String)
  | null
deriving DecidableEq, Inhabited

namespace Constant

/-- The integral view, of integers and of characters. -/
def integer? : Constant → Option Int64
  | int v => some v
  | char c => some (Int64.ofNat c.toNat)
  | _ => none

/-- The bits of a floating-point constant. -/
def floatBits : Constant → Option UInt64
  | float bits => some bits
  | _ => none

/-- Whether the constant is the null reference. -/
def isNull (c : Constant) : Bool := c == null

/-- The constant as it is shown: characters and strings in quotes, nothing escaped. -/
def text : Constant → String
  | int v => toString v.toInt
  | float bits => (Decimal.Double.ofBits bits).text
  | bool v => if v then "true" else "false"
  | char c => "'" ++ String.singleton c ++ "'"
  | str t => "\"" ++ t ++ "\""
  | null => "null"

/-! ## Order -/

/-- Place of a constant's kind in the order. -/
def rank : Constant → Nat
  | int _ => 0
  | float _ => 1
  | bool _ => 2
  | char _ => 3
  | str _ => 4
  | null => 5

/-- The number that orders constants of one kind other than strings. -/
def number : Constant → Int
  | int v => v.toInt
  | float bits => bits.toNat
  | bool v => v.toNat
  | char c => c.toNat
  | str _ => 0
  | null => 0

/-- The text that orders strings. -/
def content : Constant → String
  | str t => t
  | _ => ""

/-- First by kind, then by value. -/
instance : Ord Constant :=
  ⟨compareLex (compareOn rank) (compareLex (compareOn number) (compareOn content))⟩

instance : Std.TransOrd Constant :=
  inferInstanceAs (Std.TransCmp
    (compareLex (compareOn rank) (compareLex (compareOn number) (compareOn content))))

/-- Constants of equal kind, number and content are equal. -/
theorem eq_of_keys {a b : Constant} (hr : a.rank = b.rank) (hn : a.number = b.number)
    (hc : a.content = b.content) : a = b := by
  cases a <;> cases b <;> simp_all [rank, number, content]
  case int.int => exact Int64.toInt_inj.1 hn
  case float.float => exact UInt64.toNat_inj.1 (by omega)
  case bool.bool x y => cases x <;> cases y <;> simp_all
  case char.char => exact Char.toNat_inj.1 (by omega)

instance : Std.LawfulEqOrd Constant where
  eq_of_compare {a b} h := by
    change compareLex (compareOn rank) (compareLex (compareOn number) (compareOn content)) a b = _
      at h
    simp only [compareLex, Ordering.then_eq_eq] at h
    obtain ⟨hr, hn, hc⟩ := h
    exact eq_of_keys (Std.LawfulEqOrd.eq_of_compare hr) (Std.LawfulEqOrd.eq_of_compare hn)
      (Std.LawfulEqOrd.eq_of_compare hc)

end Constant
end PathFacts
