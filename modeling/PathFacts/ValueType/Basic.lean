import PathFacts.Constant
import PathFacts.Facet
import PathFacts.Interval

/-!
# What is known about a value

A `ValueType` describes a set of values: none, one constant, an interval of integers,
the references with certain facts, or all.

                     top
           /          |           \
      range a..b   reference    other constants
           |          |            |
      constant int  constant null or string
           \          |           /
                    bottom

An integer constant is also an interval, and null and strings are also references, so
joins across those kinds stay below top.  All other mixed joins are top, all other
mixed meets are bottom.
-/

namespace PathFacts

/-- What is known about being null. -/
inductive Nullability where
  | isNull
  | notNull
  | unknown
deriving DecidableEq, Inhabited

/-- Facts about a reference; `none` means that nothing is known. -/
structure ReferenceInfo where
  nullability : Nullability := .unknown
  /-- For an optional-like container, whether a value is present. -/
  present : Option Bool := none
  /-- Length or size of an array, a string or a collection. -/
  size : Option Interval := none
deriving DecidableEq, Inhabited

/-- A set of values that an expression may have. -/
inductive ValueType where
  | bottom
  | constant (value : Constant)
  | range (interval : Interval)
  | reference (facts : ReferenceInfo)
  | top
deriving DecidableEq, Inhabited

/-! ## Facts about references -/

/-- Number of characters of a text as a size; no text in memory has more characters
than the largest 64-bit integer. -/
def charCount (text : String) : Int64 :=
  Int64.ofNat (min text.length Int64.maxValue.toNatClampNeg)

namespace Nullability

/-- Knowledge that holds in either case. -/
def join (a b : Nullability) : Nullability := if a = b then a else unknown

/-- Knowledge that holds in both cases, if they agree. -/
def meet? : Nullability → Nullability → Option Nullability
  | unknown, b => some b
  | a, unknown => some a
  | a, b => if a = b then some a else none

end Nullability

namespace ReferenceInfo

/-- Nothing is known but nullability. -/
def ofNullability (n : Nullability) : ReferenceInfo := { nullability := n }

/-- Facts that hold of both references. -/
def join (a b : ReferenceInfo) : ReferenceInfo where
  nullability := a.nullability.join b.nullability
  present := if a.present = b.present then a.present else none
  size := match a.size, b.size with
    | some r, some s => some (r.join s)
    | _, _ => none

/-- Presence known from either side, if they agree. -/
def meetPresent? : Option Bool → Option Bool → Option (Option Bool)
  | none, q => some q
  | p, none => some p
  | some p, some q => if p = q then some (some p) else none

/-- Size known from either side, if they overlap. -/
def meetSize? : Option Interval → Option Interval → Option (Option Interval)
  | none, s => some s
  | r, none => some r
  | some r, some s => (r.meet? s).map some

/-- All facts of both references, if one reference can have them. -/
def meet? (a b : ReferenceInfo) : Option ReferenceInfo := do
  let nullability ← a.nullability.meet? b.nullability
  let present ← meetPresent? a.present b.present
  let size ← meetSize? a.size b.size
  return ⟨nullability, present, size⟩

/-- The same facts with nothing known about null. -/
def forgetNullability (f : ReferenceInfo) : ReferenceInfo := { f with nullability := .unknown }

/-- Whether a reference with these facts can be the constant `c`.  Null has neither
presence nor size, and a string has no presence. -/
def admits (f : ReferenceInfo) : Constant → Bool
  | .null => f.nullability != .notNull && f.present.isNone && f.size.isNone
  | .str t => f.nullability != .isNull && f.present.isNone && f.size.all (·.contains (charCount t))
  | _ => false

end ReferenceInfo

namespace ValueType

/-! ## Construction -/

/-- The one value null. -/
def null : ValueType := constant .null

/-- Any object but null. -/
def notNull : ValueType := reference (.ofNullability .notNull)

/-- Any reference. -/
def nullable : ValueType := reference {}

/-! ## Views -/

/-- Integer constants and ranges as an interval; characters are kept apart. -/
def interval? : ValueType → Option Interval
  | constant (.int v) => some (.singleton v)
  | range r => some r
  | _ => none

/-- Null, strings and references as facts about a reference. -/
def reference? : ValueType → Option ReferenceInfo
  | constant .null => some (.ofNullability .isNull)
  | constant (.str t) => some ⟨.notNull, none, some (.singleton (charCount t))⟩
  | reference f => some f
  | _ => none

/-- Whether the type describes references. -/
def isReference (t : ValueType) : Bool := t.reference?.isSome

/-- Whether the type is known to leave null out; bottom and top are not. -/
def excludesNull : ValueType → Bool
  | constant c => !c.isNull
  | range _ => true
  | reference f => f.nullability == .notNull
  | bottom | top => false

/-- Whether nothing is known. -/
def isTop (t : ValueType) : Bool := t == top

/-- The constant described, if the type describes exactly one value. -/
def constant? : ValueType → Option Constant
  | constant c => some c
  | range r => r.single?.map .int
  | _ => none

/-- The boolean constant described. -/
def bool? (t : ValueType) : Option Bool :=
  match t.constant? with
  | some (.bool b) => some b
  | _ => none

/-- The interval of the integral values described. -/
def integers? : ValueType → Option Interval
  | constant c => c.integer?.map .singleton
  | range r => some r
  | _ => none

/-! ## Membership -/

/-- Whether the constant `c` is among the values described. -/
def admits (t : ValueType) (c : Constant) : Bool :=
  match t with
  | top => true
  | bottom => false
  | constant own => own == c
  | range r => match c with
    | .int v => r.contains v
    | _ => false
  | reference f => f.admits c

/-! ## Lattice operations -/

/-- Join of two types, neither of them bottom or top. -/
def joinProper (a b : ValueType) : ValueType :=
  match a.interval?, b.interval? with
  | some r, some s => range (r.join s)
  | _, _ =>
    match a.reference?, b.reference? with
    | some f, some g => reference (f.join g)
    | _, _ => top

/-- The least type above both. -/
def join (a b : ValueType) : ValueType :=
  if a = b then a
  else match a, b with
    | bottom, x => x
    | x, bottom => x
    | top, _ => top
    | _, top => top
    | x, y => joinProper x y

/-- The greatest type below both. -/
def meet (a b : ValueType) : ValueType :=
  if a = b then a
  else match a, b with
    | top, x => x
    | x, top => x
    | bottom, _ => bottom
    | _, bottom => bottom
    | constant c, t => if t.admits c then constant c else bottom
    | t, constant c => if t.admits c then constant c else bottom
    | range r, range s => ((r.meet? s).map range).getD bottom
    | reference f, reference g => ((f.meet? g).map reference).getD bottom
    | _, _ => bottom

/-- The order of the lattice. -/
instance : LE ValueType := ⟨fun a b => a.join b = b⟩

instance (a b : ValueType) : Decidable (a ≤ b) := inferInstanceAs (Decidable (_ = _))

/-- The same type with nothing known about null. -/
def forgetNullability : ValueType → ValueType
  | reference f => reference f.forgetNullability
  | constant .null => nullable
  | t => t

/-! ## Objects known by a facet -/

/-- Presence that follows from the type of an optional's content. -/
def presence (content : ValueType) : Option Bool :=
  if content = null then some false
  else if content.excludesNull then some true
  else none

/-- The type of an object whose `facet` has type `t`: such an object is not null, a
size cuts the range to what can be a size, and an optional's content tells whether
one is present. -/
def ofFacet (facet : Facet) (t : ValueType) : ValueType :=
  if t = bottom then bottom
  else if facet.isSize then
    match t.interval? with
    | none => notNull
    | some r =>
      match r.meet? .sizes with
      | none => bottom
      | some size => reference ⟨.notNull, none, some size⟩
  else if facet = .optionalContent then reference ⟨.notNull, t.presence, none⟩
  else notNull

end ValueType
end PathFacts
