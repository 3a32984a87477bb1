import PathFacts.Yaml.Token.Basic

/-!
# Nodes of YAML documents

What a document says, without its layout.  An alias is a node of its own, since it may
stand inside the node that it stands for.

Typed readings follow at the end: null, booleans and unsigned integers.  They look at
plain scalars, whatever their tag, and at literal blocks that carry the tag of the type.
-/

namespace PathFacts.Yaml

/-- A node of a document. -/
inductive Node where
  | scalar (text : String) (style : Style) (tag : Option Octets)
  | sequence (items : List Node)
  | mapping (entries : List (Node × Node))
  /-- An alias of the node whose anchor has this number. -/
  | aliasOf (anchor : Nat)
deriving Inhabited

namespace Node

/-- Nothing is written where a node could stand. -/
def empty : Node := scalar "" .plain none

/-- The text of a scalar of any style. -/
def text? : Node → Option String
  | scalar text _ _ => some text
  | _ => none

/-- The text of a scalar that may be read as a value of the standard type `type`. -/
def valueText? (type : String) : Node → Option String
  | scalar text .plain _ => some text
  | scalar text .literal (some tag) => if tag = standardTag ++ octets type then some text else none
  | _ => none

/-- Whether a word means null. -/
def isNullWord (text : String) : Bool :=
  text == "null" || text == "Null" || text == "NULL" || text == "~"

/-- The boolean that a word means. -/
def boolOfWord? (text : String) : Option Bool :=
  if text = "true" || text = "True" || text = "TRUE" then some true
  else if text = "false" || text = "False" || text = "FALSE" then some false
  else none

/-- The value of a digit in a base of at most sixteen. -/
def digit? (base : Nat) (c : Char) : Option Nat :=
  let value :=
    if '0' ≤ c && c ≤ '9' then some (c.toNat - 48)
    else if 'a' ≤ c && c ≤ 'f' then some (c.toNat - 87)
    else if 'A' ≤ c && c ≤ 'F' then some (c.toNat - 55)
    else none
  value.filter (· < base)

/-- The number written by one or more digits. -/
def digits? (base : Nat) : List Char → Option Nat
  | [] => none
  | cs => cs.foldlM (fun n c => (digit? base c).map (base * n + ·)) 0

/-- Whether a word consists of digits with a zero in front; such a word is a text. -/
def hasLeadingZero : List Char → Bool
  | '0' :: c :: rest => (c :: rest).all Char.isDigit
  | _ => false

/-- The number that a word means: decimal, or in base sixteen, eight or two behind `0x`,
`0o` or `0b`; a plus sign may stand in front. -/
def unsignedOfWord? (cs : List Char) : Option Nat :=
  let body := match cs with
    | '+' :: rest => rest
    | _ => cs
  match body with
  | '0' :: 'x' :: rest => digits? 16 rest
  | '0' :: 'o' :: rest => digits? 8 rest
  | '0' :: 'b' :: rest => digits? 2 rest
  | _ => if hasLeadingZero body then none else digits? 10 body

/-! ## Typed readings -/

/-- A boolean. -/
def bool? (n : Node) : Option Bool := (n.valueText? "bool").bind boolOfWord?

/-- An unsigned integer below `bound`. -/
def unsigned? (bound : Nat) (n : Node) : Option Nat :=
  ((n.valueText? "int").bind fun text => unsignedOfWord? text.toList).filter (· < bound)

/-- A value that may be null: nothing and the words for null are. -/
def optional? {α : Type} (read : Node → Option α) : Node → Option (Option α)
  | scalar text .plain none =>
    if text.isEmpty || isNullWord text then some none
    else (read (scalar text .plain none)).map some
  | scalar text .plain (some tag) =>
    if tag = standardTag ++ octets "null" then
      if isNullWord text then some none else none
    else (read (scalar text .plain (some tag))).map some
  | n => (read n).map some

/-- The entries of a mapping; nothing reads as no entries. -/
def entries? : Node → Option (List (Node × Node))
  | scalar text .plain _ => if text.isEmpty then some [] else none
  | mapping entries => some entries
  | _ => none

end Node
end PathFacts.Yaml
