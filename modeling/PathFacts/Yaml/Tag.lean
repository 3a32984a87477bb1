import PathFacts.Yaml.Scalar

/-!
# Tags of YAML nodes

A tag is a sequence of octets.  It is written in full, as in `!<tag:example,2000:a>`, or as
a handle and a rest, as in `!!int` or `!local`, where the handle stands for the start of
the tag.  Characters may be written as `%` and two hexadecimal digits per octet.  An octet
of zero ends a tag; what is written behind it is read but does not count.
-/

namespace PathFacts.Yaml

/-- A tag, or a part of one. -/
abbrev Octets := List UInt8

/-- The octets of a text in ASCII. -/
def octets (text : String) : Octets := text.toList.map fun c => UInt8.ofNat c.toNat

/-- The start of the tags of the standard types. -/
def standardTag : Octets := octets "tag:yaml.org,2002:"

/-- How a tag is written in front of a node. -/
inductive TagName where
  | full (tag : Octets)
  | short (handle : String) (rest : Octets)
deriving DecidableEq, Inhabited

namespace TagName

/-- The tag, given what each handle stands for; a handle must be known. -/
def tag? (handles : List (String × Octets)) : TagName → Option Octets
  | full tag => some tag
  | short handle rest => (handles.lookup handle).map (· ++ rest)

end TagName

/-! ## Characters of tags -/

/-- Characters of tags; some more are allowed where no bracket can follow. -/
def isTagChar (full : Bool) (c : Char) : Bool :=
  isNameChar c || c == ';' || c == '/' || c == '?' || c == ':' || c == '@' || c == '&'
    || c == '=' || c == '+' || c == '$' || c == '.' || c == '!' || c == '~' || c == '*'
    || c == '\x27' || c == '(' || c == ')'
    || (full && (c == ',' || c == '[' || c == ']'))

/-- How many octets must follow the first octet of a character. -/
def following? (n : Nat) : Option Nat :=
  if n < 0x80 then some 0
  else if 0xC0 ≤ n && n < 0xE0 then some 1
  else if 0xE0 ≤ n && n < 0xF0 then some 2
  else if 0xF0 ≤ n && n < 0xF8 then some 3
  else none

/-- Whether an octet is one of those that follow the first. -/
def isFollowing (n : Nat) : Bool := 0x80 ≤ n && n < 0xC0

/-- Reads the characters of a tag as octets; `pending` octets of a character are still to
come, and `done` were read, last one first. -/
def tagTextFrom (full : Bool) : List Char → (pending : Nat) → (done : Octets) →
    Option (Octets × List Char)
  | '%' :: a :: b :: rest, pending, done =>
    match hexNumber? [a, b], pending with
    | none, _ => none
    | some n, 0 =>
      match following? n with
      | none => none
      | some more => tagTextFrom full rest more (UInt8.ofNat n :: done)
    | some n, more + 1 =>
      if isFollowing n then tagTextFrom full rest more (UInt8.ofNat n :: done) else none
  | _, _ + 1, _ => none
  | '%' :: _, 0, _ => none
  | [], 0, done => some (done.reverse, [])
  | c :: rest, 0, done =>
    if isTagChar full c then tagTextFrom full rest 0 (UInt8.ofNat c.toNat :: done)
    else some (done.reverse, c :: rest)

/-- Reads the characters of a tag, of which there must be one at least. -/
def readTagText (full : Bool) (cs : List Char) : Option (Octets × List Char) :=
  (tagTextFrom full cs 0 []).filter (!·.1.isEmpty)

/-- The octets of a tag in front of an octet of zero. -/
def untilZero (tag : Octets) : Octets := tag.takeWhile (· != 0)

/-! ## Handles and tags -/

/-- Reads a handle between exclamation marks, or a single exclamation mark. -/
def readHandle (cs : List Char) : Option (String × List Char) :=
  match cs with
  | '!' :: rest =>
    let name := rest.takeWhile isNameChar
    match rest.drop name.length with
    | '!' :: tail => some (String.ofList ('!' :: name ++ ['!']), tail)
    | tail => if name.isEmpty then some ("!", tail) else none
  | _ => none

/-- Reads a tag as it is written in front of a node; a single exclamation mark is a tag of
its own. -/
def readTag (cs : List Char) : Option (TagName × List Char) :=
  match cs with
  | '!' :: '<' :: rest => do
    let (tag, rest) ← readTagText true rest
    if rest.head? == some '>' then return (.full (untilZero tag), rest.drop 1) else none
  | _ =>
    match readHandle cs with
    | some ("!", rest) => do
      let (tag, rest) ← tagTextFrom false rest 0 []
      if (untilZero tag).isEmpty then return (.full (octets "!"), rest)
      else return (.short "!" (untilZero tag), rest)
    | some (handle, rest) => do
      let (tag, rest) ← readTagText false rest
      return (.short handle (untilZero tag), rest)
    | none => do
      let (tag, rest) ← tagTextFrom false (cs.drop 1) 0 []
      return (.short "!" (untilZero tag), rest)

end PathFacts.Yaml
