import PathFacts.Yaml.Node.Basic

/-!
# Reading nodes from tokens

A node begins with its properties, an anchor and a tag, and goes on with its content: a
scalar, a collection in brackets, or a collection laid out in lines.  Where a node may
stand and none is written, the empty plain scalar is read.

A block sequence that is the value of a key may stand in the column of the key.  It has no
token at its start then, and ends where no dash follows.
-/

namespace PathFacts.Yaml

/-- What stands in front of the content of a node. -/
structure Properties where
  anchor : Option String := none
  tag : Option TagName := none
deriving DecidableEq, Inhabited

/-- Whether nothing stands in front of the content. -/
def Properties.isEmpty (p : Properties) : Bool := p.anchor.isNone && p.tag.isNone

/-- Where the reading of nodes has got to. -/
structure NodeReader where
  tokens : List Token
  /-- What each handle of tags stands for. -/
  handles : List (String × Octets)
  /-- The names of anchors so far, each with the number that it means now. -/
  names : List (String × Nat) := []
  /-- The nodes with an anchor, in the order in which they begin, each with the number of
  its anchor. -/
  anchored : Array (Nat × Node) := #[]

namespace NodeReader

/-- The token that comes next, if there is one. -/
def next? (r : NodeReader) : Option Token := r.tokens.head?

/-- Moves over a token. -/
def skip (r : NodeReader) : NodeReader := { r with tokens := r.tokens.drop 1 }

/-- Whether one of some tokens comes next. -/
def isBefore (r : NodeReader) (ts : List Token) : Bool := r.next?.any ts.contains

/-! ## Anchors and tags -/

/-- Enters the anchor of a node that begins, if it has one, and returns its place among the
anchored nodes.  The number of an anchor is that of the names in front of it; a name that is
given again takes a number anew, and that may be one that a later name gets as well. -/
def enter (r : NodeReader) : Option String → Option Nat × NodeReader
  | none => (none, r)
  | some name =>
    let number := r.names.length
    (some r.anchored.size,
      { r with
        names := (name, number) :: r.names.filter (·.1 != name)
        anchored := r.anchored.push (number, .empty) })

/-- Enters the node of an anchor, at its place. -/
def leave (r : NodeReader) (place : Option Nat) (n : Node) : NodeReader :=
  match place with
  | none => r
  | some i => { r with anchored := r.anchored.modify i fun (number, _) => (number, n) }

/-- Reads an anchor, if one comes next. -/
def readAnchor (r : NodeReader) (p : Properties) : Properties × NodeReader :=
  match r.next? with
  | some (.anchor name) => ({ p with anchor := some name }, r.skip)
  | _ => (p, r)

/-- Reads a tag, if one comes next. -/
def readTag (r : NodeReader) (p : Properties) : Properties × NodeReader :=
  match r.next? with
  | some (.tag name) => ({ p with tag := some name }, r.skip)
  | _ => (p, r)

/-- Reads an anchor and a tag, each if it is there and in either order. -/
def readProperties (r : NodeReader) : Properties × NodeReader :=
  match r.next? with
  | some (.tag _) => let (p, r) := r.readTag {}; r.readAnchor p
  | _ => let (p, r) := r.readAnchor {}; r.readTag p

/-- The tag of a node, if it has one; its handle must be known. -/
def tag? (r : NodeReader) (p : Properties) : Option (Option Octets) :=
  match p.tag with
  | none => some none
  | some name => (name.tag? r.handles).map some

/-! ## Nodes -/

mutual

/-- Reads a node.  Collections laid out in lines may stand where `block` says, and a block
sequence without a token at its start where `flat` says. -/
def node : (fuel : Nat) → (block flat : Bool) → NodeReader → Option (Node × NodeReader)
  | 0, _, _, _ => none
  | fuel + 1, block, flat, r =>
    match r.next? with
    | some (.aliasOf name) => (r.names.lookup name).map fun number => (.aliasOf number, r.skip)
    | _ => do
      let (p, r) := r.readProperties
      let tag ← r.tag? p
      let (place, r) := r.enter p.anchor
      let (n, r) ← content fuel block flat (!p.isEmpty) tag r
      return (n, r.leave place n)

/-- Reads the content of a node; nothing at all is content where properties stand in front
of it. -/
def content : (fuel : Nat) → (block flat : Bool) → (mayBeEmpty : Bool) →
    (tag : Option Octets) → NodeReader → Option (Node × NodeReader)
  | 0, _, _, _, _, _ => none
  | fuel + 1, block, flat, mayBeEmpty, tag, r =>
    match r.next?, block, flat with
    | some .item, _, true => do
      let (items, r) ← flatItems fuel [] r
      return (.sequence items.reverse, r)
    | some (.scalar text style), _, _ => some (.scalar text style tag, r.skip)
    | some .flowSequence, _, _ => do
      let (items, r) ← flowItems fuel true [] r.skip
      return (.sequence items.reverse, r)
    | some .flowMapping, _, _ => do
      let (entries, r) ← flowEntries fuel true [] r.skip
      return (.mapping entries.reverse, r)
    | some .blockSequence, true, _ => do
      let (items, r) ← blockItems fuel [] r.skip
      return (.sequence items.reverse, r)
    | some .blockMapping, true, _ => do
      let (entries, r) ← blockEntries fuel [] r.skip
      return (.mapping entries.reverse, r)
    | _, _, _ => if mayBeEmpty then some (.scalar "" .plain tag, r) else none

/-- Reads a node, or nothing in front of one of the tokens `ends`. -/
def nodeOrEmpty : (fuel : Nat) → (block flat : Bool) → (ends : List Token) → NodeReader →
    Option (Node × NodeReader)
  | 0, _, _, _, _ => none
  | fuel + 1, block, flat, ends, r =>
    if r.isBefore ends then some (.empty, r) else node fuel block flat r

/-- Reads the value of a key, if there is one. -/
def valueOrEmpty : (fuel : Nat) → (block : Bool) → (ends : List Token) → NodeReader →
    Option (Node × NodeReader)
  | 0, _, _, _ => none
  | fuel + 1, block, ends, r =>
    if r.isBefore [.value] then nodeOrEmpty fuel block block ends r.skip else some (.empty, r)

/-- Reads the items of a block sequence up to its end, last one first. -/
def blockItems : (fuel : Nat) → List Node → NodeReader → Option (List Node × NodeReader)
  | 0, _, _ => none
  | fuel + 1, items, r =>
    match r.next? with
    | some .item => do
      let (n, r) ← nodeOrEmpty fuel true false [.item, .blockEnd] r.skip
      blockItems fuel (n :: items) r
    | some .blockEnd => some (items, r.skip)
    | _ => none

/-- Reads the items of a sequence in the column of its key, last one first. -/
def flatItems : (fuel : Nat) → List Node → NodeReader → Option (List Node × NodeReader)
  | 0, _, _ => none
  | fuel + 1, items, r =>
    if r.isBefore [.item] then do
      let (n, r) ← nodeOrEmpty fuel true false [.item, .key, .value, .blockEnd] r.skip
      flatItems fuel (n :: items) r
    else some (items, r)

/-- Reads the entries of a block mapping up to its end, last one first. -/
def blockEntries : (fuel : Nat) → List (Node × Node) → NodeReader →
    Option (List (Node × Node) × NodeReader)
  | 0, _, _ => none
  | fuel + 1, entries, r =>
    match r.next? with
    | some .key => do
      let (key, r) ← nodeOrEmpty fuel true true [.key, .value, .blockEnd] r.skip
      let (value, r) ← valueOrEmpty fuel true [.key, .value, .blockEnd] r
      blockEntries fuel ((key, value) :: entries) r
    | some .blockEnd => some (entries, r.skip)
    | _ => none

/-- Reads the items of a sequence up to its closing bracket, last one first.  A key with its
value is a mapping of one entry. -/
def flowItems : (fuel : Nat) → (first : Bool) → List Node → NodeReader →
    Option (List Node × NodeReader)
  | 0, _, _, _ => none
  | fuel + 1, first, items, r =>
    if r.isBefore [.flowSequenceEnd] then some (items, r.skip)
    else if !first && !r.isBefore [.comma] then none
    else
      let r := if first then r else r.skip
      match r.next? with
      | some .flowSequenceEnd => some (items, r.skip)
      | some .key => do
        -- behind a question mark alone, the token that ends the key goes with it
        let r := r.skip
        let (key, r) ←
          if r.isBefore [.value, .comma, .flowSequenceEnd] then some (.empty, r.skip)
          else node fuel false false r
        let (value, r) ← valueOrEmpty fuel false [.comma, .flowSequenceEnd] r
        flowItems fuel false (.mapping [(key, value)] :: items) r
      | _ => do
        let (n, r) ← node fuel false false r
        flowItems fuel false (n :: items) r

/-- Reads the entries of a mapping up to its closing brace, last one first. -/
def flowEntries : (fuel : Nat) → (first : Bool) → List (Node × Node) → NodeReader →
    Option (List (Node × Node) × NodeReader)
  | 0, _, _, _ => none
  | fuel + 1, first, entries, r =>
    if r.isBefore [.flowMappingEnd] then some (entries, r.skip)
    else if !first && !r.isBefore [.comma] then none
    else
      let r := if first then r else r.skip
      match r.next? with
      | some .flowMappingEnd => some (entries, r.skip)
      | some .key => do
        let (key, r) ← nodeOrEmpty fuel false false [.value, .comma, .flowMappingEnd] r.skip
        let (value, r) ← valueOrEmpty fuel false [.comma, .flowMappingEnd] r
        flowEntries fuel false ((key, value) :: entries) r
      | _ => do
        let (key, r) ← node fuel false false r
        flowEntries fuel false ((key, .empty) :: entries) r

end

end NodeReader
end PathFacts.Yaml
