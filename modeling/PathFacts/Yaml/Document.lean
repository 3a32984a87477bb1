import PathFacts.Yaml.Node.Reader
import PathFacts.Yaml.Token.Reader

/-!
# YAML documents

A text holds at most one document: directives and a mark at its start, which may be left
out, a node, and marks at its end.  A text without any token holds the empty node.
`Document.ofText?` is how `Yaml.codec` takes a text apart.

`Document.follow` gives the node that an alias stands for.  Aliases are followed where a
value is looked at, never before: an alias may stand inside the node it stands for, and
one that nobody looks at need not have a sensible value.
-/

namespace PathFacts.Yaml

/-- A document. -/
structure Document where
  root : Node
  /-- The nodes with an anchor, in the order in which they begin, each with the number of
  its anchor. -/
  anchored : Array (Nat × Node) := #[]
deriving Inhabited

namespace Document

/-- The node that `n` stands for: an alias stands for the last node of its number in the
whole document. -/
def follow (d : Document) : Node → Node
  | .aliasOf number =>
    match d.anchored.toList.reverse.lookup number with
    | some n => n
    | none => .aliasOf number
  | n => n

/-- The entries of a mapping whose keys are words. -/
def fields? (d : Document) (n : Node) : Option (List (String × Node)) := do
  let entries ← (d.follow n).entries?
  entries.mapM fun (key, value) => (d.follow key).text?.map fun k => (k, d.follow value)

/-! ## Directives -/

/-- The directives in front of a document. -/
structure Directives where
  version : Option (Nat × Nat) := none
  handles : List (String × Octets) := []

/-- Whether documents of a version can be read. -/
def isReadable (major minor : Nat) : Bool := major == 1 && (minor == 1 || minor == 2)

/-- Reads the directives in front of a document: the version at most once, and what each
handle stands for at most once. -/
def readDirectives : List Token → Directives → Option (Directives × List Token)
  | .version major minor :: rest, d =>
    if d.version.isSome || !isReadable major minor then none
    else readDirectives rest { d with version := some (major, minor) }
  | .handle name start :: rest, d =>
    if (d.handles.lookup name).isSome then none
    else readDirectives rest { d with handles := (name, start) :: d.handles }
  | ts, d => some (d, ts)

/-- What handles stand for unless a directive says otherwise. -/
def standardHandles : List (String × Octets) := [("!", octets "!"), ("!!", standardTag)]

/-! ## Reading -/

/-- Whether the content of a document is left out in front of these tokens. -/
def hasNoContent : List Token → Bool
  | [] => true
  | .version _ _ :: _ => true
  | .handle _ _ :: _ => true
  | .documentStart :: _ => true
  | .documentEnd :: _ => true
  | _ => false

/-- Reads the node of a document and the marks at its end, behind which nothing stands.  Of
the calls that are nested in one another at least every fourth takes a token, so the number
of tokens bounds their depth. -/
def readContent (handles : List (String × Octets)) (ts : List Token) : Option Document := do
  let r : NodeReader := { tokens := ts, handles := handles }
  let (root, r) ← r.node (4 * ts.length + 8) true false
  if r.tokens.all (· == .documentEnd) then return ⟨root, r.anchored⟩ else none

/-- The document that tokens make up.  Directives need the mark of a start behind them, and
only behind that mark the content may be left out. -/
def ofTokens? : List Token → Option Document
  | [] => some ⟨.empty, #[]⟩
  | ts => do
    let (d, rest) ← readDirectives ts {}
    let handles := d.handles ++ standardHandles
    match rest with
    | .documentStart :: rest =>
      if hasNoContent rest then
        if rest.all (· == .documentEnd) then return ⟨.empty, #[]⟩ else none
      else readContent handles rest
    | _ => if rest.length < ts.length then none else readContent handles ts

/-- The document of a text, or nothing where the text is malformed or holds a second
document. -/
def ofText? (text : String) : Option Document := (Token.ofText? text).bind ofTokens?

end Document
end PathFacts.Yaml
