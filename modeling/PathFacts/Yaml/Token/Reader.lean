import PathFacts.Yaml.Token.Basic

/-!
# Reading tokens

A `TokenReader` goes through a text once, from token to token.  Two things cannot be told
from the characters at hand alone.

* The layout of blocks: an entry further to the right than the block collections that are
  open begins a new one, and a token further to the left ends those that it is left of.
* Keys: a node turns out to be a key when a colon follows it, on the same line and near
  enough.  A `Candidate` remembers where the node began, so that the tokens which were
  missing in front of it can be put in there.  Each pair of brackets has a candidate of its
  own, and those outside of it wait.

`Token.ofText?` reads a whole text; it succeeds on a text whose every token is well formed.
-/

namespace PathFacts.Yaml

/-- A node that becomes a key if a colon follows it. -/
structure Candidate where
  /-- How many tokens stand in front of it. -/
  index : Nat
  /-- Where it begins. -/
  place : Place
  /-- Whether it must be a key, because its block mapping goes on in its column. -/
  required : Bool
deriving DecidableEq, Inhabited

/-- Where the reading of tokens has got to. -/
structure TokenReader where
  cursor : Cursor
  tokens : Array Token := #[]
  /-- The columns of the block collections that are open, innermost first. -/
  blocks : List Nat := []
  /-- Whether a key or an entry of a block collection may begin here. -/
  fresh : Bool := true
  candidate : Option Candidate := none
  /-- The candidates outside of the brackets that are open, innermost first. -/
  outer : List (Option Candidate) := []

namespace TokenReader

/-- Whether a bracket is open. -/
def inFlow (r : TokenReader) : Bool := !r.outer.isEmpty

/-- The column here. -/
def column (r : TokenReader) : Nat := r.cursor.place.column

/-- Adds a token. -/
def push (r : TokenReader) (t : Token) : TokenReader := { r with tokens := r.tokens.push t }

/-- Adds a token, moves behind its `n` characters, and says whether what follows is
fresh. -/
def pushOver (r : TokenReader) (t : Token) (n : Nat) (fresh : Bool) : TokenReader :=
  { r.push t with cursor := r.cursor.forward n, fresh := fresh }

/-! ## Candidates for keys -/

/-- Gives up the candidate; one that must be a key is a fault. -/
def dropCandidate (r : TokenReader) : Option TokenReader :=
  if r.candidate.any (·.required) then none else some { r with candidate := none }

/-- Makes the node that begins here the candidate, where a key may begin. -/
def saveCandidate (r : TokenReader) : Option TokenReader :=
  if r.fresh then do
    let r ← r.dropCandidate
    let required := !r.inFlow && r.blocks.head? == some r.column
    return { r with candidate := some ⟨r.tokens.size, r.cursor.place, required⟩ }
  else some r

/-- Gives up the candidate if it is too far away by now; one that must be a key is a fault.
Those outside of the open brackets can wait, since they only get further away. -/
def dropDistant (r : TokenReader) : Option TokenReader :=
  if r.candidate.any (!·.place.reaches r.cursor.place) then r.dropCandidate else some r

/-! ## Blocks -/

/-- Opens a block collection at a column further to the right than those that are open; its
token becomes the one of number `index`. -/
def openBlock (r : TokenReader) (column index : Nat) (t : Token) : TokenReader :=
  if !r.inFlow && r.blocks.head?.all (· < column) then
    { r with
      blocks := column :: r.blocks
      tokens := r.tokens.insertIdxIfInBounds index t }
  else r

/-- Ends the block collections of the given columns that `ends` says. -/
def endBlocks (ends : Nat → Bool) : List Nat → Array Token → List Nat × Array Token
  | [], tokens => ([], tokens)
  | column :: outer, tokens =>
    if ends column then endBlocks ends outer (tokens.push .blockEnd)
    else (column :: outer, tokens)

/-- Ends block collections outside of brackets. -/
def closeBlocks (r : TokenReader) (ends : Nat → Bool) : TokenReader :=
  if r.inFlow then r
  else
    let (blocks, tokens) := endBlocks ends r.blocks r.tokens
    { r with blocks := blocks, tokens := tokens }

/-- Ends all that a new document or the end of the text ends. -/
def closeAll (r : TokenReader) : Option TokenReader := do
  let r ← (r.closeBlocks fun _ => true).dropCandidate
  return { r with fresh := false }

/-! ## Indicators -/

/-- Reads the mark of `n` characters at the start or the end of a document. -/
def readMark (r : TokenReader) (t : Token) (n : Nat) : Option TokenReader := do
  let r ← r.closeAll
  return r.pushOver t n false

/-- Reads an opening bracket. -/
def readOpening (r : TokenReader) (t : Token) : Option TokenReader := do
  let r ← r.saveCandidate
  return { r with candidate := none, outer := r.candidate :: r.outer }.pushOver t 1 true

/-- Reads a closing bracket. -/
def readClosing (r : TokenReader) (t : Token) : Option TokenReader := do
  let r ← r.dropCandidate
  let r := match r.outer with
    | [] => r
    | candidate :: outer => { r with candidate := candidate, outer := outer }
  return r.pushOver t 1 false

/-- Reads a comma between brackets. -/
def readComma (r : TokenReader) : Option TokenReader := do
  let r ← r.dropCandidate
  return r.pushOver .comma 1 true

/-- Opens the block collection of an entry whose indicator stands here; outside of brackets
an entry may only stand where one may begin. -/
def openEntry (r : TokenReader) (t : Token) : Option TokenReader :=
  if r.inFlow then some r
  else if r.fresh then some (r.openBlock r.column r.tokens.size t)
  else none

/-- Reads a dash in front of an item. -/
def readItem (r : TokenReader) : Option TokenReader := do
  let r ← r.openEntry .blockSequence
  let r ← r.dropCandidate
  return r.pushOver .item 1 true

/-- Reads a question mark in front of a key. -/
def readKey (r : TokenReader) : Option TokenReader := do
  let r ← r.openEntry .blockMapping
  let r ← r.dropCandidate
  return r.pushOver .key 1 (!r.inFlow)

/-- Reads a colon in front of a value.  The candidate becomes a key, and begins a block
mapping where it stands further to the right than the open blocks. -/
def readValue (r : TokenReader) : Option TokenReader :=
  match r.candidate with
  | some c =>
    let r := { r with tokens := r.tokens.insertIdxIfInBounds c.index .key, candidate := none }
    some ((r.openBlock c.place.column c.index .blockMapping).pushOver .value 1 false)
  | none => do
    let r ← r.openEntry .blockMapping
    return r.pushOver .value 1 (!r.inFlow)

/-! ## Properties of nodes -/

/-- Whether the name of an anchor or an alias may end before this text. -/
def endsName (rest : List Char) : Bool :=
  isGap rest || rest.head?.any fun c =>
    c == '?' || c == ':' || c == ',' || c == ']' || c == '}' || c == '%' || c == '@'
      || c == '\x60'

/-- Reads an anchor or an alias: an indicator and a name. -/
def readName (r : TokenReader) (t : String → Token) : Option TokenReader := do
  let r ← r.saveCandidate
  let body := r.cursor.rest.drop 1
  let name := body.takeWhile isNameChar
  if name.isEmpty || !endsName (body.drop name.length) then none
  else return r.pushOver (t (String.ofList name)) (name.length + 1) false

/-- Reads a tag. -/
def readTagName (r : TokenReader) : Option TokenReader := do
  let r ← r.saveCandidate
  let (name, rest) ← readTag r.cursor.rest
  if isGap rest || (r.inFlow && rest.head? == some ',') then
    return { r.push (.tag name) with cursor := r.cursor.forwardTo rest, fresh := false }
  else none

/-! ## Scalars -/

/-- Reads a scalar in quotes. -/
def readQuotedScalar (r : TokenReader) : Option TokenReader := do
  let r ← r.saveCandidate
  let (text, cursor) ← readQuoted r.cursor
  return { r.push (.scalar text .quoted) with cursor := cursor, fresh := false }

/-- Reads a plain scalar.  Its further lines stand to the right of the open blocks. -/
def readPlainScalar (r : TokenReader) : Option TokenReader := do
  let r ← r.saveCandidate
  let least := r.blocks.head?.elim 0 (· + 1)
  let (text, cursor, broken) ← readPlain r.inFlow least r.cursor
  return { r.push (.scalar text .plain) with cursor := cursor, fresh := broken }

/-- Reads a scalar that is a block of lines. -/
def readBlockScalar (r : TokenReader) : Option TokenReader := do
  let r ← r.dropCandidate
  let (header, text, cursor) ← readBlock r.blocks.head? r.cursor
  let style := if header.folded then Style.folded else .literal
  return { r.push (.scalar text style) with cursor := cursor, fresh := true }

/-! ## Directives -/

/-- Reads a number of a version; it has nine digits at most. -/
def readVersionNumber (cs : List Char) : Option (Nat × List Char) :=
  let digits := cs.takeWhile Char.isDigit
  if digits.isEmpty || 9 < digits.length then none
  else some (digits.foldl (fun n c => 10 * n + (c.toNat - 48)) 0, cs.drop digits.length)

/-- Reads the numbers of a version. -/
def readVersion (cs : List Char) : Option (Token × List Char) := do
  let (major, rest) ← readVersionNumber (cs.dropWhile isBlank)
  match rest with
  | '.' :: rest =>
    let (minor, rest) ← readVersionNumber rest
    return (.version major minor, rest)
  | _ => none

/-- Reads a handle and what it stands for. -/
def readHandleStart (cs : List Char) : Option (Token × List Char) := do
  let (handle, rest) ← readHandle (cs.dropWhile isBlank)
  if rest.head?.any isBlank then
    let (start, rest) ← readTagText true (rest.dropWhile isBlank)
    if isGap rest then return (.handle handle (untilZero start), rest) else none
  else none

/-- What is left of a text behind the end of the line, if nothing but blanks and a comment
stands in front of that. -/
def afterLine (cs : List Char) : Option (List Char) :=
  let tail := cs.dropWhile isBlank
  let tail := if tail.head? == some '#' then tail.dropWhile (!isBreak ·) else tail
  match tail with
  | [] => some []
  | '\r' :: '\n' :: rest => some rest
  | c :: rest => if isBreak c then some rest else none

/-- Reads a directive and its whole line. -/
def readDirective (r : TokenReader) : Option TokenReader := do
  let r ← r.closeAll
  let body := r.cursor.rest.drop 1
  let name := body.takeWhile isNameChar
  let rest := body.drop name.length
  if !isGap rest then none
  else
    let (t, rest) ←
      if name = ['Y', 'A', 'M', 'L'] then readVersion rest
      else if name = ['T', 'A', 'G'] then readHandleStart rest
      else none
    let rest ← afterLine rest
    return { r.push t with cursor := ⟨rest, r.cursor.place.nextLine⟩ }

/-! ## All tokens -/

/-- Moves to the next token and ends the blocks that it is left of. -/
def advance (r : TokenReader) : Option TokenReader := do
  let (cursor, fresh) := r.cursor.skip r.inFlow r.fresh
  let r ← { r with cursor := cursor, fresh := fresh }.dropDistant
  return r.closeBlocks (r.column < ·)

/-- Reads the token that begins here. -/
def readToken (r : TokenReader) : Option TokenReader :=
  if r.cursor.atDocumentStart then r.readMark .documentStart 3
  else if r.cursor.atDocumentEnd then r.readMark .documentEnd 3
  else match r.cursor.rest with
    | [] => none
    | c :: rest =>
      if c = '%' && r.column = 0 then r.readDirective
      else if c = '[' then r.readOpening .flowSequence
      else if c = '{' then r.readOpening .flowMapping
      else if c = ']' then r.readClosing .flowSequenceEnd
      else if c = '}' then r.readClosing .flowMappingEnd
      else if c = ',' then r.readComma
      else if c = '-' && isGap rest then r.readItem
      else if c = '?' && (r.inFlow || isGap rest) then r.readKey
      else if c = ':' && (r.inFlow || isGap rest) then r.readValue
      else if c = '*' then r.readName .aliasOf
      else if c = '&' then r.readName .anchor
      else if c = '!' then r.readTagName
      else if (c = '|' || c = '>') && !r.inFlow then r.readBlockScalar
      else if c = '\x27' || c = '"' then r.readQuotedScalar
      else if c = '-' || c = '?' || c = ':' || !(isBlank c || isIndicator c) then
        r.readPlainScalar
      else none

/-- Reads all tokens that are left, at most `fuel` of them. -/
def readAll : (fuel : Nat) → TokenReader → Option TokenReader
  | 0, _ => none
  | fuel + 1, r => do
    let r ← r.advance
    if r.cursor.rest.isEmpty then r.closeAll
    else
      let r ← r.readToken
      readAll fuel r

end TokenReader

/-- The tokens of a text, or nothing where one is malformed.  Each token takes a character,
so the length of the text bounds their number. -/
def Token.ofText? (text : String) : Option (List Token) :=
  let cs := text.toList
  if cs.all isAllowed then do
    let r ← TokenReader.readAll (cs.length + 1) { cursor := ⟨cs, {}⟩ }
    return r.tokens.toList
  else none

end PathFacts.Yaml
