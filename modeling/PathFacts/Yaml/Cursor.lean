/-!
# Reading positions in YAML text

A `Cursor` stands somewhere in a text and knows its place there: the line, the column,
because columns carry the block structure, and the length of what stands in front of it
on its line, because a key may only be so long.

`Cursor.skip` passes over what separates tokens.  It also says whether the next token is
*fresh*: whether a key or an entry of a block collection may begin there.
-/

namespace PathFacts.Yaml

/-! ## Characters -/

/-- The character that a line break stands for: most breaks count as a line feed, the two
Unicode separators stand for themselves. -/
def breakOf (c : Char) : Option Char :=
  if c = '\n' || c = '\r' || c = '\x85' then some '\n'
  else if c = '\u2028' || c = '\u2029' then some c
  else none

/-- Whether `c` breaks a line. -/
def isBreak (c : Char) : Bool := (breakOf c).isSome

/-- Whether `c` is a blank inside a line. -/
def isBlank (c : Char) : Bool := c == ' ' || c == '\t'

/-- Whether no word goes on here: at a blank, at a line break, or at the end. -/
def isGap : List Char → Bool
  | [] => true
  | c :: _ => isBlank c || isBreak c

/-- Whether a text may hold `c`: control characters are refused. -/
def isAllowed (c : Char) : Bool :=
  let n := c.toNat
  n == 0x09 || n == 0x0A || n == 0x0D || (0x20 ≤ n && n ≤ 0x7E) || n == 0x85
    || (0xA0 ≤ n && n ≤ 0xD7FF) || (0xE000 ≤ n && n ≤ 0xFFFD) || 0x10000 ≤ n

/-- Characters of names of anchors, of tag handles and of directives. -/
def isNameChar (c : Char) : Bool := c.isAlphanum || c == '_' || c == '-'

/-- A byte order mark; at the start of any line it is passed over like a blank. -/
def byteOrderMark : Char := '\ufeff'

/-! ## Places -/

/-- A place in a text. -/
structure Place where
  line : Nat := 0
  column : Nat := 0
  /-- Length in bytes of the line up to here. -/
  bytes : Nat := 0
deriving DecidableEq, Inhabited

namespace Place

/-- The place behind a character of the line. -/
def past (p : Place) (c : Char) : Place :=
  { p with column := p.column + 1, bytes := p.bytes + c.utf8Size }

/-- The place behind some characters of the line. -/
def pastAll (p : Place) (cs : List Char) : Place := cs.foldl past p

/-- The start of the next line. -/
def nextLine (p : Place) : Place := { line := p.line + 1 }

/-- Whether `q` lies on the line of `p` and near enough behind it for a key between them:
a key is at most 1024 bytes long. -/
def reaches (p q : Place) : Bool := p.line == q.line && q.bytes ≤ p.bytes + 1024

end Place

/-! ## Cursors -/

/-- A position in a text: what is left of it, and the place where that begins. -/
structure Cursor where
  rest : List Char
  place : Place := {}
deriving DecidableEq, Inhabited

namespace Cursor

/-- Moves over `n` characters of one line. -/
def forward (c : Cursor) (n : Nat) : Cursor :=
  ⟨c.rest.drop n, c.place.pastAll (c.rest.take n)⟩

/-- Moves over the start of the line up to `rest`, which is its end. -/
def forwardTo (c : Cursor) (rest : List Char) : Cursor :=
  c.forward (c.rest.length - rest.length)

/-- Moves over blanks, comments and line breaks.  A tab is a blank only inside of brackets
and behind other text of its line. -/
def skipFrom (inFlow : Bool) : List Char → Place → (fresh inComment : Bool) → Cursor × Bool
  | [], p, fresh, _ => (⟨[], p⟩, fresh)
  | '\r' :: '\n' :: rest, p, fresh, _ => skipFrom inFlow rest p.nextLine (fresh || !inFlow) false
  | c :: rest, p, fresh, inComment =>
    if isBreak c then skipFrom inFlow rest p.nextLine (fresh || !inFlow) false
    else if inComment || c = '#' then skipFrom inFlow rest (p.past c) fresh true
    else if c = ' ' || (c = '\t' && (inFlow || !fresh))
        || (c = byteOrderMark && p.column = 0) then
      skipFrom inFlow rest (p.past c) fresh false
    else (⟨c :: rest, p⟩, fresh)

/-- Moves to the next token, and says whether it is fresh; outside of brackets the first
token of a line always is. -/
def skip (c : Cursor) (inFlow fresh : Bool) : Cursor × Bool :=
  skipFrom inFlow c.rest c.place fresh false

/-- Whether a line begins here with the word `mark`. -/
def startsLineWith (c : Cursor) (mark : List Char) : Bool :=
  c.place.column == 0 && mark.isPrefixOf c.rest && isGap (c.rest.drop mark.length)

/-- Whether a document begins here. -/
def atDocumentStart (c : Cursor) : Bool := c.startsLineWith ['-', '-', '-']

/-- Whether a document ends here. -/
def atDocumentEnd (c : Cursor) : Bool := c.startsLineWith ['.', '.', '.']

end Cursor
end PathFacts.Yaml
