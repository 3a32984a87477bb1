import PathFacts.Yaml.Cursor

/-!
# Scalars of YAML text

A scalar is written plainly, in quotes, or as a block of lines.  Line breaks inside plain
and quoted scalars are folded: one break reads as a space, and of several all but the
first are kept.

Each reader takes the cursor at the first character of the scalar and returns the text
that was read with the cursor behind it, or nothing where the scalar is malformed.  The
reader of plain scalars also says whether it went on to a new line.
-/

namespace PathFacts.Yaml

/-! ## Folding -/

/-- Blanks and line breaks between two words of a scalar. -/
structure Fold where
  /-- Blanks since the last word, last one first, as long as no line was broken. -/
  blanks : List Char := []
  /-- Whether a line was broken. -/
  broken : Bool := false
  /-- The first line break; none where it was escaped. -/
  first : Option Char := none
  /-- Further line breaks, last one first. -/
  more : List Char := []

namespace Fold

/-- Adds a blank; blanks at the start of a line are dropped. -/
def blank (f : Fold) (c : Char) : Fold := if f.broken then f else { f with blanks := c :: f.blanks }

/-- Adds a line break. -/
def lineBreak (f : Fold) (c : Char) : Fold :=
  if f.broken then { f with more := c :: f.more }
  else { broken := true, first := some c }

/-- Puts what the words are joined by in front of the reversed text `done`. -/
def onto (f : Fold) (done : List Char) : List Char :=
  if f.broken then
    match f.first with
    | some '\n' => if f.more.isEmpty then ' ' :: done else f.more ++ done
    | some c => f.more ++ c :: done
    | none => f.more ++ done
  else f.blanks ++ done

end Fold

/-- What a scalar reader has got: the reversed text and where it stands. -/
structure Progress where
  done : List Char := []
  fold : Fold := {}
  place : Place

namespace Progress

/-- Adds a character of a word, written as `source`. -/
def word (p : Progress) (c : Char) (source : List Char) : Progress :=
  { done := c :: p.fold.onto p.done, fold := {}, place := p.place.pastAll source }

/-- Adds a blank. -/
def blank (p : Progress) (c : Char) : Progress :=
  { p with fold := p.fold.blank c, place := p.place.past c }

/-- Adds a line break. -/
def lineBreak (p : Progress) (c : Char) : Progress :=
  { p with fold := p.fold.lineBreak c, place := p.place.nextLine }

/-- Breaks the line without a trace in the text. -/
def escapedBreak (p : Progress) : Progress :=
  { done := p.fold.onto p.done, fold := { broken := true }, place := p.place.nextLine }

/-- The text up to the last word. -/
def text (p : Progress) : String := String.ofList p.done.reverse

/-- The text with the blanks and line breaks that follow the last word. -/
def fullText (p : Progress) : String := String.ofList (p.fold.onto p.done).reverse

/-- Whether a mark between documents stands here. -/
def atDocumentMark (p : Progress) (rest : List Char) : Bool :=
  let c : Cursor := ⟨rest, p.place⟩
  c.atDocumentStart || c.atDocumentEnd

end Progress

/-! ## Plain scalars -/

/-- The brackets and the comma, which end a plain scalar inside of brackets. -/
def isFlowIndicator (c : Char) : Bool :=
  c == ',' || c == '[' || c == ']' || c == '{' || c == '}'

/-- Indicators that a plain scalar cannot begin with. -/
def isIndicator (c : Char) : Bool :=
  isFlowIndicator c || c == '-' || c == '?' || c == ':' || c == '#' || c == '&' || c == '*'
    || c == '!' || c == '|' || c == '>' || c == '\x27' || c == '"' || c == '%' || c == '@'
    || c == '\x60'

/-- Whether a colon here, inside of brackets, is refused. -/
def isMisplacedColon (inFlow : Bool) (c : Char) (rest : List Char) : Bool :=
  inFlow && c == ':' && rest.head?.any fun d => d == '?' || isFlowIndicator d

/-- Whether a plain scalar ends before `c`. -/
def endsPlain (inFlow : Bool) (c : Char) (rest : List Char) : Bool :=
  (c == ':' && isGap rest) || (inFlow && isFlowIndicator c)

/-- Whether a plain scalar ends before the word that begins here: at a comment, at a mark
between documents, and where a line is not indented enough. -/
def stopsBeforeWord (inFlow : Bool) (least : Nat) (p : Progress) (rest : List Char) : Bool :=
  rest.head? == some '#' || p.atDocumentMark rest
    || (p.fold.broken && !inFlow && p.place.column < least)

/-- Reads a plain scalar whose further lines begin at column `least` or later.  The cursor
it leaves behind stands after the blanks and line breaks that follow the last word; the
flag says whether a line was broken there. -/
def plainFrom (inFlow : Bool) (least : Nat) :
    List Char → (inWord : Bool) → Progress → Option (String × Cursor × Bool)
  | [], _, p => some (p.text, ⟨[], p.place⟩, p.fold.broken)
  | '\r' :: '\n' :: rest, _, p => plainFrom inFlow least rest false (p.lineBreak '\n')
  | c :: rest, inWord, p =>
    match breakOf c with
    | some b => plainFrom inFlow least rest false (p.lineBreak b)
    | none =>
      if isBlank c then
        if p.fold.broken && p.place.column < least && c == '\t' then none
        else plainFrom inFlow least rest false (p.blank c)
      else if !inWord && stopsBeforeWord inFlow least p (c :: rest) then
        some (p.text, ⟨c :: rest, p.place⟩, p.fold.broken)
      else if isMisplacedColon inFlow c rest then none
      else if endsPlain inFlow c rest then
        some (p.text, ⟨c :: rest, p.place⟩, p.fold.broken)
      else plainFrom inFlow least rest true (p.word c [c])

/-- Reads a plain scalar. -/
def readPlain (inFlow : Bool) (least : Nat) (c : Cursor) : Option (String × Cursor × Bool) :=
  plainFrom inFlow least c.rest false { place := c.place }

/-! ## Quoted scalars -/

/-- Reads a single-quoted scalar behind its opening quote; two quotes stand for one. -/
def singleQuotedFrom : List Char → Progress → Option (String × Cursor)
  | [], _ => none
  | '\x27' :: '\x27' :: rest, p => singleQuotedFrom rest (p.word '\x27' ['\x27', '\x27'])
  | '\r' :: '\n' :: rest, p => singleQuotedFrom rest (p.lineBreak '\n')
  | c :: rest, p =>
    match breakOf c with
    | some b => singleQuotedFrom rest (p.lineBreak b)
    | none =>
      if p.atDocumentMark (c :: rest) then none
      else if isBlank c then singleQuotedFrom rest (p.blank c)
      else if c = '\x27' then some (p.fullText, ⟨rest, p.place.past c⟩)
      else singleQuotedFrom rest (p.word c [c])

/-- The value of a hexadecimal digit. -/
def hexDigit? (c : Char) : Option Nat :=
  if '0' ≤ c && c ≤ '9' then some (c.toNat - 48)
  else if 'a' ≤ c && c ≤ 'f' then some (c.toNat - 87)
  else if 'A' ≤ c && c ≤ 'F' then some (c.toNat - 55)
  else none

/-- The number written by hexadecimal digits. -/
def hexNumber? (cs : List Char) : Option Nat :=
  cs.foldlM (fun n c => (hexDigit? c).map (16 * n + ·)) 0

/-- The character with a code, if the code is one of a character. -/
def charOfCode? (n : Nat) : Option Char := if n.isValidChar then some (Char.ofNat n) else none

/-- Characters that stand for one character behind a backslash. -/
def escapeOf? (c : Char) : Option Char :=
  match c with
  | '0' => some '\x00'
  | 'a' => some '\x07'
  | 'b' => some '\x08'
  | 't' => some '\t'
  | '\t' => some '\t'
  | 'n' => some '\n'
  | 'v' => some '\x0b'
  | 'f' => some '\x0c'
  | 'r' => some '\r'
  | 'e' => some '\x1b'
  | ' ' => some ' '
  | '"' => some '"'
  | '/' => some '/'
  | '\\' => some '\\'
  | 'N' => some '\x85'
  | '_' => some '\xa0'
  | 'L' => some '\u2028'
  | 'P' => some '\u2029'
  | _ => none

/-- How many hexadecimal digits give the code of a character behind a backslash and `c`. -/
def escapeWidth? (c : Char) : Option Nat :=
  match c with
  | 'x' => some 2
  | 'u' => some 4
  | 'U' => some 8
  | _ => none

/-- Reads a double-quoted scalar behind its opening quote; `ahead` characters were read
ahead and are passed over. -/
def doubleQuotedFrom : List Char → (ahead : Nat) → Progress → Option (String × Cursor)
  | [], _, _ => none
  | _ :: rest, ahead + 1, p => doubleQuotedFrom rest ahead p
  | '\\' :: '\r' :: '\n' :: rest, 0, p => doubleQuotedFrom rest 0 p.escapedBreak
  | '\\' :: c :: rest, 0, p =>
    if isBreak c then doubleQuotedFrom rest 0 p.escapedBreak
    else match escapeOf? c with
      | some d => doubleQuotedFrom rest 0 (p.word d ['\\', c])
      | none =>
        match escapeWidth? c with
        | none => none
        | some width =>
          if rest.length < width then none
          else match (hexNumber? (rest.take width)).bind charOfCode? with
            | none => none
            | some d => doubleQuotedFrom rest width (p.word d ('\\' :: c :: rest.take width))
  | '\r' :: '\n' :: rest, 0, p => doubleQuotedFrom rest 0 (p.lineBreak '\n')
  | c :: rest, 0, p =>
    match breakOf c with
    | some b => doubleQuotedFrom rest 0 (p.lineBreak b)
    | none =>
      if p.atDocumentMark (c :: rest) then none
      else if isBlank c then doubleQuotedFrom rest 0 (p.blank c)
      else if c = '"' then some (p.fullText, ⟨rest, p.place.past c⟩)
      else if c = '\\' then none
      else doubleQuotedFrom rest 0 (p.word c [c])

/-- Reads a quoted scalar of either kind. -/
def readQuoted (c : Cursor) : Option (String × Cursor) :=
  match c.rest with
  | '\x27' :: rest => singleQuotedFrom rest { place := c.place.past '\x27' }
  | '"' :: rest => doubleQuotedFrom rest 0 { place := c.place.past '"' }
  | _ => none

/-! ## Block scalars -/

/-- What becomes of the line breaks at the end of a block scalar. -/
inductive Chomping where
  | strip
  | clip
  | keep
deriving DecidableEq

/-- The header of a block scalar. -/
structure BlockHeader where
  folded : Bool
  chomping : Chomping := .clip
  /-- Indentation relative to the parent, where it is written. -/
  indent : Option Nat := none

/-- The indentation written by a digit. -/
def indentDigit? (c : Char) : Option Nat :=
  if '1' ≤ c && c ≤ '9' then some (c.toNat - 48) else none

/-- How the end is chomped, written by a sign. -/
def chompingSign? (c : Char) : Option Chomping :=
  if c = '+' then some .keep else if c = '-' then some .strip else none

/-- Reads the indicators of a header, a sign and a digit in either order. -/
def readHeader (folded : Bool) (cs : List Char) : BlockHeader × List Char :=
  let h : BlockHeader := { folded := folded }
  match cs with
  | a :: b :: rest =>
    match chompingSign? a, indentDigit? b, indentDigit? a, chompingSign? b with
    | some chomp, some n, _, _ => ({ h with chomping := chomp, indent := some n }, rest)
    | some chomp, none, _, _ => ({ h with chomping := chomp }, b :: rest)
    | none, _, some n, some chomp => ({ h with chomping := chomp, indent := some n }, rest)
    | none, _, some n, none => ({ h with indent := some n }, b :: rest)
    | none, _, none, _ => (h, cs)
  | [a] =>
    match chompingSign? a, indentDigit? a with
    | some chomp, _ => ({ h with chomping := chomp }, [])
    | none, some n => ({ h with indent := some n }, [])
    | none, none => (h, cs)
  | [] => (h, cs)

/-- Splits a text into lines, each with the break that ends it; the last one may have
none. -/
def splitLines : List Char → List Char → List (List Char × Option Char)
  | line, [] => if line.isEmpty then [] else [(line.reverse, none)]
  | line, '\r' :: '\n' :: rest => (line.reverse, some '\n') :: splitLines [] rest
  | line, c :: rest =>
    match breakOf c with
    | some b => (line.reverse, some b) :: splitLines [] rest
    | none => splitLines (c :: line) rest

/-- Indentation of a block scalar that does not write it: that of its first line with
content, or the longest run of spaces before it; none where a tab stands in it. -/
def detectIndent (least : Nat) : List (List Char × Option Char) → (longest : Nat) → Option Nat
  | [], longest => some (max longest least)
  | (line, _) :: rest, longest =>
    let spaces := (line.takeWhile (· == ' ')).length
    match line.drop spaces with
    | [] => detectIndent least rest (max longest spaces)
    | c :: _ => if c == '\t' then none else some (max (max longest spaces) least)

/-- State of a block scalar: its reversed text, the break that ended the last line, and the
breaks of the empty lines since, last one first. -/
structure BlockText where
  done : List Char := []
  lastBreak : Option Char := none
  empty : List Char := []
  /-- Whether the last line began with a blank. -/
  indented : Bool := false

namespace BlockText

/-- Adds an empty line. -/
def emptyLine (t : BlockText) (b : Option Char) : BlockText :=
  { t with empty := b.toList ++ t.empty }

/-- Adds a line with content.  In a folded scalar the break between two lines that do not
begin with a blank reads as a space, unless empty lines follow it. -/
def line (t : BlockText) (folded : Bool) (cs : List Char) (b : Option Char) : BlockText :=
  let indented := cs.head?.any isBlank
  let joint : List Char :=
    if folded && t.lastBreak == some '\n' && !t.indented && !indented then
      if t.empty.isEmpty then [' '] else []
    else t.lastBreak.toList
  { done := cs.reverse ++ t.empty ++ joint ++ t.done
    lastBreak := b
    empty := []
    indented := indented }

/-- The text after chomping its end. -/
def text (t : BlockText) (chomping : Chomping) : String :=
  let done := match chomping with
    | .strip => t.done
    | .clip => t.lastBreak.toList ++ t.done
    | .keep => t.empty ++ t.lastBreak.toList ++ t.done
  String.ofList done.reverse

end BlockText

/-- Reads the lines of a block scalar that are indented by `indent`. -/
def blockFrom (folded : Bool) (indent : Nat) :
    List (List Char × Option Char) → (line : Nat) → BlockText →
      BlockText × List (List Char × Option Char) × Nat
  | [], line, t => (t, [], line)
  | (cs, b) :: rest, line, t =>
    let spaces := (cs.takeWhile (· == ' ')).length
    if spaces ≥ indent && cs.length > indent then
      blockFrom folded indent rest (line + 1) (t.line folded (cs.drop indent) b)
    else if cs.length == spaces && b.isSome then
      blockFrom folded indent rest (line + 1) (t.emptyLine b)
    else (t, (cs, b) :: rest, line)

/-- Writes lines back as one text. -/
def joinLines (lines : List (List Char × Option Char)) : List Char :=
  lines.flatMap fun (cs, b) => cs ++ b.toList

/-- Reads a block scalar; `parent` is the column of the block collection around it, if there
is one, and the content is indented deeper than that.  The cursor that is left behind
stands at the first text after the scalar. -/
def readBlock (parent : Option Nat) (c : Cursor) : Option (BlockHeader × String × Cursor) := do
  let folded ← match c.rest.head? with
    | some '|' => some false
    | some '>' => some true
    | _ => none
  let (header, rest) := readHeader folded (c.rest.drop 1)
  let (head, lines) := match splitLines [] rest with
    | [] => ([], [])
    | (head, _) :: lines => (head, lines)
  let tail := head.dropWhile isBlank
  if !(tail.isEmpty || tail.head? == some '#') then none
  else
    let indent ← match header.indent with
      | some n => some (parent.getD 0 + n)
      | none => detectIndent (parent.elim 1 (· + 1)) lines 0
    let (t, rest, line) := blockFrom folded indent lines (c.place.line + 1) {}
    let here := joinLines rest
    let spaces := (here.takeWhile (· == ' ')).length
    if (here.drop (min spaces indent)).head? == some '\t' && spaces < indent then none
    else
      let start : Cursor := ⟨here, { line := line }⟩
      return (header, t.text header.chomping, start.forward (min spaces indent))

end PathFacts.Yaml
