import PathFacts.Proofs.Yaml.Words
import PathFacts.Yaml.Token.Reader

/-!
# Tokens of an outline

The lines of an outline are read as its tokens (`Outline.tokens_text`).  A line takes three steps:
its key is read and becomes a candidate, the colon makes the candidate a key
(`TokenReader.readAll_key`), and the value is read, a word together with the end of its line
(`TokenReader.readAll_value`).  So the reader stands at the start of a line again, which is where
`TokenReader.atLine` describes it.

`TokenReader.Enters` covers both places where an entry can stand: in the block that is open, or to
the right of it, where it opens a block of its own.
-/

namespace PathFacts.Yaml
namespace TokenReader

variable {line col least n : Nat} {cs : List Char} {ts opening : List Token}
  {blocks outer : List Nat}

/-! ## Moving to a token -/

/-- What comes next depends on nothing but the next token. -/
theorem readAll_congr {r s : TokenReader} (h : r.advance = s.advance) (n : Nat) :
    readAll n r = readAll n s := by
  cases n with
  | zero => rfl
  | succ n => rw [readAll, readAll, h]

/-- One token after the other. -/
theorem readAll_step {r s t : TokenReader} (hadvance : r.advance = some s)
    (hrest : s.cursor.rest ≠ []) (htoken : s.readToken = some t) (n : Nat) :
    readAll (n + 1) r = readAll n t := by
  simp [readAll, hadvance, hrest, htoken]

/-- Moving on ends blocks, and no candidate is given up that is near enough. -/
theorem advance_of_skip {r : TokenReader} {cursor : Cursor} {fresh : Bool}
    (hskip : r.cursor.skip r.inFlow r.fresh = (cursor, fresh))
    (hnear : ∀ c, r.candidate = some c → c.place.reaches cursor.place = true) :
    r.advance = some
      ({ r with cursor := cursor, fresh := fresh }.closeBlocks (cursor.place.column < ·)) := by
  have hdrop : { r with cursor := cursor, fresh := fresh }.dropDistant
      = some { r with cursor := cursor, fresh := fresh } := by
    have : r.candidate.any (!·.place.reaches cursor.place) = false := by
      cases hc : r.candidate with
      | none => rfl
      | some c => simp [hnear c hc]
    simp [dropDistant, this]
  simp only [advance, hskip, hdrop, Option.bind_eq_bind, Option.bind_some]
  rfl

/-- No block ends where the innermost one begins no further to the right. -/
theorem closeBlocks_of_le {r : TokenReader} (h : ∀ i ∈ r.blocks.head?, i ≤ col) :
    r.closeBlocks (col < ·) = r := by
  rcases r with ⟨cursor, tokens, blocks, fresh, candidate, outer⟩
  cases blocks with
  | nil => simp [closeBlocks, endBlocks]
  | cons i blocks =>
    have : ¬ col < i := Nat.not_lt.2 (h i rfl)
    simp [closeBlocks, endBlocks, this]

/-! ## Reading a token -/

/-- A plain scalar is read where a word begins. -/
theorem readToken_word {r : TokenReader} {c : Char} (hrest : r.cursor.rest = c :: cs)
    (hc : isWordChar c = true) : r.readToken = r.readPlainScalar := by
  have ne {d : Char} := ne_of_isWordChar (d := d) hc
  have hindicator : isIndicator c = false := isIndicator_of_isWordChar hc
  obtain ⟨⟨rest, place⟩, tokens, blocks, fresh, candidate, outer⟩ := r
  obtain rfl : rest = c :: cs := hrest
  simp only [isIndicator, isFlowIndicator, Bool.or_eq_false_iff, beq_eq_false_iff_ne] at hindicator
  simp [readToken, Cursor.atDocumentStart_cons (ne (d := '-') (by decide)),
    Cursor.atDocumentEnd_cons (ne (d := '.') (by decide)), isIndicator, isFlowIndicator,
    isBlank_of_isWordChar hc, hindicator]

/-- A value is read where a colon has a gap behind it. -/
theorem readToken_colon {r : TokenReader} (hrest : r.cursor.rest = ':' :: cs)
    (hgap : isGap cs = true) : r.readToken = r.readValue := by
  obtain ⟨⟨rest, place⟩, tokens, blocks, fresh, candidate, outer⟩ := r
  obtain rfl : rest = ':' :: cs := hrest
  simp [readToken, Cursor.atDocumentStart_cons, Cursor.atDocumentEnd_cons, hgap]

/-! ## Keys -/

/-- The reader at the start of a line, outside of brackets. -/
def atLine (line : Nat) (cs : List Char) (ts : List Token) (blocks : List Nat) : TokenReader :=
  { cursor := .lineStart line cs, tokens := ts.toArray, blocks := blocks }

/-- The reader at the colon behind a key that begins at `place`. -/
def atColon (place : Place) (key : String) (cs : List Char) (ts : List Token)
    (blocks : List Nat) : TokenReader where
  cursor := ⟨':' :: cs, place.ahead key.toList.length⟩
  tokens := (ts ++ [Token.scalar key .plain]).toArray
  blocks := blocks
  fresh := false
  candidate := some ⟨ts.length, place, blocks.head? == some place.column⟩

/-- The reader behind the colon of a key. -/
def behindColon (place : Place) (cs : List Char) (ts : List Token) (blocks : List Nat) :
    TokenReader :=
  { cursor := ⟨cs, place⟩, tokens := ts.toArray, blocks := blocks, fresh := false }

/-- What an entry in a column does to the blocks that are open: it goes on with the innermost one,
or opens one to the right of them. -/
inductive Enters (col : Nat) (outer : List Nat) : List Nat → List Token → Prop
  | inside : Enters col outer (col :: outer) []
  | opening (h : outer.head?.all (· < col) = true) : Enters col outer outer [.blockMapping]

theorem Enters.head_le (h : Enters col outer blocks opening) : ∀ i ∈ blocks.head?, i ≤ col := by
  intro i hi
  cases h with
  | inside => exact Nat.le_of_eq (Option.some.inj hi).symm
  | opening h =>
    rw [Option.mem_def.1 hi] at h
    exact Nat.le_of_lt (by simpa using h)

theorem insertIdx_length_append {α : Type} (front back : List α) (a : α) :
    (front ++ back).insertIdx front.length a = front ++ a :: back := by
  induction front with
  | nil => simp
  | cons b front ih => simp [ih]

/-- The word in front of a colon becomes a candidate for a key. -/
theorem readToken_key {key : String} (hkey : IsWord key) (hgap : isGap cs = true) :
    (atLine line (List.replicate col ' ' ++ (key.toList ++ ':' :: cs)) ts blocks).readToken
      = some (atColon (Place.ahead { line := line } col) key cs ts blocks) := by
  obtain ⟨c, tail, hc⟩ : ∃ c tail, key.toList = c :: tail :=
    List.exists_cons_of_ne_nil hkey.nonempty
  have hword : AtWord (key.toList ++ ':' :: cs) := atWord_append hkey _
  rw [atLine, Cursor.lineStart_spaces hword,
    readToken_word (c := c) (by rw [hc]; rfl) (hkey.plain c (by simp [hc]))]
  simp [readPlainScalar, saveCandidate, dropCandidate, inFlow, readPlain_key hkey _ hgap, atColon,
    push, column]

/-- The colon makes the candidate a key. -/
theorem readToken_atColon (h : Enters col outer blocks opening) (key : String) (place : Place)
    (hgap : isGap cs = true) (hcol : place.column = col) :
    (atColon place key cs ts blocks).readToken
      = some (behindColon (place.ahead (key.toList.length + 1)) cs
          (ts ++ (opening ++ [.key, .scalar key .plain, .value])) (col :: outer)) := by
  rw [readToken_colon (r := atColon place key cs ts blocks) rfl hgap]
  cases h with
  | inside =>
    simp [atColon, readValue, openBlock, inFlow, hcol, pushOver, push, behindColon,
      insertIdx_length_append, Place.ahead_past (c := ':') rfl]
  | opening h =>
    simp [atColon, readValue, openBlock, inFlow, hcol, pushOver, push, behindColon, h,
      insertIdx_length_append, Place.ahead_past (c := ':') rfl]

theorem advance_atLine (hcs : StartsBefore least cs) :
    (atLine line cs ts blocks).advance
      = some ((atLine line cs ts blocks).closeBlocks
          ((Cursor.lineStart line cs).place.column < ·)) :=
  advance_of_skip (r := atLine line cs ts blocks) (Cursor.skip_lineStart hcs line false true) nofun

theorem advance_atColon {place : Place} (h : ∀ i ∈ blocks.head?, i ≤ place.column) {key : String}
    (hkey : IsKey key) :
    (atColon place key cs ts blocks).advance = some (atColon place key cs ts blocks) := by
  have hnear : ∀ c, (atColon place key cs ts blocks).candidate = some c →
      c.place.reaches (place.ahead key.toList.length) = true := by
    rintro _ ⟨⟩
    have hnear : key.toList.length ≤ 1024 := Nat.le_trans hkey.short (by decide)
    simp [Place.reaches, Place.ahead, hnear]
  have hle : ∀ i ∈ blocks.head?, i ≤ (place.ahead key.toList.length).column := fun i hi =>
    Nat.le_trans (h i hi) (Nat.le_add_right _ _)
  rw [advance_of_skip (r := atColon place key cs ts blocks) (Cursor.skip_colon _ _ _ _) hnear]
  exact congrArg some (closeBlocks_of_le (r := atColon place key cs ts blocks) hle)

/-- The start of a line is read up to the value of its key. -/
theorem readAll_key (h : Enters col outer blocks opening) {key : String} (hkey : IsKey key)
    (hgap : isGap cs = true) (n : Nat) :
    readAll (n + 2)
        (atLine line (List.replicate col ' ' ++ (key.toList ++ ':' :: cs)) ts blocks)
      = readAll n (behindColon
          ((Place.ahead { line := line } col).ahead (key.toList.length + 1)) cs
          (ts ++ (opening ++ [.key, .scalar key .plain, .value])) (col :: outer)) := by
  have hword : AtWord (key.toList ++ ':' :: cs) := atWord_append hkey.toIsWord _
  have hcol : (Place.ahead { line := line } col).column = col := by simp [Place.ahead]
  have hhead : ∀ i ∈ blocks.head?, i ≤ (Place.ahead { line := line } col).column := by
    rw [hcol]
    exact h.head_le
  have hline : (atLine line (List.replicate col ' ' ++ (key.toList ++ ':' :: cs)) ts
      blocks).advance
      = some (atLine line (List.replicate col ' ' ++ (key.toList ++ ':' :: cs)) ts blocks) := by
    rw [advance_atLine ⟨col, _, Nat.lt_succ_self col, hword, rfl⟩, Cursor.lineStart_spaces hword]
    exact congrArg some (closeBlocks_of_le (r := atLine _ _ _ _) hhead)
  rw [readAll_step hline (by simp [atLine, Cursor.lineStart_spaces hword])
      (readToken_key hkey.toIsWord hgap),
    readAll_step (advance_atColon hhead hkey) (by simp [atColon])
      (readToken_atColon h key _ hgap hcol)]

/-! ## Values -/

/-- A word behind a key is read up to the next line. -/
theorem readAll_value {text : String} (htext : IsWord text) (hcs : StartsBefore (col + 1) cs)
    {place : Place} (hcol : col ≤ place.column) (n : Nat) :
    readAll (n + 1)
        (behindColon place (' ' :: (text.toList ++ '\n' :: cs)) ts (col :: outer))
      = readAll n (atLine (place.line + 1) cs (ts ++ [.scalar text .plain]) (col :: outer)) := by
  obtain ⟨c, tail, hc⟩ : ∃ c tail, text.toList = c :: tail :=
    List.exists_cons_of_ne_nil htext.nonempty
  have hword : AtWord (text.toList ++ '\n' :: cs) := atWord_append htext _
  have hadvance : (behindColon place (' ' :: (text.toList ++ '\n' :: cs)) ts
      (col :: outer)).advance
      = some (behindColon (place.ahead 1) (text.toList ++ '\n' :: cs) ts (col :: outer)) := by
    rw [advance_of_skip (r := behindColon _ _ _ _) (Cursor.skip_space hword place false false)
      nofun]
    refine congrArg some (closeBlocks_of_le (r := behindColon _ _ _ _) fun i hi => ?_)
    rw [← Option.some.inj hi]
    exact Nat.le_succ_of_le hcol
  refine readAll_step hadvance (by simp [behindColon]) ?_ n
  rw [readToken_word (c := c) (by simp [behindColon, hc]; rfl) (htext.plain c (by simp [hc]))]
  simp [behindColon, readPlainScalar, saveCandidate, inFlow, readPlain_lineEnd htext hcs, push,
    atLine, Place.ahead]

/-- Where the lines below a key begin, nothing of its own line is left. -/
theorem readAll_lineEnd (hcs : StartsBefore least cs) (place : Place) (n : Nat) :
    readAll n (behindColon place ('\n' :: cs) ts blocks)
      = readAll n (atLine (place.line + 1) cs ts blocks) := by
  apply readAll_congr
  rw [advance_atLine hcs, advance_of_skip (r := behindColon _ _ _ _)
    (Cursor.skip_lineEnd hcs place false) nofun]
  rfl

/-- A block ends in front of a line that begins to the left of it. -/
theorem readAll_blockEnd (hcs : StartsBefore col cs) (line n : Nat) :
    readAll n (atLine line cs ts (col :: blocks))
      = readAll n (atLine line cs (ts ++ [.blockEnd]) blocks) := by
  apply readAll_congr
  rw [advance_atLine hcs, advance_atLine hcs]
  obtain ⟨k, tail, hk, hword, rfl⟩ := hcs
  have : k < col := hk
  simp [atLine, closeBlocks, inFlow, endBlocks, Cursor.lineStart_spaces hword, Place.ahead, this]

/-- The end of the text ends the outermost block. -/
theorem readAll_textEnd (line n : Nat) :
    (readAll (n + 1) (atLine line [] ts [0])).map (·.tokens.toList) = some (ts ++ [.blockEnd]) := by
  have hadvance : (atLine line [] ts [0]).advance = some (atLine line [] ts [0]) := by
    rw [advance_atLine (startsBefore_nil Nat.zero_lt_one)]
    exact congrArg some (closeBlocks_of_le (r := atLine _ _ _ _) (by simp [atLine]))
  rw [readAll, hadvance]
  simp [atLine, Cursor.lineStart, closeAll, closeBlocks, inFlow, endBlocks, dropCandidate]

end TokenReader

/-! ## Outlines -/

namespace Outline

open TokenReader

variable {line col least n indent : Nat} {cs : List Char} {ts opening : List Token}
  {blocks outer : List Nat}

/-- The tokens of the entries. -/
def tokens : Outline → List Token
  | done => []
  | word key text next =>
    .key :: .scalar key .plain :: .value :: .scalar text .plain :: next.tokens
  | block key inner next =>
    .key :: .scalar key .plain :: .value :: .blockMapping ::
      (inner.tokens ++ .blockEnd :: next.tokens)

/-- How many lines there are. -/
def height : Outline → Nat
  | done => 0
  | word _ _ next => next.height + 1
  | block _ inner next => inner.height + next.height + 1

/-- How many tokens are read, where those that the layout stands for do not count. -/
def steps : Outline → Nat
  | done => 0
  | word _ _ next => next.steps + 1 + 2
  | block _ inner next => inner.steps + next.steps + 2

theorem startsBefore_lines {o : Outline} (ho : o.IsPlain) (hcs : StartsBefore (col + 1) cs) :
    StartsBefore (col + 1) (o.lines indent col ++ cs) := by
  cases o with
  | done => exact hcs
  | word key text next =>
    exact ⟨col, _, Nat.lt_succ_self col, atWord_append ho.1.toIsWord _,
      by rw [lines, List.append_assoc, List.append_assoc]⟩
  | block key inner next =>
    exact ⟨col, _, Nat.lt_succ_self col, atWord_append ho.1.toIsWord _,
      by rw [lines, List.append_assoc, List.append_assoc]⟩

/-- The lines of an outline are read as its tokens. -/
theorem readAll_lines (hindent : 0 < indent) {o : Outline} (ho : o.IsPlain)
    (h : Enters col outer blocks opening) (hopen : o ≠ done ∨ opening = [])
    (hcs : StartsBefore (col + 1) cs) (n : Nat) :
    readAll (n + o.steps) (atLine line (o.lines indent col ++ cs) ts blocks)
      = readAll n (atLine (line + o.height) cs (ts ++ (opening ++ o.tokens)) (col :: outer)) := by
  induction o generalizing line col outer blocks opening cs ts n with
  | done =>
    -- nothing is left to open the block, so it is open
    obtain rfl : opening = [] := hopen.resolve_left fun hne => hne rfl
    cases h
    simp [steps, lines, height, tokens]
  | word key text next ih =>
    obtain ⟨hkey, htext, hnext⟩ := ho
    have hbelow : StartsBefore (col + 1) (next.lines indent col ++ cs) :=
      startsBefore_lines hnext hcs
    rw [lines, steps]
    simp only [List.append_assoc, List.cons_append]
    rw [← Nat.add_assoc, readAll_key h hkey rfl, ← Nat.add_assoc,
      readAll_value htext hbelow (by simp only [Place.ahead]; omega),
      ih hnext .inside (.inr rfl) hcs]
    simp [Place.ahead, height, tokens, Nat.add_assoc, Nat.add_comm 1]
  | block key inner next ihInner ihNext =>
    obtain ⟨hkey, hne, hinner, hnext⟩ := ho
    have hbelow : StartsBefore (col + 1) (next.lines indent col ++ cs) :=
      startsBefore_lines hnext hcs
    have hdeeper : StartsBefore (col + indent + 1) (next.lines indent col ++ cs) :=
      hbelow.mono (by omega)
    have hopens : Enters (col + indent) (col :: outer) (col :: outer) [.blockMapping] :=
      .opening (by simpa using hindent)
    rw [lines, steps]
    simp only [List.append_assoc, List.cons_append]
    rw [← Nat.add_assoc, readAll_key h hkey rfl,
      readAll_lineEnd (startsBefore_lines hinner hdeeper),
      Nat.add_comm inner.steps, ← Nat.add_assoc, ihInner hinner hopens (.inl hne) hdeeper,
      readAll_blockEnd (hbelow.mono (by omega)), ihNext hnext .inside (.inr rfl) hcs]
    simp [Place.ahead, height, tokens, Nat.add_assoc, Nat.add_comm 1]

/-! ## Whole texts -/

theorem steps_le_length {o : Outline} (ho : o.IsPlain) (indent col : Nat) :
    o.steps ≤ (o.lines indent col).length := by
  induction o generalizing col with
  | done => exact Nat.le_refl 0
  | word key text next ih =>
    have := ih ho.2.2 col
    simp only [steps, lines, List.length_append, List.length_cons, List.length_replicate]
    omega
  | block key inner next ihInner ihNext =>
    have := ihInner ho.2.2.1 (col + indent)
    have := ihNext ho.2.2.2 col
    simp only [steps, lines, List.length_append, List.length_cons, List.length_replicate]
    omega

theorem isAllowed_lines {o : Outline} (ho : o.IsPlain) (indent col : Nat) :
    ∀ c ∈ o.lines indent col, isAllowed c = true := by
  have hspaces (k : Nat) : ∀ c ∈ List.replicate k ' ', isAllowed c = true := by
    intro c hc
    rw [List.eq_of_mem_replicate hc]
    decide
  have hword {w : String} (hw : IsWord w) : ∀ c ∈ w.toList, isAllowed c = true :=
    fun c hc => isAllowed_of_isWordChar (hw.plain c hc)
  induction o generalizing col with
  | done => simp [lines]
  | word key text next ih =>
    simp only [lines, List.forall_mem_append, List.forall_mem_cons]
    exact ⟨hspaces col, hword ho.1.toIsWord, by decide, by decide, hword ho.2.1, by decide,
      ih ho.2.2 col⟩
  | block key inner next ihInner ihNext =>
    simp only [lines, List.forall_mem_append, List.forall_mem_cons]
    exact ⟨hspaces col, hword ho.1.toIsWord, by decide, by decide,
      ihInner ho.2.2.1 (col + indent), ihNext ho.2.2.2 col⟩

/-- The text of an outline is read as a block mapping of its tokens. -/
theorem tokens_text (hindent : 0 < indent) {o : Outline} (ho : o.IsPlain) (hne : o ≠ done) :
    Token.ofText? (o.text indent) = some (.blockMapping :: (o.tokens ++ [.blockEnd])) := by
  have hallowed : (o.lines indent 0).all isAllowed = true :=
    List.all_eq_true.2 (isAllowed_lines ho indent 0)
  have hend : StartsBefore 1 [] := startsBefore_nil Nat.zero_lt_one
  have hopens : Enters 0 [] [] [.blockMapping] := .opening rfl
  have hstart : ({ cursor := ⟨o.lines indent 0, {}⟩ } : TokenReader)
      = atLine 0 (o.lines indent 0 ++ []) [] [] := by
    obtain ⟨k, tail, hk, hword, heq⟩ := startsBefore_lines (o := o) ho hend
    obtain rfl : k = 0 := by omega
    rw [atLine, heq, Cursor.lineStart_spaces hword, ← List.append_nil (o.lines indent 0), heq]
    rfl
  obtain ⟨n, hn⟩ : ∃ n, (o.lines indent 0).length + 1 = n + 1 + o.steps :=
    ⟨(o.lines indent 0).length - o.steps, by have := steps_le_length ho indent 0; omega⟩
  have hread : readAll (n + 1 + o.steps) { cursor := ⟨o.lines indent 0, {}⟩ }
      = readAll (n + 1) (atLine (0 + o.height) [] (.blockMapping :: o.tokens) [0]) := by
    rw [hstart, readAll_lines hindent ho hopens (.inl hne) hend]
    simp
  have htokens : (readAll (n + 1) (atLine (0 + o.height) [] (.blockMapping :: o.tokens) [0])).map
      (·.tokens.toList) = some (.blockMapping :: o.tokens ++ [.blockEnd]) :=
    readAll_textEnd (0 + o.height) n
  rw [← hread, ← hn] at htokens
  simpa [Token.ofText?, text, hallowed, Option.map_eq_bind, Function.comp_def] using htokens

end Outline
end PathFacts.Yaml
