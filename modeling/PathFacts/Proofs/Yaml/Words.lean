import PathFacts.Yaml.Outline
import PathFacts.Yaml.Scalar

/-!
# Words in YAML texts

No character of a word is an indicator, so a plain scalar reads a word as it stands, whatever the
layout around it is.  It ends in front of a colon (`readPlain_key`) or at the end of the line
(`readPlain_lineEnd`), and in the second case goes on to the next line, to see whether the scalar
does.

`Cursor.lineStart` is the place that every reader of a line comes to: behind the spaces that the
line begins with.
-/

namespace PathFacts.Yaml

/-! ## Characters of words -/

/-- No word holds `d`. -/
theorem ne_of_isWordChar {c d : Char} (hc : isWordChar c = true) (hd : isWordChar d = false) :
    c ≠ d := by
  rintro rfl
  simp [hc] at hd

theorem toNat_of_isWordChar {c : Char} (hc : isWordChar c = true) :
    0x30 ≤ c.toNat ∧ c.toNat ≤ 0x7A := by
  have hranges : (decide ('A'.val ≤ c.val ∧ c.val ≤ 'Z'.val) || ('a'.val ≤ c.val && c.val ≤ 'z'.val)
      || ('0'.val ≤ c.val && c.val ≤ '9'.val) || c == '_') = true := hc
  simp only [Bool.or_eq_true, Bool.and_eq_true, decide_eq_true_eq, beq_iff_eq,
    UInt32.le_iff_toNat_le] at hranges
  rcases hranges with h | rfl
  · have value : c.toNat = c.val.toNat := rfl
    have digits : '0'.val.toNat = 48 ∧ '9'.val.toNat = 57 := ⟨rfl, rfl⟩
    have upper : 'A'.val.toNat = 65 ∧ 'Z'.val.toNat = 90 := ⟨rfl, rfl⟩
    have lower : 'a'.val.toNat = 97 ∧ 'z'.val.toNat = 122 := ⟨rfl, rfl⟩
    omega
  · decide

theorem isAllowed_of_isWordChar {c : Char} (hc : isWordChar c = true) : isAllowed c = true := by
  obtain ⟨low, high⟩ := toNat_of_isWordChar hc
  have : (0x20 ≤ c.toNat && c.toNat ≤ 0x7E) = true := by simp; omega
  simp [isAllowed, this]

theorem utf8Size_of_isWordChar {c : Char} (hc : isWordChar c = true) : c.utf8Size = 1 := by
  have := (toNat_of_isWordChar hc).2
  rw [Char.utf8Size_eq_one_iff, UInt32.le_iff_toNat_le]
  exact Nat.le_trans this (by decide)

theorem breakOf_of_isWordChar {c : Char} (hc : isWordChar c = true) : breakOf c = none := by
  have ne {d : Char} := ne_of_isWordChar (d := d) hc
  simp [breakOf, ne (d := '\n') (by decide), ne (d := '\r') (by decide),
    ne (d := '\x85') (by decide), ne (d := '\u2028') (by decide), ne (d := '\u2029') (by decide)]

theorem isBlank_of_isWordChar {c : Char} (hc : isWordChar c = true) : isBlank c = false := by
  have ne {d : Char} := ne_of_isWordChar (d := d) hc
  simp [isBlank, ne (d := ' ') (by decide), ne (d := '\t') (by decide)]

theorem isIndicator_of_isWordChar {c : Char} (hc : isWordChar c = true) :
    isIndicator c = false := by
  simp only [isIndicator, isFlowIndicator, Bool.or_eq_false_iff, beq_eq_false_iff_ne]
  and_intros
  all_goals exact ne_of_isWordChar hc (by decide)

/-! ## Starts of lines -/

/-- Whether a text is at its end or goes on with a word. -/
def AtWord (cs : List Char) : Prop := ∀ c ∈ cs.head?, isWordChar c = true

/-- What is left of a text ends there or goes on with a word to the left of the column `least`,
which is behind spaces only. -/
def StartsBefore (least : Nat) (cs : List Char) : Prop :=
  ∃ k tail, k < least ∧ AtWord tail ∧ cs = List.replicate k ' ' ++ tail

theorem atWord_append {key : String} (hkey : IsWord key) (cs : List Char) :
    AtWord (key.toList ++ cs) := by
  intro c hc
  apply hkey.plain
  cases hk : key.toList with
  | nil => exact absurd hk hkey.nonempty
  | cons d ds => simp_all

theorem StartsBefore.mono {least bound : Nat} {cs : List Char} (h : StartsBefore least cs)
    (hle : least ≤ bound) : StartsBefore bound cs := by
  obtain ⟨k, tail, hk, hword, rfl⟩ := h
  exact ⟨k, tail, Nat.lt_of_lt_of_le hk hle, hword, rfl⟩

theorem startsBefore_nil {least : Nat} (h : 0 < least) : StartsBefore least [] :=
  ⟨0, [], h, nofun, rfl⟩

namespace Place

/-- The place `n` octets behind `p` on its line, where each character has one octet. -/
def ahead (p : Place) (n : Nat) : Place :=
  { p with column := p.column + n, bytes := p.bytes + n }

@[simp]
theorem ahead_zero (p : Place) : p.ahead 0 = p := rfl

theorem past_ahead {c : Char} (hc : c.utf8Size = 1) (p : Place) (n : Nat) :
    (p.past c).ahead n = p.ahead (n + 1) := by
  simp only [past, ahead, hc]
  congr 1 <;> omega

theorem ahead_past {c : Char} (hc : c.utf8Size = 1) (p : Place) (n : Nat) :
    (p.ahead n).past c = p.ahead (n + 1) := by
  simp only [past, ahead, hc]
  rfl

end Place

namespace Cursor

@[simp]
theorem forward_one (c : Char) (cs : List Char) (p : Place) :
    (⟨c :: cs, p⟩ : Cursor).forward 1 = ⟨cs, p.past c⟩ := by
  simp [forward, Place.pastAll]

/-- The cursor behind the spaces at the start of a line. -/
def lineStart (line : Nat) (cs : List Char) : Cursor :=
  let k := (cs.takeWhile (· == ' ')).length
  ⟨cs.drop k, Place.ahead { line := line } k⟩

theorem takeWhile_spaces {tail : List Char} (h : AtWord tail) (k : Nat) :
    (List.replicate k ' ' ++ tail).takeWhile (· == ' ') = List.replicate k ' ' := by
  have hend : tail.takeWhile (· == ' ') = [] := by
    cases tail with
    | nil => rfl
    | cons c cs => simp [ne_of_isWordChar (h c rfl) (d := ' ') (by decide)]
  rw [List.takeWhile_append_of_pos (by simp), hend, List.append_nil]

theorem lineStart_spaces {tail : List Char} (h : AtWord tail) (line k : Nat) :
    lineStart line (List.replicate k ' ' ++ tail) = ⟨tail, Place.ahead { line := line } k⟩ := by
  simp [lineStart, takeWhile_spaces h]

/-! ## From token to token -/

theorem skipFrom_cons {c : Char} (hc : c ≠ '\r') (inFlow : Bool) (cs : List Char) (p : Place)
    (fresh inComment : Bool) :
    skipFrom inFlow (c :: cs) p fresh inComment =
      if isBreak c then skipFrom inFlow cs p.nextLine (fresh || !inFlow) false
      else if inComment || c = '#' then skipFrom inFlow cs (p.past c) fresh true
      else if c = ' ' || (c = '\t' && (inFlow || !fresh))
          || (c = byteOrderMark && p.column = 0) then
        skipFrom inFlow cs (p.past c) fresh false
      else (⟨c :: cs, p⟩, fresh) := by
  rw [skipFrom]
  intro rest h
  exact absurd h hc

theorem skipFrom_spaces (inFlow : Bool) (k : Nat) (tail : List Char) (p : Place) (fresh : Bool) :
    skipFrom inFlow (List.replicate k ' ' ++ tail) p fresh false
      = skipFrom inFlow tail (p.ahead k) fresh false := by
  induction k generalizing p with
  | zero => rfl
  | succ k ih =>
    rw [List.replicate_succ, List.cons_append, skipFrom_cons (by decide)]
    simp [show isBreak ' ' = false from rfl, ih, Place.past_ahead (c := ' ') rfl]

theorem skipFrom_word (inFlow : Bool) {tail : List Char} (h : AtWord tail) (p : Place)
    (fresh : Bool) : skipFrom inFlow tail p fresh false = (⟨tail, p⟩, fresh) := by
  cases tail with
  | nil => rfl
  | cons c cs =>
    have ne {d : Char} := ne_of_isWordChar (d := d) (h c rfl)
    rw [skipFrom_cons (ne (by decide))]
    simp [isBreak, breakOf_of_isWordChar (h c rfl), ne (d := '#') (by decide),
      ne (d := ' ') (by decide), ne (d := '\t') (by decide), ne (d := byteOrderMark) (by decide)]

/-- At the start of a line there is nothing left to pass over. -/
theorem skip_lineStart {least : Nat} {cs : List Char} (h : StartsBefore least cs) (line : Nat)
    (inFlow fresh : Bool) :
    (lineStart line cs).skip inFlow fresh = (lineStart line cs, fresh) := by
  obtain ⟨k, tail, -, hword, rfl⟩ := h
  rw [lineStart_spaces hword, skip, skipFrom_word inFlow hword]

/-- The end of a line is passed over up to the first word of the next one. -/
theorem skip_lineEnd {least : Nat} {cs : List Char} (h : StartsBefore least cs) (p : Place)
    (fresh : Bool) :
    (⟨'\n' :: cs, p⟩ : Cursor).skip false fresh = (lineStart (p.line + 1) cs, true) := by
  obtain ⟨k, tail, -, hword, rfl⟩ := h
  rw [lineStart_spaces hword, skip, skipFrom_cons (by decide)]
  simp [show isBreak '\n' = true from rfl, skipFrom_spaces, skipFrom_word false hword,
    Place.nextLine]

/-- A space in front of a word is passed over. -/
theorem skip_space {tail : List Char} (h : AtWord tail) (p : Place) (inFlow fresh : Bool) :
    (⟨' ' :: tail, p⟩ : Cursor).skip inFlow fresh = (⟨tail, p.ahead 1⟩, fresh) := by
  have := skipFrom_spaces inFlow 1 tail p fresh
  rw [skipFrom_word inFlow h] at this
  exact this

/-- A colon is a token. -/
theorem skip_colon (cs : List Char) (p : Place) (inFlow fresh : Bool) :
    (⟨':' :: cs, p⟩ : Cursor).skip inFlow fresh = (⟨':' :: cs, p⟩, fresh) := by
  rw [skip, skipFrom_cons (by decide)]
  simp [show isBreak ':' = false from rfl, show ':' ≠ byteOrderMark by decide]

/-- The mark at the start of a document begins with a dash. -/
theorem atDocumentStart_cons {c : Char} (h : c ≠ '-') (cs : List Char) (p : Place) :
    (⟨c :: cs, p⟩ : Cursor).atDocumentStart = false := by
  simp [atDocumentStart, startsLineWith, h.symm]

/-- The mark at the end of a document begins with a dot. -/
theorem atDocumentEnd_cons {c : Char} (h : c ≠ '.') (cs : List Char) (p : Place) :
    (⟨c :: cs, p⟩ : Cursor).atDocumentEnd = false := by
  simp [atDocumentEnd, startsLineWith, h.symm]

end Cursor

/-! ## Plain scalars -/

theorem plainFrom_cons {c : Char} (hc : c ≠ '\r') (inFlow : Bool) (least : Nat) (cs : List Char)
    (inWord : Bool) (p : Progress) :
    plainFrom inFlow least (c :: cs) inWord p =
      match breakOf c with
      | some b => plainFrom inFlow least cs false (p.lineBreak b)
      | none =>
        if isBlank c then
          if p.fold.broken && p.place.column < least && c == '\t' then none
          else plainFrom inFlow least cs false (p.blank c)
        else if !inWord && stopsBeforeWord inFlow least p (c :: cs) then
          some (p.text, ⟨c :: cs, p.place⟩, p.fold.broken)
        else if isMisplacedColon inFlow c cs then none
        else if endsPlain inFlow c cs then
          some (p.text, ⟨c :: cs, p.place⟩, p.fold.broken)
        else plainFrom inFlow least cs true (p.word c [c]) := by
  rw [plainFrom]
  all_goals first
    | rfl
    | exact fun _ h => absurd h hc

/-- A character of a word goes to the scalar, unless a new line stands in between. -/
theorem plainFrom_wordChar {c : Char} (hc : isWordChar c = true) (least : Nat) (inWord : Bool)
    {p : Progress} (hbroken : p.fold.broken = false) (cs : List Char) :
    plainFrom false least (c :: cs) inWord p
      = plainFrom false least cs true (p.word c [c]) := by
  have ne {d : Char} := ne_of_isWordChar (d := d) hc
  have hmark : p.atDocumentMark (c :: cs) = false := by
    simp [Progress.atDocumentMark, Cursor.atDocumentStart_cons (ne (d := '-') (by decide)),
      Cursor.atDocumentEnd_cons (ne (d := '.') (by decide))]
  rw [plainFrom_cons (ne (by decide))]
  simp [breakOf_of_isWordChar hc, isBlank_of_isWordChar hc, stopsBeforeWord, hbroken, hmark,
    isMisplacedColon, endsPlain, ne (d := ':') (by decide), ne (d := '#') (by decide)]

theorem plainFrom_word {w : List Char} (hw : ∀ c ∈ w, isWordChar c = true) (least : Nat)
    (inWord : Bool) (done : List Char) (place : Place) (cs : List Char) :
    plainFrom false least (w ++ cs) inWord ⟨done, {}, place⟩
      = plainFrom false least cs (inWord || !w.isEmpty)
          ⟨w.reverse ++ done, {}, place.ahead w.length⟩ := by
  induction w generalizing inWord done place with
  | nil => simp
  | cons c w ih =>
    have hc : isWordChar c = true := hw c List.mem_cons_self
    have hplace : (place.past c).ahead w.length = place.ahead (w.length + 1) :=
      Place.past_ahead (utf8Size_of_isWordChar hc) place w.length
    rw [List.cons_append, plainFrom_wordChar hc least inWord rfl]
    simp only [Progress.word, Fold.onto, Place.pastAll, List.foldl_cons, List.foldl_nil]
    simp [ih (fun d hd => hw d (List.mem_cons_of_mem c hd)), hplace]

/-- Spaces at the start of a line leave no trace in a plain scalar. -/
theorem plainFrom_spaces (least k : Nat) (tail : List Char) (done : List Char) {fold : Fold}
    (h : fold.broken = true) (place : Place) :
    plainFrom false least (List.replicate k ' ' ++ tail) false ⟨done, fold, place⟩
      = plainFrom false least tail false ⟨done, fold, place.ahead k⟩ := by
  induction k generalizing place with
  | zero => rfl
  | succ k ih =>
    have hplace : (place.past ' ').ahead k = place.ahead (k + 1) :=
      Place.past_ahead rfl place k
    rw [List.replicate_succ, List.cons_append, plainFrom_cons (by decide)]
    simp [show breakOf ' ' = none from rfl, show isBlank ' ' = true from rfl, Progress.blank,
      Fold.blank, h, ih, hplace]

/-- A plain scalar is at its end in front of a line that is not indented enough. -/
theorem plainFrom_lineStart {least : Nat} {cs : List Char} (h : StartsBefore least cs)
    (done : List Char) {fold : Fold} (hbroken : fold.broken = true) (line : Nat) :
    plainFrom false least cs false ⟨done, fold, { line := line }⟩
      = some (String.ofList done.reverse, Cursor.lineStart line cs, true) := by
  obtain ⟨k, tail, hk, hword, rfl⟩ := h
  rw [Cursor.lineStart_spaces hword, plainFrom_spaces least k tail done hbroken]
  cases tail with
  | nil => simp [plainFrom, Progress.text, hbroken]
  | cons c tail =>
    have hc : isWordChar c = true := hword c rfl
    have hcolumn : (Place.ahead { line := line } k).column < least := by simpa [Place.ahead]
    rw [plainFrom_cons (ne_of_isWordChar hc (by decide))]
    simp [breakOf_of_isWordChar hc, isBlank_of_isWordChar hc, stopsBeforeWord, hbroken, hcolumn,
      Progress.text]

/-- A word in front of a colon is read up to the colon. -/
theorem readPlain_key {w : String} (hw : IsWord w) (least : Nat) {cs : List Char}
    (hgap : isGap cs = true) (place : Place) :
    readPlain false least ⟨w.toList ++ ':' :: cs, place⟩
      = some (w, ⟨':' :: cs, place.ahead w.toList.length⟩, false) := by
  rw [readPlain, plainFrom_word hw.plain, plainFrom_cons (by decide)]
  simp [show breakOf ':' = none from rfl, show isBlank ':' = false from rfl, endsPlain, hgap,
    isMisplacedColon, hw.nonempty, Progress.text]

/-- A word at the end of a line is read up to the first word of the next line, if that is not
indented enough to be part of the scalar. -/
theorem readPlain_lineEnd {w : String} (hw : IsWord w) {least : Nat} {cs : List Char}
    (h : StartsBefore least cs) (place : Place) :
    readPlain false least ⟨w.toList ++ '\n' :: cs, place⟩
      = some (w, Cursor.lineStart (place.line + 1) cs, true) := by
  rw [readPlain, plainFrom_word hw.plain, plainFrom_cons (by decide)]
  simp only [show breakOf '\n' = some '\n' from rfl, Progress.lineBreak]
  rw [show (place.ahead w.toList.length).nextLine = { line := place.line + 1 } from rfl,
    plainFrom_lineStart h _ rfl]
  simp

end PathFacts.Yaml
