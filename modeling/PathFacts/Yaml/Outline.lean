/-!
# Outlines: block mappings of words

An `Outline` is a block mapping of words, to any depth.  It is all that settings need of YAML, and
the part of it that every reader and writer agrees on.  `Outline.text` lays an outline out in lines.

A *word* consists of letters, digits and underscores, so nothing in it can be mistaken for
punctuation.  `Outline.IsDocument` says which outlines can be written and read without quotes: the
keys are words that mean nothing but themselves, no inner level is empty, and the levels are not
nested too deep.
-/

namespace PathFacts.Yaml

/-! ## Words -/

/-- Characters that mean nothing but themselves, wherever they stand. -/
def isWordChar (c : Char) : Bool := c.isAlphanum || c == '_'

/-- A text that a plain scalar can be. -/
structure IsWord (w : String) : Prop where
  nonempty : w.toList ≠ []
  plain : ∀ c ∈ w.toList, isWordChar c = true

instance (w : String) : Decidable (IsWord w) :=
  decidable_of_iff (w.toList.isEmpty = false ∧ w.toList.all isWordChar = true)
    ⟨fun h => ⟨List.isEmpty_eq_false_iff.1 h.1, List.all_eq_true.1 h.2⟩,
      fun h => ⟨List.isEmpty_eq_false_iff.2 h.1, List.all_eq_true.2 h.2⟩⟩

/-- Words that a writer puts in quotes, since some reader takes them for a boolean or for null. -/
def reservedWords : List String :=
  ["null", "true", "false", "yes", "no", "on", "off", "y", "n"]

/-- A word that can be a key as it stands. -/
structure IsKey (w : String) : Prop extends IsWord w where
  /-- No digits and no capitals, so it is not a number either. -/
  lower : ∀ c ∈ w.toList, (c.isLower || c == '_') = true
  /-- Longer keys are written with a question mark in front. -/
  short : w.toList.length ≤ 128
  unreserved : w ∉ reservedWords

instance (w : String) : Decidable (IsKey w) :=
  decidable_of_iff
    (IsWord w ∧ w.toList.all (fun c => c.isLower || c == '_') = true ∧ w.toList.length ≤ 128 ∧
      w ∉ reservedWords)
    ⟨fun h => ⟨h.1, List.all_eq_true.1 h.2.1, h.2.2.1, h.2.2.2⟩,
      fun h => ⟨h.1, List.all_eq_true.2 h.2, h.3, h.4⟩⟩

/-! ## Outlines -/

/-- The entries of a block mapping from some entry on. -/
inductive Outline where
  | done
  /-- A key with a word behind it. -/
  | word (key text : String) (next : Outline)
  /-- A key with a mapping of its own below it. -/
  | block (key : String) (inner next : Outline)
deriving DecidableEq

/-- What a key stands for: a word or a mapping. -/
abbrev Content := String ⊕ Outline

/-- Whether a word that is written like this stands for nothing. -/
def Content.IsNull (v : Content) : Prop :=
  v = .inl "" ∨ v = .inl "~" ∨ v = .inl "null" ∨ v = .inl "Null" ∨ v = .inl "NULL"

namespace Outline

/-- Puts an entry in front. -/
def entry (key : String) : Content → Outline → Outline
  | .inl text, next => word key text next
  | .inr inner, next => block key inner next

/-- The entries: each key with what it stands for. -/
def entries : Outline → List (String × Content)
  | done => []
  | word key text next => (key, .inl text) :: next.entries
  | block key inner next => (key, .inr inner) :: next.entries

/-- The keys of the outermost level. -/
def keys (o : Outline) : List String := o.entries.map Prod.fst

/-- What a key of the outermost level stands for. -/
def value? (o : Outline) (key : String) : Option Content := o.entries.lookup key

/-- How many levels are nested in one another below the outermost one. -/
def depth : Outline → Nat
  | done => 0
  | word _ _ next => next.depth
  | block _ inner next => max (inner.depth + 1) next.depth

/-! ## Layout -/

/-- The lines of an outline whose keys stand in a column.  Each level stands `indent` columns to
the right of the one around it. -/
def lines (indent : Nat) : Outline → (column : Nat) → List Char
  | done, _ => []
  | word key text next, column =>
    List.replicate column ' ' ++ (key.toList ++ ':' :: ' ' :: (text.toList ++ '\n' ::
      next.lines indent column))
  | block key inner next, column =>
    List.replicate column ' ' ++ (key.toList ++ ':' :: '\n' ::
      (inner.lines indent (column + indent) ++ next.lines indent column))

/-- The text of an outline. -/
def text (o : Outline) (indent : Nat) : String := String.ofList (o.lines indent 0)

/-- The outline can be laid out in lines. -/
def IsPlain : Outline → Prop
  | done => True
  | word key text next => IsKey key ∧ IsWord text ∧ next.IsPlain
  | block key inner next => IsKey key ∧ inner ≠ done ∧ inner.IsPlain ∧ next.IsPlain

/-- The outline, laid out in lines, is a document. -/
structure IsDocument (o : Outline) : Prop where
  nonempty : o ≠ done
  plain : o.IsPlain
  /-- Readers give up on mappings that are nested deeper. -/
  shallow : o.depth < 128

end Outline
end PathFacts.Yaml
