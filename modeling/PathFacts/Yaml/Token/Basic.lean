import PathFacts.Yaml.Tag

/-!
# Tokens of YAML texts

A text is read as a list of tokens, in which the layout of blocks has become explicit: a
block collection begins with a token of its own and ends with `blockEnd`, and every key has
a `key` token in front of it, whether one is written or not.
-/

namespace PathFacts.Yaml

/-- How a scalar was written. -/
inductive Style where
  | plain
  | quoted
  | literal
  | folded
deriving DecidableEq, Inhabited

/-- A token. -/
inductive Token where
  /-- The directive that names a version of the language. -/
  | version (major minor : Nat)
  /-- The directive that says what a handle of tags stands for. -/
  | handle (name : String) (start : Octets)
  | documentStart
  | documentEnd
  | blockSequence
  | blockMapping
  | blockEnd
  | flowSequence
  | flowSequenceEnd
  | flowMapping
  | flowMappingEnd
  /-- A dash in front of an item. -/
  | item
  | comma
  | key
  | value
  | anchor (name : String)
  | aliasOf (name : String)
  | tag (name : TagName)
  | scalar (text : String) (style : Style)
deriving DecidableEq, Inhabited

end PathFacts.Yaml
