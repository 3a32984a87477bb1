import PathFacts.Yaml.Outline

/-!
# Values as documents

Settings are read from YAML and written as YAML by a library.  The program only declares how its
values are laid out; the library does the rest.  Here a `Layout` is such a declaration, and a
`Codec` is such a library, a parameter of everything that reads or writes.

What the program relies on is `Codec.Documented`: one field for each thing that the library promises
in its documentation.  It is about documents that are an `Outline`.  Of other texts nothing is
assumed.
-/

namespace PathFacts

open Yaml (Content Outline)

/-! ## Layouts -/

mutual

/-- How the values of a type are laid out in a document. -/
inductive Layout : Type → Type 1 where
  | bool : Layout Bool
  | word32 : Layout UInt32
  | word64 : Layout UInt64
  | optional {α : Type} (content : Layout α) : Layout (Option α)
  /-- A mapping with one key for each field.  Fields that are left out are as in `standard`; a
  closed record refuses keys that it does not declare. -/
  | record {α : Type} (standard : α) (closed : Bool) (fields : Fields α) : Layout α

/-- The fields of a record, each with its key. -/
inductive Fields : Type → Type 1 where
  | nil {α : Type} : Fields α
  | cons {α β : Type} (key : String) (layout : Layout β) (get : α → β) (set : β → α → α)
      (rest : Fields α) : Fields α

end

/-- The word for a boolean. -/
def boolWord (b : Bool) : String := if b then "true" else "false"

/-- The keys of all fields, in the order in which they were declared. -/
def Fields.keys : {α : Type} → Fields α → List String
  | _, .nil => []
  | _, .cons key _ _ _ rest => key :: rest.keys

/-- An outline gives no field of a record twice, and nothing that a closed record refuses. -/
structure Fields.Fit {α : Type} (fields : Fields α) (closed : Bool) (o : Outline) : Prop where
  declared : fields.keys.Nodup
  once : o.keys.Nodup
  known : closed = true → ∀ key ∈ o.keys, key ∈ fields.keys

/-- Reads the fields that an outline gives, and leaves the others as they are in `x`. -/
def Fields.readFrom (read : {β : Type} → Layout β → Content → Option β) :
    {α : Type} → Fields α → Outline → (x : α) → Option α
  | _, .nil, _, x => some x
  | _, .cons key layout _ set rest, o, x =>
    match o.value? key with
    | none => rest.readFrom read o x
    | some v => (read layout v).bind fun z => rest.readFrom read o (set z x)

mutual

/-- What is written of a value: every field of a record, in the order of the declaration. -/
def Layout.written : {α : Type} → Layout α → α → Content
  | _, .bool, b => .inl (boolWord b)
  | _, .word32, n => .inl (toString n.toNat)
  | _, .word64, n => .inl (toString n.toNat)
  | _, .optional _, none => .inl "null"
  | _, .optional content, some x => content.written x
  | _, .record _ _ fields, x => .inr (fields.written x)

/-- The entries that are written of a record. -/
def Fields.written : {α : Type} → Fields α → α → Outline
  | _, .nil, _ => .done
  | _, .cons key layout get _ rest, x => .entry key (layout.written (get x)) (rest.written x)

end

/-! ## Codecs -/

/-- A library that reads values from texts and writes them as texts. -/
structure Codec where
  /-- What a text is taken apart into. -/
  Node : Type
  parse (text : String) : Option Node
  /-- Reads a value that is laid out in the declared way. -/
  read {α : Type} (layout : Layout α) (node : Node) : Option α
  write {α : Type} (layout : Layout α) (x : α) : String

namespace Codec

/-- Reads a value from the text of a document. -/
def readText {α : Type} (codec : Codec) (layout : Layout α) (text : String) : Option α :=
  (codec.parse text).bind (codec.read layout)

/-- What the documentation of a codec says.  `node v` is the node that says `v`, without quotes,
tags or anchors. -/
structure Documented (codec : Codec) (node : Content → codec.Node) : Prop where
  /-- Block mappings may be indented as one likes. -/
  parse_text {o : Outline} {indent : Nat} (ho : o.IsDocument) (hindent : 0 < indent) :
    codec.parse (o.text indent) = some (node (.inr o))
  read_bool (b : Bool) : codec.read .bool (node (.inl (boolWord b))) = some b
  /-- Numbers may be written in decimal. -/
  read_word32 (n : UInt32) : codec.read .word32 (node (.inl (toString n.toNat))) = some n
  read_word64 (n : UInt64) : codec.read .word64 (node (.inl (toString n.toNat))) = some n
  read_null {α : Type} (content : Layout α) :
    codec.read (.optional content) (node (.inl "null")) = some none
  /-- What is not null is the content of an optional value. -/
  read_given {α : Type} {v : Content} (content : Layout α) (hv : ¬ v.IsNull) :
    codec.read (.optional content) (node v) = (codec.read content (node v)).map some
  /-- A record is read field by field. -/
  read_record {α : Type} {closed : Bool} {fields : Fields α} {o : Outline} (standard : α)
    (hshallow : o.depth < 128) (hfit : fields.Fit closed o) :
    codec.read (.record standard closed fields) (node (.inr o))
      = fields.readFrom (fun layout v => codec.read layout (node v)) o standard
  /-- Block mappings are written with two columns for each level. -/
  write_text {α : Type} {layout : Layout α} {x : α} {o : Outline} (ho : o.IsDocument)
    (hx : layout.written x = .inr o) : codec.write layout x = o.text 2

end Codec
end PathFacts
