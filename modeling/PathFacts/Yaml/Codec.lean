import PathFacts.Codec
import PathFacts.Yaml.Document

/-!
# The YAML codec

A codec that runs: `Yaml.codec` reads the texts of YAML documents, and writes values as block
mappings.  No theorem about settings depends on how it does so.  It is there for programs that need
some codec, and to show that one does what the documentation says.

A node is read together with the nodes that its aliases stand for, so it is a document of its own.
Typed readings are those of `Node`.
-/

namespace PathFacts.Yaml

/-- Whether all keys are among `known`. -/
def onlyKeys (known : List String) (entries : List (String × Node)) : Bool :=
  entries.all fun (key, _) => known.contains key

mutual

/-- Reads the root of a document.  A record is a mapping whose keys are words. -/
def readRoot : {α : Type} → Layout α → Document → Option α
  | _, .bool, d => d.root.bool?
  | _, .word32, d => (d.root.unsigned? UInt32.size).map UInt32.ofNat
  | _, .word64, d => (d.root.unsigned? UInt64.size).map UInt64.ofNat
  | _, .optional content, d => d.root.optional? fun n => readRoot content { d with root := n }
  | _, .record standard closed fields, d => do
    let entries ← d.fields? d.root
    if closed && !onlyKeys fields.keys entries then none
    else readFields fields d entries standard

/-- Reads the fields that are given among the entries of a mapping, each at most once. -/
def readFields : {α : Type} → Fields α → Document → List (String × Node) → α → Option α
  | _, .nil, _, _, x => some x
  | _, .cons key layout _ set rest, d, entries, x =>
    match entries.filter (·.1 == key) with
    | [] => readFields rest d entries x
    | [(_, n)] => (readRoot layout { d with root := n }).bind fun z =>
      readFields rest d entries (set z x)
    | _ => none

end

/-- Reads and writes YAML. -/
def codec : Codec where
  Node := Document
  parse := Document.ofText?
  read := readRoot
  write layout x :=
    match layout.written x with
    | .inl text => text ++ "\n"
    | .inr o => o.text 2

end PathFacts.Yaml
