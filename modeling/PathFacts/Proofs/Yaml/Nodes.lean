import PathFacts.Proofs.Yaml.Lines
import PathFacts.Yaml.Document

/-!
# Nodes of an outline

The tokens of an outline make up its nodes, on every level (`Outline.blockEntries_tokens`), so its
text is a document that says what the outline says (`Outline.document_text`).
-/

namespace PathFacts.Yaml

/-! ## Nodes without properties -/

namespace Outline

/-- A plain scalar without a tag. -/
def plain (text : String) : Node := .scalar text .plain none

/-- The entries as nodes. -/
def nodes : Outline → List (Node × Node)
  | done => []
  | word key text next => (plain key, plain text) :: next.nodes
  | block key inner next => (plain key, .mapping inner.nodes) :: next.nodes

end Outline

namespace NodeReader

variable {fuel : Nat} {text : String} {rest : List Token}

theorem node_scalar (block flat : Bool) (r : NodeReader) :
    node (fuel + 2) block flat { r with tokens := .scalar text .plain :: rest }
      = some (.scalar text .plain none, { r with tokens := rest }) := by
  simp [node, content, next?, readProperties, readAnchor, readTag, tag?, enter, leave, skip]

theorem node_blockMapping (flat : Bool) (r : NodeReader) :
    node (fuel + 2) true flat { r with tokens := .blockMapping :: rest }
      = (blockEntries fuel [] { r with tokens := rest }).map fun (entries, r) =>
          (.mapping entries.reverse, r) := by
  cases h : blockEntries fuel [] { r with tokens := rest } <;>
    simp [node, content, next?, readProperties, readAnchor, readTag, tag?, enter, leave, skip, h]

/-- A key is followed by its value. -/
theorem blockEntries_key (entries : List (Node × Node)) (key : String) (r : NodeReader) :
    blockEntries (fuel + 4) entries
        { r with tokens := .key :: .scalar key .plain :: .value :: rest }
      = (nodeOrEmpty (fuel + 2) true true [.key, .value, .blockEnd] { r with tokens := rest }).bind
          fun (value, r) => blockEntries (fuel + 3) ((Outline.plain key, value) :: entries) r := by
  rw [blockEntries]
  simp only [next?, skip, List.head?_cons, List.drop_succ_cons, List.drop_zero]
  have hkey : nodeOrEmpty (fuel + 3) true true [.key, .value, .blockEnd]
      { r with tokens := .scalar key .plain :: .value :: rest }
      = some (Outline.plain key, { r with tokens := .value :: rest }) := by
    rw [nodeOrEmpty, node_scalar]
    rfl
  have hvalue : valueOrEmpty (fuel + 3) true [.key, .value, .blockEnd]
      { r with tokens := .value :: rest }
      = nodeOrEmpty (fuel + 2) true true [.key, .value, .blockEnd] { r with tokens := rest } := by
    rw [valueOrEmpty]
    rfl
  simp only [hkey, hvalue, Option.bind_eq_bind, Option.bind_some]

/-- An entry whose value is a word. -/
theorem blockEntries_word (key : String) (entries : List (Node × Node)) (r : NodeReader) :
    blockEntries (fuel + 5) entries
        { r with tokens := .key :: .scalar key .plain :: .value :: .scalar text .plain :: rest }
      = blockEntries (fuel + 4) ((Outline.plain key, Outline.plain text) :: entries)
          { r with tokens := rest } := by
  rw [blockEntries_key, nodeOrEmpty, node_scalar]
  rfl

/-- An entry whose value is a mapping. -/
theorem blockEntries_block (key : String) (entries : List (Node × Node)) (r : NodeReader) :
    blockEntries (fuel + 5) entries
        { r with tokens := .key :: .scalar key .plain :: .value :: .blockMapping :: rest }
      = (blockEntries fuel [] { r with tokens := rest }).bind fun (inner, r) =>
          blockEntries (fuel + 4) ((Outline.plain key, .mapping inner.reverse) :: entries) r := by
  rw [blockEntries_key, nodeOrEmpty, node_blockMapping]
  cases blockEntries fuel [] { r with tokens := rest } <;> rfl

end NodeReader

/-! ## Outlines -/

namespace Outline

open NodeReader

/-- The tokens of an outline are read as its nodes. -/
theorem blockEntries_tokens (o : Outline) {fuel : Nat} (hfuel : o.tokens.length + 5 ≤ fuel)
    (entries : List (Node × Node)) (rest : List Token) (r : NodeReader) :
    blockEntries fuel entries { r with tokens := o.tokens ++ .blockEnd :: rest }
      = some (o.nodes.reverse ++ entries, { r with tokens := rest }) := by
  induction o generalizing fuel entries rest r with
  | done =>
    obtain ⟨fuel, rfl⟩ : ∃ n, fuel = n + 1 := ⟨fuel - 1, by omega⟩
    simp [blockEntries, tokens, nodes, next?, skip]
  | word key text next ih =>
    obtain ⟨fuel, rfl⟩ : ∃ n, fuel = n + 5 := ⟨fuel - 5, by omega⟩
    have hnext : next.tokens.length + 5 ≤ fuel + 4 := by simp [tokens] at hfuel; omega
    simp only [tokens, List.cons_append]
    rw [blockEntries_word, ih hnext]
    simp [nodes]
  | block key inner next ihInner ihNext =>
    obtain ⟨fuel, rfl⟩ : ∃ n, fuel = n + 5 := ⟨fuel - 5, by omega⟩
    have hinner : inner.tokens.length + 5 ≤ fuel := by simp [tokens] at hfuel; omega
    have hnext : next.tokens.length + 5 ≤ fuel + 4 := by simp [tokens] at hfuel; omega
    simp only [tokens, List.cons_append, List.append_assoc]
    rw [blockEntries_block, ihInner hinner]
    simp [nodes, ihNext hnext]

/-- A mapping in lines is a document as it stands. -/
theorem ofTokens?_blockMapping (ts : List Token) :
    Document.ofTokens? (.blockMapping :: ts)
      = Document.readContent Document.standardHandles (.blockMapping :: ts) := by
  simp [Document.ofTokens?, Document.readDirectives]

/-- The text of an outline is a document: the mapping of its nodes, without any anchor. -/
theorem document_text {indent : Nat} (hindent : 0 < indent) {o : Outline} (ho : o.IsPlain)
    (hne : o ≠ done) : Document.ofText? (o.text indent) = some ⟨.mapping o.nodes, #[]⟩ := by
  rw [Document.ofText?, tokens_text hindent ho hne, Option.bind_some, ofTokens?_blockMapping,
    Document.readContent]
  generalize hts : Token.blockMapping :: (o.tokens ++ [.blockEnd]) = ts
  have hfuel : o.tokens.length + 5 ≤ 4 * ts.length + 6 := by simp [← hts]; omega
  have hread (r : NodeReader) :
      node (4 * ts.length + 8) true false { r with tokens := ts }
        = some (.mapping o.nodes, { r with tokens := [] }) := by
    rw [← hts, node_blockMapping, hts, blockEntries_tokens o hfuel]
    simp
  rw [hread { tokens := ts, handles := Document.standardHandles }]
  rfl

end Outline
end PathFacts.Yaml
