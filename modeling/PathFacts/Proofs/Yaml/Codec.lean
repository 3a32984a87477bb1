import PathFacts.Proofs.Yaml.Nodes
import PathFacts.Proofs.Yaml.Numbers
import PathFacts.Proofs.Yaml.Outline
import PathFacts.Yaml.Codec

/-!
# The YAML codec does what its documentation says

`codec_documented` has one lemma for each kind of node: texts are taken apart into the nodes of
their outline (`Outline.document_text`), numbers are read in decimal (`Node.unsigned?_decimal`), and
the fields of a record are found by their keys (`readFields_document`).
-/

namespace PathFacts.Yaml

variable {o : Outline} {v : Content} {α : Type}

/-! ## Nodes that say something -/

/-- A word or a mapping as a node. -/
def Content.node : Content → Node
  | .inl text => Outline.plain text
  | .inr o => .mapping o.nodes

/-- A document without anchors. -/
def Content.document (v : Content) : Document := ⟨v.node, #[]⟩

namespace Outline

/-- The nodes by their keys. -/
def fields (o : Outline) : List (String × Node) := o.entries.map fun (key, v) => (key, v.node)

/-- The keys of an outline are words. -/
theorem fields?_mapping (d : Document) (o : Outline) :
    d.fields? (.mapping o.nodes) = some o.fields := by
  have hfields : o.nodes.mapM (fun e => (d.follow e.1).text?.map fun k => (k, d.follow e.2))
      = some o.fields := by
    induction o with
    | done => rfl
    | word key text next ih =>
      rw [nodes, List.mapM_cons, ih]
      rfl
    | block key inner next _ ih =>
      rw [nodes, List.mapM_cons, ih]
      rfl
  exact hfields

theorem onlyKeys_fields {known : List String} :
    onlyKeys known o.fields = true ↔ ∀ key ∈ o.keys, key ∈ known := by
  rw [onlyKeys, fields, keys, List.all_eq_true, List.forall_mem_map, List.forall_mem_map]
  simp only [List.contains_iff_mem]

/-- Where no key is given twice, the entries with some key are the one that is found. -/
theorem filter_fields (hkeys : o.keys.Nodup) (key : String) :
    o.fields.filter (·.1 == key) = (o.value? key).toList.map fun v => (key, v.node) := by
  have hentries : o.entries.filter (·.1 == key) = (o.value? key).toList.map (key, ·) := by
    unfold keys at hkeys
    unfold value?
    generalize o.entries = es at hkeys ⊢
    induction es with
    | nil => rfl
    | cons e rest ih =>
      obtain ⟨k, v⟩ := e
      obtain ⟨hnew, hrest⟩ := List.nodup_cons.1 hkeys
      by_cases hk : k = key
      · have hnone : rest.lookup key = none := by
          simp only [List.lookup_eq_none_iff, bne_iff_ne]
          rintro e he rfl
          exact hnew (List.mem_map.2 ⟨e, he, hk.symm⟩)
        have hothers := ih hrest
        rw [hnone] at hothers
        simp [hk, hothers]
      · have hother : (key == k) = false := beq_eq_false_iff_ne.2 (Ne.symm hk)
        simp [hk, List.lookup_cons, hother, ih hrest]
  rw [fields, List.filter_map, Function.comp_def]
  simp only [hentries, List.map_map]
  rfl

end Outline

/-! ## Records -/

/-- Fields are read one by one, where no key is given twice. -/
theorem readFields_document (hkeys : o.keys.Nodup) : {α : Type} → (fields : Fields α) → (x : α) →
    readFields fields (Content.document (.inr o)) o.fields x
      = fields.readFrom (fun layout v => readRoot layout v.document) o x
  | _, .nil, x => rfl
  | _, .cons key layout get set rest, x => by
    rw [readFields, Fields.readFrom, Outline.filter_fields hkeys]
    cases o.value? key with
    | none => exact readFields_document hkeys rest x
    | some v =>
      exact congrArg (Option.bind _) (funext fun z => readFields_document hkeys rest (set z x))

theorem readRoot_record (standard : α) {closed : Bool} {fields : Fields α}
    (hfit : fields.Fit closed o) :
    readRoot (.record standard closed fields) (Content.document (.inr o))
      = fields.readFrom (fun layout v => readRoot layout v.document) o standard := by
  have hallowed : (closed && !onlyKeys fields.keys o.fields) = false := by
    cases closed with
    | false => rfl
    | true => simp [Outline.onlyKeys_fields.2 (hfit.known rfl)]
  have hentries : (Content.document (.inr o)).fields? (Content.document (.inr o)).root
      = some o.fields := Outline.fields?_mapping _ o
  rw [readRoot, hentries, ← readFields_document hfit.once, Option.bind_eq_bind, Option.bind_some,
    hallowed, if_neg Bool.false_ne_true]

/-! ## Optional values -/

theorem readRoot_given (content : Layout α) (hv : ¬ v.IsNull) :
    readRoot (.optional content) v.document = (readRoot content v.document).map some := by
  cases v with
  | inr o => rfl
  | inl text =>
    have hnull : (text.isEmpty || Node.isNullWord text) = false := by
      simp [Content.IsNull] at hv
      simp [Node.isNullWord, hv]
    simp [readRoot, Content.document, Content.node, Outline.plain, Node.optional?, hnull]

/-! ## All together -/

/-- The codec reads plain outlines for what they say, and writes values as such. -/
theorem codec_documented : codec.Documented Content.document where
  parse_text ho hindent := Outline.document_text hindent ho.plain ho.nonempty
  read_bool b := by cases b <;> rfl
  read_word32 n := by
    show (Node.unsigned? _ (.scalar (toString n.toNat) .plain none)).map UInt32.ofNat = some n
    rw [Node.unsigned?_decimal n.toNat_lt, Option.map_some, UInt32.ofNat_toNat]
  read_word64 n := by
    show (Node.unsigned? _ (.scalar (toString n.toNat) .plain none)).map UInt64.ofNat = some n
    rw [Node.unsigned?_decimal n.toNat_lt, Option.map_some, UInt64.ofNat_toNat]
  read_null content := rfl
  read_given content hv := readRoot_given content hv
  read_record standard _ hfit := readRoot_record standard hfit
  write_text {α layout x o} _ hx := by
    show (match layout.written x with | .inl text => text ++ "\n" | .inr o => o.text 2) = o.text 2
    rw [hx]

end PathFacts.Yaml
