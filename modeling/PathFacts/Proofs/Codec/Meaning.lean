import PathFacts.Codec
import PathFacts.Proofs.Yaml.Outline

/-!
# What an outline means

`Layout.Means` tells which value an outline stands for under a layout, whatever library reads it.
There are three main results.

* A codec that does what its documentation says reads an outline for what it means
  (`Codec.Documented.readText_of_means`).
* The order of the entries does not matter (`Layout.means_rearranged`).
* What is written of a value means that value (`Layout.means_written`), so it is read as it was
  (`Codec.Documented.readText_write`).

All of them are by recursion on the layout, with the fields of a record one by one.
-/

namespace PathFacts

open Yaml (Content Outline)

mutual

/-- Whether `v` stands for the value `x`. -/
def Layout.Means : {α : Type} → Layout α → (v : Content) → (x : α) → Prop
  | _, .bool, v, b => v = .inl (boolWord b)
  | _, .word32, v, n => v = .inl (toString n.toNat)
  | _, .word64, v, n => v = .inl (toString n.toNat)
  | _, .optional _, v, none => v = .inl "null"
  | _, .optional content, v, some x => ¬ v.IsNull ∧ content.Means v x
  | _, .record standard closed fields, v, x =>
    ∃ o, v = .inr o ∧ fields.Fit closed o ∧ fields.Means o standard x

/-- Whether `y` is the record `x` with the fields that `o` gives. -/
def Fields.Means : {α : Type} → Fields α → (o : Outline) → (x y : α) → Prop
  | _, .nil, _, x, y => x = y
  | _, .cons key layout _ set rest, o, x, y =>
    (o.value? key = none ∧ rest.Means o x y) ∨
      ∃ v z, o.value? key = some v ∧ layout.Means v z ∧ rest.Means o (set z x) y

end

variable {codec : Codec} {node : Content → codec.Node} {α : Type} {layout : Layout α}
  {fields : Fields α} {closed : Bool} {o p : Outline} {v w : Content} {x : α}

/-- A field that is given has the value that its entry means, and one that is left out stays as it
is. -/
theorem Fields.means_cons {β : Type} {key : String} {layout : Layout β} {get : α → β}
    {set : β → α → α} {rest : Fields α} {y : α} {value : Option Content} {z : β}
    (hkey : o.value? key = value) (hvalue : value.elim (set z x = x) (layout.Means · z))
    (hrest : rest.Means o (set z x) y) : (Fields.cons key layout get set rest).Means o x y := by
  cases value with
  | none =>
    have hsame : set z x = x := hvalue
    exact .inl ⟨hkey, hsame ▸ hrest⟩
  | some v => exact .inr ⟨v, z, hkey, hvalue, hrest⟩

/-- Without any entry a record stays as it is. -/
theorem Fields.eq_of_means_done : {α : Type} → (fields : Fields α) → {x y : α} →
    fields.Means .done x y → x = y
  | _, .nil, _, _, hmeans => hmeans
  | _, .cons _ _ _ _ rest, _, _, hmeans => by
    rcases hmeans with ⟨-, hrest⟩ | ⟨v, z, hkey, -⟩
    · exact rest.eq_of_means_done hrest
    · cases hkey

theorem Layout.eq_standard_of_means_done {standard : α}
    (hmeans : (Layout.record standard closed fields).Means (.inr .done) x) : x = standard := by
  obtain ⟨o, hdone, -, hfields⟩ := hmeans
  cases hdone
  exact (fields.eq_of_means_done hfields).symm

/-! ## Reading -/

mutual

/-- What a content means is what is read of its node. -/
theorem Codec.Documented.read_of_means (h : codec.Documented node) : {α : Type} →
    (layout : Layout α) → {v : Content} → {x : α} → v.depth ≤ 128 → layout.Means v x →
    codec.read layout (node v) = some x
  | _, .bool, v, b, _, hmeans => by
    rw [hmeans]
    exact h.read_bool b
  | _, .word32, v, n, _, hmeans => by
    rw [hmeans]
    exact h.read_word32 n
  | _, .word64, v, n, _, hmeans => by
    rw [hmeans]
    exact h.read_word64 n
  | _, .optional content, v, none, _, hmeans => by
    rw [hmeans]
    exact h.read_null content
  | _, .optional content, v, some x, hdepth, hmeans => by
    obtain ⟨hgiven, hmeans⟩ := hmeans
    rw [h.read_given content hgiven, h.read_of_means content hdepth hmeans]
    rfl
  | _, .record standard closed fields, v, x, hdepth, hmeans => by
    obtain ⟨o, rfl, hfit, hmeans⟩ := hmeans
    rw [h.read_record standard hdepth hfit]
    exact h.readFrom_of_means fields hdepth hmeans

theorem Codec.Documented.readFrom_of_means (h : codec.Documented node) : {α : Type} →
    (fields : Fields α) → {o : Outline} → {x y : α} → o.depth < 128 → fields.Means o x y →
    fields.readFrom (fun layout v => codec.read layout (node v)) o x = some y
  | _, .nil, o, x, y, _, hmeans => congrArg some hmeans
  | _, .cons key layout _ set rest, o, x, y, hdepth, hmeans => by
    rw [Fields.readFrom]
    rcases hmeans with ⟨hkey, hrest⟩ | ⟨v, z, hkey, hv, hrest⟩
    · rw [hkey]
      exact h.readFrom_of_means rest hdepth hrest
    · -- the value is no deeper than the record, so it can be read as well
      have hinner : v.depth ≤ o.depth := o.depth_le_of_mem (Outline.mem_entries_of_value? hkey)
      have hread := h.read_of_means layout (Nat.le_trans hinner (Nat.le_of_lt hdepth)) hv
      rw [hkey]
      simp only [hread, Option.bind_some]
      exact h.readFrom_of_means rest hdepth hrest

end

/-- A text is read as the value that its outline means. -/
theorem Codec.Documented.readText_of_means (h : codec.Documented node) (ho : o.IsDocument)
    {indent : Nat} (hindent : 0 < indent) (hmeans : layout.Means (.inr o) x) :
    codec.readText layout (o.text indent) = some x := by
  rw [Codec.readText, h.parse_text ho hindent, Option.bind_some]
  exact h.read_of_means layout ho.shallow hmeans

/-! ## Order -/

theorem Fields.Fit.rearranged (h : fields.Fit closed o) (horder : o.Rearranged p) :
    fields.Fit closed p where
  declared := h.declared
  once := horder.keys_perm.nodup_iff.1 h.once
  known hclosed key hkey := h.known hclosed key (horder.keys_perm.mem_iff.2 hkey)

mutual

/-- In another order the entries mean the same. -/
theorem Layout.means_rearranged : {α : Type} → (layout : Layout α) → {v w : Content} → {x : α} →
    v.Rearranged w → layout.Means v x → layout.Means w x
  | _, .bool, _, _, _, horder, hmeans => horder.eq_inl hmeans
  | _, .word32, _, _, _, horder, hmeans => horder.eq_inl hmeans
  | _, .word64, _, _, _, horder, hmeans => horder.eq_inl hmeans
  | _, .optional _, _, _, none, horder, hmeans => horder.eq_inl hmeans
  | _, .optional content, _, _, some _, horder, hmeans =>
    ⟨fun hnull => hmeans.1 (horder.isNull_iff.2 hnull), content.means_rearranged horder hmeans.2⟩
  | _, .record standard closed fields, _, _, _, horder, hmeans => by
    obtain ⟨o, rfl, hfit, hmeans⟩ := hmeans
    cases horder with
    | mapping horder =>
      exact ⟨_, rfl, hfit.rearranged horder, fields.means_rearranged horder hfit.once hmeans⟩

theorem Fields.means_rearranged : {α : Type} → (fields : Fields α) → {o p : Outline} → {x y : α} →
    o.Rearranged p → o.keys.Nodup → fields.Means o x y → fields.Means p x y
  | _, .nil, _, _, _, _, _, _, hmeans => hmeans
  | _, .cons key layout _ set rest, o, p, x, y, horder, hkeys, hmeans => by
    rcases hmeans with ⟨hkey, hrest⟩ | ⟨v, z, hkey, hv, hrest⟩
    · exact .inl ⟨horder.value?_eq_none hkey, rest.means_rearranged horder hkeys hrest⟩
    · obtain ⟨w, hw, hsame⟩ := horder.value?_eq_some hkeys hkey
      exact .inr ⟨w, z, hw, layout.means_rearranged hsame hv,
        rest.means_rearranged horder hkeys hrest⟩

end

/-! ## Writing -/

/-- The record `y` with every field as in `x`. -/
def Fields.copy : {α : Type} → Fields α → (x y : α) → α
  | _, .nil, _, y => y
  | _, .cons _ _ get set rest, x, y => rest.copy x (set (get x) y)

mutual

/-- Whether values can be told by what is written of them: the fields of a record make up all of it,
and nothing else is written like null. -/
def Layout.IsFaithful : {α : Type} → Layout α → Prop
  | _, .bool => True
  | _, .word32 => True
  | _, .word64 => True
  | _, .optional content => (∀ x, ¬ (content.written x).IsNull) ∧ content.IsFaithful
  | _, .record _ _ fields =>
    fields.keys.Nodup ∧ (∀ x y, fields.copy x y = x) ∧ fields.AreFaithful

/-- Whether the values of all fields can be told. -/
def Fields.AreFaithful : {α : Type} → Fields α → Prop
  | _, .nil => True
  | _, .cons _ layout _ _ rest => layout.IsFaithful ∧ rest.AreFaithful

end

theorem Fields.keys_written : {α : Type} → (fields : Fields α) → (x : α) →
    (fields.written x).keys = fields.keys
  | _, .nil, _ => rfl
  | _, .cons key layout get set rest, x => by
    rw [Fields.written, Outline.keys, Outline.entries_entry, List.map_cons, Fields.keys,
      ← rest.keys_written x]
    rfl

mutual

/-- What is written of a value means that value. -/
theorem Layout.means_written : {α : Type} → (layout : Layout α) → layout.IsFaithful → (x : α) →
    layout.Means (layout.written x) x
  | _, .bool, _, _ => rfl
  | _, .word32, _, _ => rfl
  | _, .word64, _, _ => rfl
  | _, .optional _, _, none => rfl
  | _, .optional content, h, some x => ⟨h.1 x, content.means_written h.2 x⟩
  | _, .record standard closed fields, h, x => by
    obtain ⟨hdeclared, hcopy, hfields⟩ := h
    have hkeys : (fields.written x).keys = fields.keys := fields.keys_written x
    -- all fields are given, so nothing is left of the standard record
    have hmeans := fields.means_written hfields (hkeys ▸ hdeclared) (fun _ => id) standard
    rw [hcopy] at hmeans
    exact ⟨_, rfl, ⟨hdeclared, hkeys ▸ hdeclared, fun _ key hkey => hkeys ▸ hkey⟩, hmeans⟩

/-- Where all fields of a record are given, they are as in that record. -/
theorem Fields.means_written : {α : Type} → (fields : Fields α) → fields.AreFaithful →
    {o : Outline} → {x : α} → o.keys.Nodup → (∀ e ∈ (fields.written x).entries, e ∈ o.entries) →
    (y : α) → fields.Means o y (fields.copy x y)
  | _, .nil, _, _, _, _, _, _ => rfl
  | _, .cons key layout get set rest, h, o, x, hkeys, hgiven, y => by
    rw [Fields.written, Outline.entries_entry, List.forall_mem_cons] at hgiven
    refine .inr ⟨layout.written (get x), get x, ?_, layout.means_written h.1 (get x), ?_⟩
    · exact (Outline.value?_eq_some_iff hkeys).2 hgiven.1
    · exact rest.means_written h.2 hkeys hgiven.2 (set (get x) y)

end

/-- A value that is written is read as it was. -/
theorem Codec.Documented.readText_write (h : codec.Documented node) (hlayout : layout.IsFaithful)
    (ho : o.IsDocument) (hx : layout.written x = .inr o) :
    codec.readText layout (codec.write layout x) = some x := by
  have hmeans := layout.means_written hlayout x
  rw [hx] at hmeans
  rw [h.write_text ho hx]
  exact h.readText_of_means ho (by decide) hmeans

end PathFacts
