import PathFacts.Proofs.ValueType.Null

/-!
# What a facet tells of its object

`ValueType.ofFacet` turns the type of a facet into a type of the object that has it, and
`ValueType.forgetNullability` takes back what that says about null.  Both keep the order: the
less is known of the facet, the less is known of the object (`ValueType.ofFacet_mono`,
`ValueType.forgetNullability_mono`).  What a facet tells always has its bounds in order, because
a size is cut to what can be a size.

Taking back what is known about null does not bring null back.  Null has neither a size nor
anything present, so it is admitted only where the facet is `Facet.Silent`.  A text is admitted
exactly where its number of characters may be the size (`ValueType.admits_str_of_isSize`).
-/

namespace PathFacts

/-- Whether a facet of type `t` tells nothing more of its object than that there is one: it is a
possible facet, and no size and no presence follow from it. -/
def Facet.Silent (f : Facet) (t : ValueType) : Prop :=
  t ≠ .bottom ∧ (f.isSize = true → t.interval? = none) ∧
    (f = .optionalContent → t.presence = none)

instance (f : Facet) (t : ValueType) : Decidable (f.Silent t) :=
  inferInstanceAs (Decidable (_ ∧ _ ∧ _))

namespace ValueType

variable {a b t : ValueType} {f : Facet} {r : Interval}

/-! ## Views of ordered types -/

theorem eq_bottom_of_le (h : a ≤ bottom) : a = bottom := by
  have hjoin : a.join bottom = bottom := h
  rwa [join_bottom] at hjoin

/-- Below an interval there are only intervals inside it. -/
theorem interval?_of_le (ha : a ≠ bottom) (h : a ≤ b) {s : Interval} (hs : b.interval? = some s) :
    ∃ r, a.interval? = some r ∧ r.join s = s := by
  cases b with
  | constant own =>
    rw [eq_of_le_constant ha h]
    exact ⟨s, hs, Interval.join_self s⟩
  | range s' =>
    cases hs
    cases a with
    | bottom => exact absurd rfl ha
    | top => cases eq_top_of_le h rfl
    | range r => exact ⟨r, rfl, range_le_iff.1 h⟩
    | reference g => cases eq_top_or_reference_of_reference_le h <;> simp_all
    | constant own =>
      rw [constant_le_iff] at h
      cases own with
      | int v => exact ⟨_, rfl, Interval.join_eq_right_iff.2 (Interval.contains_iff.1 h)⟩
      | float _ | bool _ | char _ | str _ | null => cases h
  | bottom | reference _ | top => cases hs

/-- Below a reference there are only references. -/
theorem isReference_of_le (ha : a ≠ bottom) (h : a ≤ b) (hb : b.isReference = true) :
    a.isReference = true := by
  cases b with
  | constant own => rwa [eq_of_le_constant ha h]
  | reference g =>
    cases a with
    | bottom => exact absurd rfl ha
    | top => cases eq_top_of_le h rfl
    | range r => cases eq_top_or_range_of_range_le h <;> simp_all
    | reference f => rfl
    | constant own =>
      rw [constant_le_iff] at h
      cases own with
      | null | str _ => rfl
      | int _ | float _ | bool _ | char _ => cases h
  | bottom | range _ | top => cases hb

/-- Presence that follows from the larger type follows from the smaller one. -/
theorem presence_of_le (ha : a ≠ bottom) (h : a ≤ b) :
    b.presence = none ∨ b.presence = a.presence := by
  by_cases hnull : b = null
  · rw [eq_of_le_constant ha (hnull ▸ h), hnull]
    exact Or.inr rfl
  by_cases hb : b.excludesNull = true
  · have ha' : a.excludesNull = true := excludesNull_of_le ha h hb
    have hanull : a ≠ null := by
      rintro rfl
      cases ha'
    right
    rw [presence, presence, if_neg hnull, if_pos hb, if_neg hanull, if_pos ha']
  · exact Or.inl (by rw [presence, if_neg hnull, if_neg hb])

/-! ## Objects known by a facet -/

@[simp] theorem ofFacet_bottom (f : Facet) : ofFacet f bottom = bottom := rfl

theorem ofFacet_unboxed (ht : t ≠ bottom) : ofFacet .unboxed t = notNull := if_neg ht

theorem ofFacet_content (ht : t ≠ bottom) :
    ofFacet .optionalContent t = reference ⟨.notNull, t.presence, none⟩ := if_neg ht

theorem ofFacet_of_unsized (hf : f.isSize = true) (ht : t ≠ bottom) (h : t.interval? = none) :
    ofFacet f t = notNull := by
  rw [ofFacet, if_neg ht, if_pos hf, h]

theorem ofFacet_of_sized (hf : f.isSize = true) (h : t.interval? = some r) :
    ofFacet f t =
      ((r.meet? .sizes).map fun s => reference ⟨.notNull, none, some s⟩).getD bottom := by
  have ht : t ≠ bottom := by
    rintro rfl
    cases h
  rw [ofFacet, if_neg ht, if_pos hf, h]
  dsimp only
  cases r.meet? .sizes <;> rfl

/-- A facet tells that there is no such object, or that it is not null, with what is known of
its presence and of its size.  A size was cut to what can be a size, so its bounds are in order. -/
theorem ofFacet_cases (f : Facet) (t : ValueType) :
    ofFacet f t = bottom ∨ ∃ p s, ofFacet f t = reference ⟨.notNull, p, s⟩ ∧
      ∀ q, s = some q → q.Ordered := by
  by_cases ht : t = bottom
  · exact Or.inl (by rw [ht, ofFacet_bottom])
  by_cases hf : f.isSize = true
  · cases h : t.interval? with
    | none => exact Or.inr ⟨none, none, ofFacet_of_unsized hf ht h, nofun⟩
    | some r =>
      rw [ofFacet_of_sized hf h]
      cases hs : r.meet? .sizes with
      | none => exact Or.inl rfl
      | some s =>
        refine Or.inr ⟨none, some s, rfl, ?_⟩
        intro q hq
        cases hq
        exact (Interval.meet?_eq_some_iff.1 hs).1
  · cases f with
    | unboxed => exact Or.inr ⟨none, none, ofFacet_unboxed ht, nofun⟩
    | optionalContent => exact Or.inr ⟨t.presence, none, ofFacet_content ht, nofun⟩
    | arrayLength | stringLength | collectionSize => exact absurd rfl hf

theorem ofFacet_le_notNull (f : Facet) (t : ValueType) : ofFacet f t ≤ notNull := by
  rcases ofFacet_cases f t with h | ⟨p, s, h, -⟩
  · exact h ▸ bottom_le _
  · rw [h]
    exact reference_le_iff.2 (ReferenceInfo.join_eq_right_iff.2 ⟨Or.inr rfl, Or.inl rfl, nofun⟩)

theorem ordered_ofFacet (f : Facet) (t : ValueType) : (ofFacet f t).Ordered := by
  rcases ofFacet_cases f t with h | ⟨p, s, h, hs⟩
  · exact h ▸ trivial
  · exact h ▸ hs

theorem ofFacet_mono_of_isSize (hf : f.isSize = true) (ha : a ≠ bottom) (h : a ≤ b) :
    ofFacet f a ≤ ofFacet f b := by
  have hb : b ≠ bottom := fun hb => ha (eq_bottom_of_le (hb ▸ h))
  cases hs : b.interval? with
  | none =>
    rw [ofFacet_of_unsized hf hb hs]
    exact ofFacet_le_notNull f a
  | some s =>
    obtain ⟨r, hr, hrs⟩ := interval?_of_le ha h hs
    rw [ofFacet_of_sized hf hr, ofFacet_of_sized hf hs]
    cases hq : r.meet? .sizes with
    | none => exact bottom_le _
    | some q =>
      have hq' : Interval.sizes.meet? r = some q := by rwa [Interval.meet?_comm]
      have hqs : q.join s = s := by
        rw [← hrs, ← Interval.join_assoc, Interval.join_of_meet? hq]
      obtain ⟨m, hm, hqm⟩ := Interval.exists_meet? (Interval.meet?_eq_some_iff.1 hq).1 hqs
        (Interval.join_of_meet? hq')
      rw [hm]
      refine reference_le_iff.2 (ReferenceInfo.join_eq_right_iff.2 ⟨Or.inr rfl, Or.inl rfl, ?_⟩)
      intro m' hm'
      cases hm'
      exact ⟨q, rfl, hqm⟩

/-- The less is known of a facet, the less is known of its object. -/
theorem ofFacet_mono (h : a ≤ b) (f : Facet) : ofFacet f a ≤ ofFacet f b := by
  by_cases ha : a = bottom
  · rw [ha, ofFacet_bottom]
    exact bottom_le _
  have hb : b ≠ bottom := fun hb => ha (eq_bottom_of_le (hb ▸ h))
  cases f with
  | unboxed => rw [ofFacet_unboxed ha, ofFacet_unboxed hb]
  | optionalContent =>
    rw [ofFacet_content ha, ofFacet_content hb, reference_le_iff, ReferenceInfo.join_eq_right_iff]
    exact ⟨Or.inr rfl, presence_of_le ha h, nofun⟩
  | arrayLength | stringLength | collectionSize => exact ofFacet_mono_of_isSize rfl ha h

/-! ## Forgetting what is known about null -/

theorem forgetNullability_of_not_isReference (h : t.isReference = false) :
    t.forgetNullability = t := by
  cases t with
  | constant own =>
    cases own with
    | null | str _ => cases h
    | int _ | float _ | bool _ | char _ => rfl
  | reference g => cases h
  | bottom | range _ | top => rfl

theorem le_forgetNullability (t : ValueType) : t ≤ t.forgetNullability := by
  cases t with
  | reference g =>
    exact reference_le_iff.2 (ReferenceInfo.join_eq_right_iff.2
      ⟨Or.inl rfl, Or.inr rfl, fun s hs => ⟨s, hs, Interval.join_self s⟩⟩)
  | constant own =>
    cases own with
    | null => exact constant_le_iff.2 rfl
    | int _ | float _ | bool _ | char _ | str _ => exact le_refl _
  | bottom | range _ | top => exact le_refl _

theorem ordered_forgetNullability (h : t.Ordered) : t.forgetNullability.Ordered := by
  cases t with
  | reference g => exact h
  | constant own =>
    cases own with
    | null => exact nofun
    | int _ | float _ | bool _ | char _ | str _ => trivial
  | bottom | top => trivial
  | range r => exact h

theorem forgetNullability_mono (h : a ≤ b) : a.forgetNullability ≤ b.forgetNullability := by
  cases a with
  | bottom => exact bottom_le _
  | top => rw [eq_top_of_le h rfl]
  | range r => exact h.trans (le_forgetNullability b)
  | constant own =>
    cases own with
    | int _ | float _ | bool _ | char _ | str _ => exact h.trans (le_forgetNullability b)
    | null =>
      -- whatever is above null has neither size nor presence
      rw [constant_le_iff] at h
      cases b with
      | top => exact join_top _
      | reference g =>
        obtain ⟨-, hp, hs⟩ := ReferenceInfo.admits_null_iff.1 h
        refine reference_le_iff.2 (ReferenceInfo.join_eq_right_iff.2 ⟨Or.inl rfl, Or.inl hp, ?_⟩)
        intro s hs'
        rw [ReferenceInfo.forgetNullability, hs] at hs'
        cases hs'
      | constant own =>
        cases admits_constant_iff.1 h
        exact le_refl _
      | bottom | range _ => cases h
  | reference f =>
    obtain rfl | ⟨g, rfl, hg⟩ := eq_top_or_reference_of_reference_le h
    · exact join_top _
    · obtain ⟨-, hp, hs⟩ := ReferenceInfo.join_eq_right_iff.1 hg
      exact reference_le_iff.2 (ReferenceInfo.join_eq_right_iff.2 ⟨Or.inl rfl, hp, hs⟩)

/-! ## Null -/

theorem admits_null_of_isSize (hf : f.isSize = true) (ht : t ≠ bottom) :
    (ofFacet f t).forgetNullability.admits .null = true ↔ t.interval? = none := by
  cases h : t.interval? with
  | none =>
    rw [ofFacet_of_unsized hf ht h]
    exact iff_of_true rfl rfl
  | some r =>
    rw [ofFacet_of_sized hf h]
    cases r.meet? .sizes <;>
      simp [forgetNullability, ReferenceInfo.forgetNullability, admits, ReferenceInfo.admits]

/-- Without its nullability, what a facet tells admits null exactly if the facet is silent. -/
theorem admits_null_iff_silent (f : Facet) (t : ValueType) :
    (ofFacet f t).forgetNullability.admits .null = true ↔ f.Silent t := by
  rw [Facet.Silent]
  by_cases ht : t = bottom
  · simp [ht, forgetNullability]
  cases f with
  | unboxed =>
    rw [ofFacet_unboxed ht]
    exact iff_of_true rfl ⟨ht, nofun, nofun⟩
  | optionalContent =>
    rw [ofFacet_content ht]
    simp [forgetNullability, ReferenceInfo.forgetNullability, admits, ReferenceInfo.admits, ht,
      Facet.isSize]
  | arrayLength | stringLength | collectionSize =>
    rw [admits_null_of_isSize rfl ht]
    simp [ht, Facet.isSize]

/-! ## Texts -/

theorem admits_int_of_interval? (h : t.interval? = some r) (v : Int64) :
    t.admits (.int v) = r.contains v := by
  cases t with
  | constant own =>
    cases own with
    | int w =>
      cases h
      rw [Bool.eq_iff_iff, admits_constant_iff, Constant.int.injEq, Interval.contains_singleton]
    | float _ | bool _ | char _ | str _ | null => cases h
  | range s =>
    cases h
    rfl
  | bottom | reference _ | top => cases h

/-- The size of a text is its number of characters, as long as that is a 64-bit integer. -/
theorem toInt_charCount {text : String} (h : text.length ≤ Int64.maxValue.toNatClampNeg) :
    (charCount text).toInt = text.length := by
  have hmax : Int64.maxValue.toNatClampNeg = 2 ^ 63 - 1 := by decide
  rw [charCount, Nat.min_eq_left h]
  exact Int64.toInt_ofNat_of_lt (by omega)

theorem contains_sizes_charCount (text : String) :
    Interval.sizes.contains (charCount text) = true := by
  have hmax : Int64.maxValue.toNatClampNeg = 2 ^ 63 - 1 := by decide
  rw [Interval.contains_iff]
  refine ⟨?_, Int64.le_maxValue _⟩
  rw [Int64.le_iff_toInt_le, charCount, Int64.toInt_ofNat_of_lt (by omega)]
  exact Int.natCast_nonneg _

/-- Without its nullability, what a size tells admits the texts with such a number of
characters.  Cutting the size to what can be a size takes none of them away. -/
theorem admits_str_of_isSize (hf : f.isSize = true) (text : String) :
    (ofFacet f t).forgetNullability.admits (.str text) = true ↔
      t ≠ bottom ∧ (t.interval?.isSome = true → t.admits (.int (charCount text)) = true) := by
  by_cases ht : t = bottom
  · simp [ht, forgetNullability]
  cases h : t.interval? with
  | none =>
    rw [ofFacet_of_unsized hf ht h]
    exact iff_of_true rfl ⟨ht, nofun⟩
  | some r =>
    have hcut : (r.meet? .sizes).any (·.contains (charCount text)) =
        r.contains (charCount text) := by
      rw [Interval.any_meet?, contains_sizes_charCount, Bool.and_true]
    rw [ofFacet_of_sized hf h, admits_int_of_interval? h, ← hcut]
    cases r.meet? .sizes with
    | none => simp [forgetNullability]
    | some s =>
      simp [forgetNullability, ReferenceInfo.forgetNullability, admits, ReferenceInfo.admits, ht]

end ValueType
end PathFacts
