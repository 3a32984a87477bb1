import PathFacts.Proofs.ValueType.Meet

/-!
# Types and null

Null is a reference of its own kind: it has no size, and nothing is present in it.  A type can
leave it out in several ways, so the types that do have no greatest one among them, but every
one of them is below one of a short list (`ValueType.exists_largestWithoutNull`).  A join admits
null exactly if nothing on that list is above all that was joined
(`ValueType.admits_null_joinAll_iff`).
-/

namespace PathFacts.ValueType

variable {a b t k : ValueType}

/-! ## Types that are known to leave null out -/

theorem admits_null_of_excludesNull (h : t.excludesNull = true) : t.admits .null = false := by
  cases t with
  | constant own => cases own <;> simp_all [excludesNull, Constant.isNull, admits]
  | reference g => simp_all [excludesNull, admits, ReferenceInfo.admits]
  | range r => rfl
  | bottom | top => cases h

/-- What leaves null out for sure does so for every smaller type. -/
theorem excludesNull_of_le (ha : a ≠ bottom) (h : a ≤ b) (hb : b.excludesNull = true) :
    a.excludesNull = true := by
  cases a with
  | bottom => exact absurd rfl ha
  | top =>
    rw [eq_top_of_le h rfl] at hb
    cases hb
  | range r => rfl
  | constant own =>
    have hown : own ≠ .null := by
      rintro rfl
      exact absurd (constant_le_iff.1 h) (by simp [admits_null_of_excludesNull hb])
    simpa [excludesNull, Constant.isNull] using hown
  | reference f =>
    obtain rfl | ⟨g, rfl, hg⟩ := eq_top_or_reference_of_reference_le h
    · cases hb
    · have hnull := (ReferenceInfo.join_eq_right_iff.1 hg).1
      simp_all [excludesNull]

/-! ## The largest types without null -/

/-- The largest types that leave null out: all integers, all objects, all references with a known
presence or with a size, and each constant that is neither an integer nor a reference. -/
inductive LargestWithoutNull : ValueType → Prop
  | integers : LargestWithoutNull (range .full)
  | objects : LargestWithoutNull notNull
  | present (p : Bool) : LargestWithoutNull (reference ⟨.unknown, some p, none⟩)
  | sized : LargestWithoutNull (reference ⟨.unknown, none, some .full⟩)
  | other {own : Constant} (hi : (constant own).interval? = none)
      (hr : (constant own).reference? = none) : LargestWithoutNull (constant own)

theorem LargestWithoutNull.admits_null (hk : k.LargestWithoutNull) : k.admits .null = false := by
  cases hk with
  | integers | objects | present p | sized => rfl
  | @other own hi hr => cases own <;> simp_all [reference?, admits]

theorem LargestWithoutNull.not_le_of_admits_null (hk : k.LargestWithoutNull)
    (h : t.admits .null = true) : ¬ t ≤ k := by
  intro hle
  have hnull := admits_of_le hle h
  rw [hk.admits_null] at hnull
  cases hnull

theorem join_full (r : Interval) : r.join .full = .full :=
  Interval.join_eq_right_iff.2 ⟨Int64.minValue_le r.lower, Int64.le_maxValue r.upper⟩

/-- Whatever leaves null out is below one of the largest types that do. -/
theorem exists_largestWithoutNull (h : t.admits .null = false) :
    ∃ k, k.LargestWithoutNull ∧ t ≤ k := by
  cases t with
  | bottom => exact ⟨_, .objects, bottom_le _⟩
  | top => cases h
  | range r => exact ⟨_, .integers, range_le_iff.2 (join_full r)⟩
  | constant own =>
    cases own with
    | null => cases h
    | int v =>
      exact ⟨_, .integers, constant_le_iff.2
        (Interval.contains_iff.2 ⟨Int64.minValue_le v, Int64.le_maxValue v⟩)⟩
    | str s => exact ⟨_, .objects, constant_le_iff.2 rfl⟩
    | float _ | bool _ | char _ => exact ⟨_, .other rfl rfl, le_refl _⟩
  | reference g =>
    by_cases hn : g.nullability = .notNull
    · exact ⟨_, .objects, reference_le_iff.2
        (ReferenceInfo.join_eq_right_iff.2 ⟨Or.inr hn.symm, Or.inl rfl, nofun⟩)⟩
    cases hp : g.present with
    | some p =>
      exact ⟨_, .present p, reference_le_iff.2
        (ReferenceInfo.join_eq_right_iff.2 ⟨Or.inl rfl, Or.inr hp.symm, nofun⟩)⟩
    | none =>
      cases hs : g.size with
      | some s =>
        refine ⟨_, .sized, reference_le_iff.2
          (ReferenceInfo.join_eq_right_iff.2 ⟨Or.inl rfl, Or.inl rfl, ?_⟩)⟩
        intro r hr
        cases hr
        exact ⟨s, hs, join_full s⟩
      | none =>
        have hadmits : g.admits .null = true := ReferenceInfo.admits_null_iff.2 ⟨hn, hp, hs⟩
        cases hadmits.symm.trans h

/-- A join admits null exactly if the joined types have no such bound in common. -/
theorem admits_null_joinAll_iff (ts : List ValueType) :
    (joinAll ts).admits .null = true ↔
      ∀ k : ValueType, k.LargestWithoutNull → ∃ t ∈ ts, ¬ t ≤ k := by
  constructor
  · intro h k hk
    by_contra! hle
    exact hk.not_le_of_admits_null h (joinAll_le_iff.2 hle)
  · intro h
    by_contra hnull
    obtain ⟨k, hk, hle⟩ := exists_largestWithoutNull (Bool.eq_false_of_not_eq_true hnull)
    obtain ⟨t, ht, htk⟩ := h k hk
    exact htk (joinAll_le_iff.1 hle t ht)

end PathFacts.ValueType
