import PathFacts.Proofs.Evidence.Observations
import PathFacts.Proofs.ValueType.Facets

/-!
# Values refined by their facets

A variable that carries a facet contributes its own type met with what the facet tells, if that
type is one of references (`Memory.refined`).  Three questions are answered here.

* *Does less knowledge give less?*  Yes, for all types: where one memory is below another, so
  are the refined types of the same value, and so are the joins of whole lists of observations
  (`Memory.observed_mono`).  A larger type may be no reference any more and go unrefined; it is
  then `top`, or the smaller one is `bottom`.
* *Does a facet keep null?*  Not always.  What is known about null is taken back from a facet,
  but a size or a presence is not, and null has neither.  `Memory.null_kept_iff` tells exactly
  when null is kept, and `Memory.null_lost_by_known_length` is a case where it is not.
* *Is a length exact about texts?*  Yes: a text is left exactly if both its own type and its
  length allow it (`Memory.admits_str_refined_iff`).
-/

namespace PathFacts

namespace Memory

variable {m : Memory} {x : Variable} {f : Facet}

/-! ## Refined types -/

theorem facetKnowledge_eq (m : Memory) (x : Variable) (f : Facet) :
    m.facetKnowledge x f = (ValueType.ofFacet f (m.facetType x f)).forgetNullability := by
  rw [facetKnowledge]
  split
  · rfl
  · rename_i h
    rw [ValueType.forgetNullability_of_not_isReference (Bool.eq_false_of_not_eq_true h)]

theorem ordered_facetKnowledge (m : Memory) (x : Variable) (f : Facet) :
    (m.facetKnowledge x f).Ordered := by
  rw [facetKnowledge_eq]
  exact ValueType.ordered_forgetNullability (ValueType.ordered_ofFacet f _)

theorem refined_stored_of_none (hf : m.facetOf x = none) :
    m.refined (.stored x) = m.typeOfVariable x := by
  rw [refined, hf]

/-- Only references are refined. -/
theorem refined_stored_of_not_reference (h : (m.typeOfVariable x).isReference = false) :
    m.refined (.stored x) = m.typeOfVariable x := by
  cases hf : m.facetOf x with
  | none => exact refined_stored_of_none hf
  | some f =>
    rw [refined, hf]
    exact if_neg (by simp [h])

theorem refined_stored_of_reference (hf : m.facetOf x = some f)
    (h : (m.typeOfVariable x).isReference = true) :
    m.refined (.stored x) = (m.typeOfVariable x).meet (m.facetKnowledge x f) := by
  rw [refined, hf]
  exact if_pos h

/-- A refined type is not above the type of the variable. -/
theorem refined_stored_le (m : Memory) (x : Variable) :
    m.refined (.stored x) ≤ m.typeOfVariable x := by
  cases h : (m.typeOfVariable x).isReference with
  | false => rw [refined_stored_of_not_reference h]
  | true =>
    cases hf : m.facetOf x with
    | none => rw [refined_stored_of_none hf]
    | some f =>
      rw [refined_stored_of_reference hf h]
      exact (ValueType.meet_le _ _).1

/-- A variable can have the constants that its own type and its facet both admit. -/
theorem admits_refined_stored_iff (m : Memory) (x : Variable) (c : Constant) :
    (m.refined (.stored x)).admits c = true ↔ (m.typeOfVariable x).admits c = true ∧
      ∀ f, m.facetOf x = some f → (m.typeOfVariable x).isReference = true →
        (m.facetKnowledge x f).admits c = true := by
  cases h : (m.typeOfVariable x).isReference with
  | false =>
    rw [refined_stored_of_not_reference h]
    simp
  | true =>
    cases hf : m.facetOf x with
    | none =>
      rw [refined_stored_of_none hf]
      simp
    | some f =>
      rw [refined_stored_of_reference hf h, ValueType.admits_meet, Bool.and_eq_true]
      simp

end Memory

/-! ## Less precise memories -/

/-- `m` knows all that `m'` knows: the same variables carry facets, and every variable and every
facet has a type below the one it has in `m'`. -/
structure Memory.Below (m m' : Memory) : Prop where
  facetOf : ∀ x, m.facetOf x = m'.facetOf x
  types : ∀ x, m.typeOfVariable x ≤ m'.typeOfVariable x
  facetTypes : ∀ x f, m.facetType x f ≤ m'.facetType x f

/-- The same value, or two values described by types of which the first is below the second. -/
inductive Pushed.Below : Pushed → Pushed → Prop
  | typed {t t' : ValueType} (h : t ≤ t') : Below (.typed t) (.typed t')
  | stored (x : Variable) : Below (.stored x) (.stored x)
  | wrapped (f : Facet) (inner : Variable) : Below (.wrapped f inner) (.wrapped f inner)
  | contractFailure : Below .contractFailure .contractFailure

namespace Memory

variable {m m' : Memory} {v v' : Pushed} {x : Variable}

theorem facetKnowledge_mono (hm : m.Below m') (x : Variable) (f : Facet) :
    m.facetKnowledge x f ≤ m'.facetKnowledge x f := by
  rw [facetKnowledge_eq, facetKnowledge_eq]
  exact ValueType.forgetNullability_mono (ValueType.ofFacet_mono (hm.facetTypes x f) f)

theorem refined_stored_mono (hm : m.Below m') (x : Variable) :
    m.refined (.stored x) ≤ m'.refined (.stored x) := by
  cases href : (m'.typeOfVariable x).isReference with
  | false =>
    rw [refined_stored_of_not_reference href]
    exact (refined_stored_le m x).trans (hm.types x)
  | true =>
    by_cases hbot : m.typeOfVariable x = .bottom
    · exact (refined_stored_le m x).trans (hbot ▸ ValueType.bottom_le _)
    cases hf : m'.facetOf x with
    | none =>
      rw [refined_stored_of_none hf]
      exact (refined_stored_le m x).trans (hm.types x)
    | some f =>
      have hf' : m.facetOf x = some f := (hm.facetOf x).trans hf
      have href' : (m.typeOfVariable x).isReference = true :=
        ValueType.isReference_of_le hbot (hm.types x) href
      rw [refined_stored_of_reference hf' href', refined_stored_of_reference hf href]
      exact ValueType.meet_mono (Or.inr (ordered_facetKnowledge m x f)) (hm.types x)
        (facetKnowledge_mono hm x f)

/-- The same value is refined to less where less is known. -/
theorem refined_mono (hm : m.Below m') (hv : v.Below v') : m.refined v ≤ m'.refined v' := by
  cases hv with
  | typed h => exact h
  | stored x => exact refined_stored_mono hm x
  | wrapped f inner =>
    have hinner : ValueType.ofFacet f (m.typeOfVariable inner) ≤
        ValueType.ofFacet f (m'.typeOfVariable inner) := ValueType.ofFacet_mono (hm.types inner) f
    exact ValueType.meet_mono (Or.inr (ValueType.ordered_ofFacet f _)) (le_refl _) hinner
  | contractFailure => exact le_refl _

/-- Less precise memories give less precise facts, whatever the order of the bounds: value by
value, and for the types that two equally long lists of observations add up to. -/
theorem observed_mono :
    (∀ {m m' : Memory} {v v' : Pushed}, m.Below m' → v.Below v' → m.refined v ≤ m'.refined v') ∧
    ∀ {seen seen' : List (Memory × Pushed)},
      List.Forall₂ (fun s s' => s.1.Below s'.1 ∧ s.2.Below s'.2) seen seen' →
        (Evidence.observeTypes {} seen).type ≤ (Evidence.observeTypes {} seen').type := by
  refine ⟨refined_mono, ?_⟩
  intro seen seen' h
  rw [Evidence.type_observeTypes, Evidence.type_observeTypes]
  refine ValueType.joinAll_le_joinAll ?_
  rw [List.forall₂_map_left_iff, List.forall₂_map_right_iff]
  exact h.imp fun _ _ hs => refined_mono hs.1 hs.2

/-- A text whose length is known, and the same variable as any reference with nothing known of
its length: the more precise memory refines, the less precise one has nothing to refine with. -/
theorem observed_mono_of_forgotten_length :
    let s : Variable := ⟨"s"⟩
    let m := ((setType {} s .notNull).setFacet s .stringLength).setFacetType s .stringLength
      (.range ⟨3, 5⟩)
    let m' := (setType {} s .nullable).setFacet s .stringLength
    m.Below m' ∧ m.refined (.stored s) = .reference ⟨.notNull, none, some ⟨3, 5⟩⟩ ∧
      m'.refined (.stored s) = .nullable ∧ m.refined (.stored s) ≤ m'.refined (.stored s) ∧
      (Evidence.observeTypes {} [(m, .stored s), ({}, .typed .null)]).type ≤
        (Evidence.observeTypes {} [(m', .stored s), ({}, .typed .nullable)]).type := by
  intro s m m'
  have hbelow : m.Below m' := by
    refine ⟨fun x => rfl, fun x => ?_, fun x f => ?_⟩
    · show (setType {} s .notNull).typeOfVariable x ≤ (setType {} s .nullable).typeOfVariable x
      rw [typeOfVariable_setType, typeOfVariable_setType]
      split
      · decide
      · exact le_refl _
    · exact le_top
  have hempty : Below {} {} := ⟨fun _ => rfl, fun _ => le_refl _, fun _ _ => le_refl _⟩
  refine ⟨hbelow, by decide, by decide, observed_mono.1 hbelow (.stored s), observed_mono.2 ?_⟩
  exact .cons ⟨hbelow, .stored s⟩ (.cons ⟨hempty, .typed (by decide)⟩ .nil)

/-! ## Null -/

/-- A variable that may be null and is refined may still be null exactly if its facet is silent. -/
theorem refined_admits_null_iff (hnull : (m.typeOfVariable x).admits .null = true) :
    (m.refined (.stored x)).admits .null = true ↔
      ∀ f, m.facetOf x = some f → m.typeOfVariable x ≠ .top → f.Silent (m.facetType x f) := by
  have href : (m.typeOfVariable x).isReference = true ↔ m.typeOfVariable x ≠ .top := by
    cases ht : m.typeOfVariable x with
    | constant own =>
      rw [ht, ValueType.admits_constant_iff] at hnull
      simp [← hnull, ValueType.isReference, ValueType.reference?]
    | range r => simp [ht, ValueType.admits] at hnull
    | bottom => simp [ht] at hnull
    | reference g => simp [ValueType.isReference, ValueType.reference?]
    | top => simp [ValueType.isReference, ValueType.reference?]
  rw [admits_refined_stored_iff]
  simp only [hnull, true_and, href, facetKnowledge_eq, ValueType.admits_null_iff_silent]

/-- When null is kept.  Of a variable that may be null, the refined type admits null exactly if
nothing is known of the variable at all or its facet is silent.  After a list of observations
with that variable among them the type admits null in this case, and otherwise only if the
values seen have nothing in common that leaves null out. -/
theorem null_kept_iff {seen : List (Memory × Pushed)} (hseen : (m, .stored x) ∈ seen)
    (hnull : (m.typeOfVariable x).admits .null = true) :
    ((m.refined (.stored x)).admits .null = true ↔
      ∀ f, m.facetOf x = some f → m.typeOfVariable x ≠ .top → f.Silent (m.facetType x f)) ∧
    ((Evidence.observeTypes {} seen).type.admits .null = true ↔
      (∀ f, m.facetOf x = some f → m.typeOfVariable x ≠ .top → f.Silent (m.facetType x f)) ∨
        ∀ k : ValueType, k.LargestWithoutNull → ∃ s ∈ seen, ¬ s.1.refined s.2 ≤ k) := by
  have hone := refined_admits_null_iff hnull
  refine ⟨hone, ?_⟩
  have hall : (Evidence.observeTypes {} seen).type.admits .null = true ↔
      ∀ k : ValueType, k.LargestWithoutNull → ∃ s ∈ seen, ¬ s.1.refined s.2 ≤ k := by
    rw [Evidence.type_observeTypes, ValueType.admits_null_joinAll_iff]
    simp only [List.mem_map, exists_exists_and_eq_and]
  rw [← hone, hall]
  refine (or_iff_right_of_imp fun hrefined k hk => ?_).symm
  exact ⟨_, hseen, hk.not_le_of_admits_null hrefined⟩

/-- An optional that is known to be null, of whose content nothing is known: it stays null, and
together with an object it is any reference. -/
theorem null_kept_of_unknown_content :
    let o : Variable := ⟨"o"⟩
    let m := ((setType {} o .null).setFacet o .optionalContent).setFacetType o .optionalContent
      .nullable
    let seen : List (Memory × Pushed) := [(m, .stored o), ({}, .typed .notNull)]
    (m, .stored o) ∈ seen ∧ (m.typeOfVariable o).admits .null = true ∧
      (m.refined (.stored o)).admits .null = true ∧
      (Evidence.observeTypes {} seen).type.admits .null = true := by
  intro o m seen
  have hseen : (m, .stored o) ∈ seen := List.mem_cons_self
  have hnull : (m.typeOfVariable o).admits .null = true := by decide
  have hsilent : ∀ f, m.facetOf o = some f → m.typeOfVariable o ≠ .top →
      f.Silent (m.facetType o f) := by
    intro f hf _
    have hfacet : m.facetOf o = some .optionalContent := by decide
    cases hf.symm.trans hfacet
    decide
  obtain ⟨hone, hall⟩ := null_kept_iff hseen hnull
  exact ⟨hseen, hnull, hone.2 hsilent, hall.2 (Or.inl hsilent)⟩

/-- A text of known length: if it was known to be null, it is impossible, and if it may have been
null, it is a reference of that size, which null is not. -/
theorem null_lost_by_known_length :
    let s : Variable := ⟨"s"⟩
    let m : ValueType → Memory := fun t =>
      ((setType {} s t).setFacet s .stringLength).setFacetType s .stringLength (.constant (.int 5))
    let seen : ValueType → ValueType := fun t =>
      (Evidence.observeTypes {} [(m t, .stored s)]).type
    (∀ t, (m t).facetType s .stringLength ≠ .bottom) ∧
      ((m .null).typeOfVariable s).admits .null = true ∧ seen .null = .bottom ∧
      ¬ (seen .null).admits .null = true ∧
      ((m .nullable).typeOfVariable s).admits .null = true ∧
      seen .nullable = .reference ⟨.unknown, none, some ⟨5, 5⟩⟩ ∧
      ¬ (seen .nullable).admits .null = true := by
  intro s m seen
  have hlength : ∀ t, (m t).facetType s .stringLength ≠ .bottom := by
    intro t
    show (m .null).facetType s .stringLength ≠ .bottom
    decide
  exact ⟨hlength, by decide, by decide, by decide, by decide, by decide, by decide⟩

/-! ## Texts of a known length -/

/-- A length is exact about texts.  A reference that carries a size may be a text exactly if its
own type and its size both allow that: the size is possible, and where it is an integer or an
interval, whatever the bounds, the number of characters is among its values. -/
theorem admits_str_refined_iff (hf : m.facetOf x = some f) (hsize : f.isSize = true)
    (href : (m.typeOfVariable x).isReference = true) (text : String) :
    ((m.refined (.stored x)).admits (.str text) = true ↔
      (m.typeOfVariable x).admits (.str text) = true ∧ m.facetType x f ≠ .bottom ∧
        ((m.facetType x f).interval?.isSome = true →
          (m.facetType x f).admits (.int (charCount text)) = true)) ∧
    (text.length ≤ Int64.maxValue.toNatClampNeg → (charCount text).toInt = text.length) := by
  refine ⟨?_, ValueType.toInt_charCount⟩
  rw [refined_stored_of_reference hf href, ValueType.admits_meet, Bool.and_eq_true,
    facetKnowledge_eq, ValueType.admits_str_of_isSize hsize]

/-- A reference of unknown nullability with a length from `-3` to `2` may be the text `ab` but not
the text `abc`; with the bounds `3` and `1`, in the wrong order, it is no text at all. -/
theorem admits_str_refined_of_odd_bounds :
    let s : Variable := ⟨"s"⟩
    let m : Interval → Memory := fun r =>
      ((setType {} s .nullable).setFacet s .stringLength).setFacetType s .stringLength (.range r)
    (∀ r, ((m r).typeOfVariable s).isReference = true ∧
      ((m r).typeOfVariable s).admits (.str "ab") = true) ∧
      ((m ⟨-3, 2⟩).refined (.stored s)).admits (.str "ab") = true ∧
      ¬ ((m ⟨-3, 2⟩).refined (.stored s)).admits (.str "abc") = true ∧
      ¬ ((m ⟨3, 1⟩).refined (.stored s)).admits (.str "ab") = true := by
  intro s m
  have htype : ∀ r, ((m r).typeOfVariable s).isReference = true ∧
      ((m r).typeOfVariable s).admits (.str "ab") = true := by
    intro r
    show ((m ⟨0, 0⟩).typeOfVariable s).isReference = true ∧
      ((m ⟨0, 0⟩).typeOfVariable s).admits (.str "ab") = true
    decide
  have hfacet : ∀ r, (m r).facetOf s = some .stringLength := by
    intro r
    show (m ⟨0, 0⟩).facetOf s = some .stringLength
    decide
  refine ⟨htype, ?_, ?_, ?_⟩
  · rw [(admits_str_refined_iff (hfacet _) rfl (htype _).1 _).1]
    decide
  · rw [(admits_str_refined_iff (hfacet _) rfl (htype _).1 _).1]
    decide
  · rw [(admits_str_refined_iff (hfacet _) rfl (htype _).1 _).1]
    decide

end Memory

end PathFacts
