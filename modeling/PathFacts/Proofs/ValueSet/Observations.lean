import PathFacts.ValueSet
import Mathlib.Data.List.Induction

/-!
# Sets of possible values after a list of observations

A `ValueSet` is only ever changed by observations, each of them a constant or the absence
of one.  What results depends on *which* observations were made and on nothing else:
`ValueSet.ofObservations os` is given up as soon as one observation had no constant, and
otherwise keeps exactly the observed constants (`mem_toSet_ofObservations`).

Neither the order nor the number of equal observations can be told from the result
(`ofObservations_eq_iff`).  That rests on the representation being canonical: `many` is
used only for two different constants or more.
-/

namespace PathFacts.ValueSet

open Std (ExtTreeSet)

/-- The set after a list of observations. -/
def ofObservations (os : List (Option Constant)) : ValueSet := os.foldl observe empty

@[simp] theorem ofObservations_nil : ofObservations [] = empty := rfl

@[simp] theorem ofObservations_append (os : List (Option Constant)) (o : Option Constant) :
    ofObservations (os ++ [o]) = (ofObservations os).observe o := by
  simp [ofObservations]

/-! ## Members -/

theorem mem_toSet_one {c d : Constant} : d ∈ (one c).toSet ↔ d = c := by
  rw [toSet, ExtTreeSet.singleton_eq_insert, ExtTreeSet.mem_insert, Std.compare_eq_iff_eq]
  simp [eq_comm]

@[simp] theorem not_mem_toSet_empty (d : Constant) : d ∉ empty.toSet :=
  ExtTreeSet.not_mem_empty

@[simp] theorem not_mem_toSet_unbounded (d : Constant) : d ∉ unbounded.toSet :=
  ExtTreeSet.not_mem_empty

theorem mem_toSet_insert {s : ValueSet} (h : s ≠ unbounded) {c d : Constant} :
    d ∈ (s.insert c).toSet ↔ d = c ∨ d ∈ s.toSet := by
  cases s with
  | unbounded => exact absurd rfl h
  | empty => simp [insert, mem_toSet_one]
  | one own =>
    by_cases hc : own = c
    · simp [insert, hc, mem_toSet_one]
    · simp only [insert, if_neg hc, toSet, ExtTreeSet.singleton_eq_insert,
        ExtTreeSet.mem_insert, Std.compare_eq_iff_eq, ExtTreeSet.not_mem_empty, or_false]
      rw [eq_comm (a := c), eq_comm (a := own)]
  | many cs =>
    simp only [insert, toSet, ExtTreeSet.mem_insert, Std.compare_eq_iff_eq]
    rw [eq_comm (a := c)]

theorem insert_ne_unbounded {s : ValueSet} (h : s ≠ unbounded) (c : Constant) :
    s.insert c ≠ unbounded := by
  cases s with
  | unbounded => exact absurd rfl h
  | empty => simp [insert]
  | one own => by_cases hc : own = c <;> simp [insert, hc]
  | many cs => simp [insert]

/-! ## The canonical form -/

/-- `many` stands for two different constants or more. -/
def Canonical : ValueSet → Prop
  | many cs => ∃ c ∈ cs, ∃ d ∈ cs, c ≠ d
  | _ => True

theorem canonical_insert {s : ValueSet} (h : s.Canonical) (c : Constant) :
    (s.insert c).Canonical := by
  cases s with
  | unbounded => trivial
  | empty => trivial
  | one own =>
    by_cases hc : own = c
    · simp [insert, hc, Canonical]
    · simp only [insert, if_neg hc]
      refine ⟨c, ExtTreeSet.mem_insert_self, own, ?_, Ne.symm hc⟩
      rw [ExtTreeSet.singleton_eq_insert, ExtTreeSet.mem_insert]
      exact Or.inr ExtTreeSet.mem_insert_self
  | many cs =>
    obtain ⟨a, ha, b, hb, hab⟩ := h
    exact ⟨a, ExtTreeSet.mem_insert.2 (Or.inr ha), b, ExtTreeSet.mem_insert.2 (Or.inr hb), hab⟩

/-- Canonical sets that were not given up are equal if they keep the same constants. -/
theorem eq_of_mem_toSet_iff {s t : ValueSet} (hs : s.Canonical) (ht : t.Canonical)
    (hs' : s ≠ unbounded) (ht' : t ≠ unbounded) (h : ∀ c, c ∈ s.toSet ↔ c ∈ t.toSet) :
    s = t := by
  cases s with
  | unbounded => exact absurd rfl hs'
  | empty =>
    cases t with
    | unbounded => exact absurd rfl ht'
    | empty => rfl
    | one d => exact absurd ((h d).2 (mem_toSet_one.2 rfl)) (not_mem_toSet_empty d)
    | many ds =>
      obtain ⟨d, hd, -⟩ := ht
      exact absurd ((h d).2 hd) (not_mem_toSet_empty d)
  | one c =>
    cases t with
    | unbounded => exact absurd rfl ht'
    | empty => exact absurd ((h c).1 (mem_toSet_one.2 rfl)) (not_mem_toSet_empty c)
    | one d => rw [mem_toSet_one.1 ((h c).1 (mem_toSet_one.2 rfl))]
    | many ds =>
      obtain ⟨a, ha, b, hb, hab⟩ := ht
      have hac : a = c := mem_toSet_one.1 ((h a).2 ha)
      have hbc : b = c := mem_toSet_one.1 ((h b).2 hb)
      exact absurd (hac.trans hbc.symm) hab
  | many cs =>
    cases t with
    | unbounded => exact absurd rfl ht'
    | empty =>
      obtain ⟨c, hc, -⟩ := hs
      exact absurd ((h c).1 hc) (not_mem_toSet_empty c)
    | one d =>
      obtain ⟨a, ha, b, hb, hab⟩ := hs
      have had : a = d := mem_toSet_one.1 ((h a).1 ha)
      have hbd : b = d := mem_toSet_one.1 ((h b).1 hb)
      exact absurd (had.trans hbd.symm) hab
    | many ds => exact congrArg many (ExtTreeSet.ext_mem h)

/-! ## What a list of observations leaves -/

/-- An observation made again changes nothing. -/
theorem observe_observe (s : ValueSet) (o : Option Constant) :
    (s.observe o).observe o = s.observe o := by
  cases o with
  | none => rfl
  | some c =>
    cases s with
    | unbounded => rfl
    | empty => simp [observe, insert]
    | one own =>
      by_cases hc : own = c
      · simp [observe, insert, hc]
      · simp only [observe, insert, if_neg hc, many.injEq]
        exact ExtTreeSet.ext_mem fun d => by simp [ExtTreeSet.mem_insert]
    | many cs =>
      simp only [observe, insert, many.injEq]
      exact ExtTreeSet.ext_mem fun d => by simp [ExtTreeSet.mem_insert]

theorem canonical_ofObservations (os : List (Option Constant)) :
    (ofObservations os).Canonical := by
  induction os using List.reverseRecOn with
  | nil => trivial
  | append_singleton os o ih =>
    rw [ofObservations_append]
    cases o with
    | none => trivial
    | some c => exact canonical_insert ih c

/-- A set is given up exactly if some observation had no constant. -/
theorem ofObservations_eq_unbounded_iff {os : List (Option Constant)} :
    ofObservations os = unbounded ↔ none ∈ os := by
  induction os using List.reverseRecOn with
  | nil => simp
  | append_singleton os o ih =>
    rw [ofObservations_append, List.mem_append, List.mem_singleton, ← ih]
    cases o with
    | none => simp [observe]
    | some c =>
      by_cases hos : ofObservations os = unbounded
      · simp [hos]
      · simpa [hos, observe] using insert_ne_unbounded hos c

/-- A set that was not given up keeps exactly the observed constants. -/
theorem mem_toSet_ofObservations {os : List (Option Constant)} (h : none ∉ os) {c : Constant} :
    c ∈ (ofObservations os).toSet ↔ some c ∈ os := by
  induction os using List.reverseRecOn with
  | nil => simp
  | append_singleton os o ih =>
    rw [List.mem_append, not_or, List.mem_singleton] at h
    obtain ⟨d, rfl⟩ := Option.ne_none_iff_exists'.1 (Ne.symm h.2)
    have hos : ofObservations os ≠ unbounded := fun hu => h.1 (ofObservations_eq_unbounded_iff.1 hu)
    rw [ofObservations_append, observe, mem_toSet_insert hos, ih h.1]
    simp [or_comm]

/-- Two lists of observations lead to the same set exactly if both hold one without a
constant, or neither does and the same constants were observed. -/
theorem ofObservations_eq_iff {os os' : List (Option Constant)} :
    ofObservations os = ofObservations os' ↔
      (none ∈ os ∧ none ∈ os') ∨
        (none ∉ os ∧ none ∉ os' ∧ ∀ c, some c ∈ os ↔ some c ∈ os') := by
  constructor
  · intro h
    by_cases hos : none ∈ os
    · refine Or.inl ⟨hos, ?_⟩
      rwa [← ofObservations_eq_unbounded_iff, ← h, ofObservations_eq_unbounded_iff]
    · have hos' : none ∉ os' := by
        rwa [← ofObservations_eq_unbounded_iff, ← h, ofObservations_eq_unbounded_iff]
      refine Or.inr ⟨hos, hos', fun c => ?_⟩
      rw [← mem_toSet_ofObservations hos, ← mem_toSet_ofObservations hos', h]
  · rintro (⟨hos, hos'⟩ | ⟨hos, hos', h⟩)
    · rw [ofObservations_eq_unbounded_iff.2 hos, ofObservations_eq_unbounded_iff.2 hos']
    · refine eq_of_mem_toSet_iff (canonical_ofObservations os) (canonical_ofObservations os')
        (mt ofObservations_eq_unbounded_iff.1 hos) (mt ofObservations_eq_unbounded_iff.1 hos') ?_
      intro c
      rw [mem_toSet_ofObservations hos, mem_toSet_ofObservations hos', h]

/-! ## Growth -/

/-- `u` was given up or keeps all constants of `s`; a set that was given up stays so. -/
def GrowsTo (s u : ValueSet) : Prop :=
  u = unbounded ∨ s ≠ unbounded ∧ ∀ c, c ∈ s.toSet → c ∈ u.toSet

theorem growsTo_refl (s : ValueSet) : s.GrowsTo s := by
  by_cases h : s = unbounded
  · exact Or.inl h
  · exact Or.inr ⟨h, fun _ hc => hc⟩

theorem GrowsTo.trans {s u w : ValueSet} (h : s.GrowsTo u) (h' : u.GrowsTo w) :
    s.GrowsTo w := by
  rcases h' with hw | ⟨hu, huw⟩
  · exact Or.inl hw
  · obtain ⟨hs, hsu⟩ := h.resolve_left hu
    exact Or.inr ⟨hs, fun c hc => huw c (hsu c hc)⟩

theorem growsTo_observe (s : ValueSet) (o : Option Constant) : s.GrowsTo (s.observe o) := by
  cases o with
  | none => exact Or.inl rfl
  | some c =>
    by_cases h : s = unbounded
    · exact Or.inl (by rw [h, observe_unbounded])
    · exact Or.inr ⟨h, fun d hd => (mem_toSet_insert h).2 (Or.inr hd)⟩

/-! ## Listing -/

theorem mem_toList {s : ValueSet} {c : Constant} : c ∈ s.toList ↔ c ∈ s.toSet :=
  ExtTreeSet.mem_toList

end PathFacts.ValueSet
