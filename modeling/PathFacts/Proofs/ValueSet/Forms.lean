import PathFacts.Proofs.ValueSet.Observations
import Mathlib.Data.List.Dedup
import Mathlib.Data.List.Perm.Subperm
import Mathlib.Data.List.ReduceOption

/-!
# The forms of a set of possible values

A `ValueSet` has one form for no constant, one for a single constant and one for several.
As long as it is not given up, the form is decided by the number of constants
(`forms_of_canonical`), and that is the number of different constants that were observed
(`size_ofObservations`).
-/

namespace PathFacts.ValueSet

open Std (ExtTreeSet)

variable {s : ValueSet} {c : Constant} {os : List (Option Constant)}

/-! ## Ways to ask -/

theorem isUnbounded_iff : s.isUnbounded = true ↔ s = unbounded := by
  cases s <;> simp [isUnbounded]

theorem contains_iff_mem_toSet : s.contains c = true ↔ c ∈ s.toSet := by
  cases s with
  | empty | unbounded => simp [contains]
  | one own =>
    rw [contains, beq_iff_eq, mem_toSet_one]
    exact eq_comm
  | many cs => exact ExtTreeSet.contains_iff_mem

theorem size_eq (s : ValueSet) : s.size = s.toSet.size := by
  cases s with
  | empty | unbounded | many cs => rfl
  | one own =>
    rw [toSet, ExtTreeSet.singleton_eq_insert, ExtTreeSet.size_insert]
    rfl

theorem length_toList (s : ValueSet) : s.toList.length = s.size := by
  rw [toList, ExtTreeSet.length_toList, size_eq]

/-- No constant is listed twice. -/
theorem nodup_toList (s : ValueSet) : s.toList.Nodup := by
  refine ExtTreeSet.distinct_toList.imp ?_
  rintro a b hne rfl
  exact hne (Std.compare_eq_iff_eq.2 rfl)

/-! ## Number and form -/

/-- Two different constants or more are kept by a canonical `many`. -/
theorem two_le_size_many {cs : ExtTreeSet Constant} (h : (many cs).Canonical) :
    2 ≤ (many cs).size := by
  obtain ⟨a, ha, b, hb, hab⟩ := h
  have hsub : [a, b] ⊆ (many cs).toList := by
    intro d hd
    simp only [List.mem_cons, List.not_mem_nil, or_false] at hd
    rcases hd with rfl | rfl
    · exact mem_toList.2 ha
    · exact mem_toList.2 hb
  have hpair : [a, b].Nodup := by simp [hab]
  rw [← length_toList]
  exact (hpair.subperm hsub).length_le

/-- The number of kept constants decides the form of a canonical set that was not given up. -/
theorem forms_of_canonical (h : s.Canonical) (hs : s ≠ unbounded) :
    (s = empty ↔ s.size = 0) ∧ ((∃ c, s = one c) ↔ s.size = 1) ∧
      ((∃ cs, s = many cs) ↔ 2 ≤ s.size) := by
  cases s with
  | unbounded => exact absurd rfl hs
  | empty => simp [size]
  | one own => simp [size]
  | many cs =>
    have hsize := two_le_size_many h
    have hzero : (many cs).size ≠ 0 := by omega
    have hone : (many cs).size ≠ 1 := by omega
    simp [hzero, hone, hsize]

/-! ## Number of observed constants -/

/-- The number of different constants among the observations. -/
def distinct (os : List (Option Constant)) : Nat := os.reduceOption.dedup.length

/-- A set that was not given up keeps as many constants as were observed, each counted once. -/
theorem size_ofObservations (h : none ∉ os) : (ofObservations os).size = distinct os := by
  have hmem : ∀ c, c ∈ (ofObservations os).toList ↔ c ∈ os.reduceOption.dedup := by
    intro c
    rw [mem_toList, mem_toSet_ofObservations h, List.mem_dedup, List.reduceOption_mem_iff]
  have hperm : (ofObservations os).toList.Perm os.reduceOption.dedup :=
    (List.perm_ext_iff_of_nodup (nodup_toList _) (List.nodup_dedup _)).2 hmem
  rw [← length_toList, hperm.length_eq, distinct]

end PathFacts.ValueSet
