import PathFacts.Proofs.Session.Transparency
import Mathlib.Data.List.Induction

/-!
# What queries do to a program

Queries change nothing about the program but the numbers of modifications of its containers
(`Session.parts_performAll`, `Query.foldl_modify`).  Such a number counts the modifications of
its container modulo `2 ^ 64`, so it is at most what it was before together with those that
were noted since (`Query.toNat_revision_foldl_modify_le`), and at most as large as the number
of modifications while a program is built (`Tree.toNat_revision_build_le`).
-/

namespace PathFacts

/-! ## Numbers of modifications -/

theorem lt_add_one_of_lt_size {n : UInt64} (h : n.toNat + 1 < UInt64.size) : n < n + 1 := by
  have hsucc : (n + 1).toNat = n.toNat + 1 := (UInt64.toNat_add n 1).trans (Nat.mod_eq_of_lt h)
  rw [UInt64.lt_iff_toNat_lt, hsucc]
  exact Nat.lt_succ_self _

namespace Tree

variable (t : Tree) (c c' : ContainerId)

theorem revision_revise : (t.revise c).revision c' =
    if c = c' ∧ c.index < t.containers.size then t.revision c' + 1 else t.revision c' := by
  rw [revision, revise, Array.getElem?_modify, revision]
  by_cases h : c = c'
  · subst h
    by_cases hsize : c.index < t.containers.size
    · simp [hsize]
    · simp [hsize]
  · have hindex : c.index ≠ c'.index := by
      cases c
      cases c'
      simpa using h
    rw [if_neg hindex, if_neg fun h' => h h'.1]

/-- Short of overflow, no number gets smaller. -/
theorem revision_le_revise (h : (t.revision c).toNat + 1 < UInt64.size) :
    t.revision c' ≤ (t.revise c).revision c' := by
  rw [revision_revise]
  split
  · rename_i hsame
    obtain ⟨rfl, -⟩ := hsame
    exact UInt64.le_of_lt (lt_add_one_of_lt_size h)
  · exact UInt64.le_refl _

/-- Short of overflow, the number of the container gets greater. -/
theorem revision_lt_revise (h : (t.revision c).toNat + 1 < UInt64.size)
    (hc : c.index < t.containers.size) : t.revision c < (t.revise c).revision c := by
  rw [revision_revise, if_pos ⟨rfl, hc⟩]
  exact lt_add_one_of_lt_size h

theorem toNat_revision_revise_le : ((t.revise c).revision c').toNat ≤
    (t.revision c').toNat + if c = c' then 1 else 0 := by
  rw [revision_revise]
  by_cases h : c = c'
  · rw [if_pos h]
    split
    · rw [UInt64.toNat_add]
      exact Nat.mod_le _ _
    · exact Nat.le_succ _
  · rw [if_neg h, if_neg fun h' => h h'.1]
    exact Nat.le_refl _

/-- A building step adds at most one modification, and only if it is one. -/
theorem toNat_revision_apply_le (step : Step) : ((t.apply step).2.revision c).toNat ≤
    (t.revision c).toNat + if step = .revise c then 1 else 0 := by
  cases step with
  | revise c' => simpa [apply] using t.toNat_revision_revise_le c' c
  | container =>
    show ((t.containers.push 0)[c.index]?.getD 0).toNat ≤ _
    rw [Array.getElem?_push]
    split
    · exact Nat.zero_le _
    · exact Nat.le_refl _
  | _ => exact Nat.le_refl _

/-- A program was modified at most as often as its building steps say. -/
theorem toNat_revision_build_le (steps : List Step) :
    ((build steps).revision c).toNat ≤ steps.count (.revise c) := by
  induction steps using List.reverseRecOn with
  | nil => exact Nat.le_refl 0
  | append_singleton steps step ih =>
    rw [build, List.foldl_append, List.count_append, List.count_singleton]
    refine Nat.le_trans (toNat_revision_apply_le _ c step) (Nat.add_le_add ih ?_)
    simp only [beq_iff_eq]
    exact Nat.le_refl _

end Tree

/-! ## Queries and the program -/

namespace Query

/-- The program after a query. -/
def modify (t : Tree) : Query → Tree
  | revise c => t.revise c
  | resolve _ | valueType _ | integers _ | constant _ | forget _ => t

/-- What modifications of containers do not change, queries do not change. -/
theorem foldl_modify {α : Type} (f : Tree → α) (hf : ∀ t c, f (t.revise c) = f t) (t : Tree)
    (qs : List Query) : f (qs.foldl modify t) = f t := by
  induction qs generalizing t with
  | nil => rfl
  | cons q qs ih =>
    rw [List.foldl_cons, ih]
    cases q with
    | revise c => exact hf t c
    | resolve _ | valueType _ | integers _ | constant _ | forget _ => rfl

/-- A query adds at most one modification, and only if it is one. -/
theorem toNat_revision_modify_le (t : Tree) (q : Query) (c : ContainerId) :
    ((q.modify t).revision c).toNat ≤
      (t.revision c).toNat + if q = .revise c then 1 else 0 := by
  cases q with
  | revise c' => simpa [modify] using t.toNat_revision_revise_le c' c
  | _ => exact Nat.le_refl _

theorem toNat_revision_foldl_modify_le (t : Tree) (qs : List Query) (c : ContainerId) :
    ((qs.foldl modify t).revision c).toNat ≤ (t.revision c).toNat + qs.count (.revise c) := by
  induction qs using List.reverseRecOn with
  | nil => exact Nat.le_refl _
  | append_singleton qs q ih =>
    rw [List.foldl_append, List.count_append, List.count_singleton, ← Nat.add_assoc]
    refine Nat.le_trans (toNat_revision_modify_le _ q c) (Nat.add_le_add ih ?_)
    simp only [beq_iff_eq]
    exact Nat.le_refl _

end Query

namespace Session

variable {s : Session}

/-- The interpreter and the settings stay, and the program changes as the query says. -/
theorem parts_perform (h : s.Coherent) (q : Query) :
    (s.perform q).2.interpreter = s.interpreter ∧ (s.perform q).2.settings = s.settings ∧
      (s.perform q).2.tree = q.modify s.tree := by
  have hkept : ∀ {s' : Session}, s.Keeps s' → s'.interpreter = s.interpreter ∧
      s'.settings = s.settings ∧ s'.tree = s.tree :=
    fun hkeeps => ⟨hkeeps.interpreter, hkeeps.settings, hkeeps.tree⟩
  cases q with
  | resolve e => exact hkept (ask_spec h e).2
  | valueType e => exact hkept (valueType_spec h e).2
  | integers e => exact hkept (integers?_spec h e).2
  | constant e => exact hkept (constant?_spec h e).2
  | forget c => exact ⟨rfl, rfl, rfl⟩
  | revise c => exact ⟨rfl, rfl, rfl⟩

theorem parts_performAll (h : s.Coherent) (qs : List Query) :
    (performAll qs s).2.interpreter = s.interpreter ∧
      (performAll qs s).2.settings = s.settings ∧
      (performAll qs s).2.tree = qs.foldl Query.modify s.tree := by
  induction qs using List.reverseRecOn with
  | nil => exact ⟨rfl, rfl, rfl⟩
  | append_singleton qs q ih =>
    obtain ⟨hinterpreter, hsettings, htree⟩ := parts_perform (performAll_spec h qs).2.1 q
    rw [performAll_append_singleton]
    dsimp only
    rw [hinterpreter, hsettings, htree, ih.1, ih.2.1, ih.2.2, List.foldl_append]
    exact ⟨rfl, rfl, rfl⟩

end Session
end PathFacts
