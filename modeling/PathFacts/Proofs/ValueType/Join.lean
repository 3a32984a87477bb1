import PathFacts.ValueType.Basic
import Mathlib.Data.List.Forall2
import Mathlib.Order.BoundedOrder.Lattice
import Mathlib.Order.MinMax

/-!
# Joins of types

The join of types is commutative, associative and idempotent for *all* types, also for
those with bounds in the wrong order, so `ValueType` is a join semilattice between
`bottom` and `top` under the order that it already has.

Two different types other than `bottom` never join to a constant: the join only looks at
what is left of them once a constant is read as an interval or as facts about a reference.
`ValueType.widened` is that reading, and associativity is proved on it; a triple of types
keeps a constant only if all three are equal.

`ValueType.joinAll` joins a list from `bottom`.
-/

namespace PathFacts

/-! ## Intervals and facts about references -/

/-- The signed order, with the smaller and the larger of two numbers as they are computed. -/
instance instLinearOrderInt64 : LinearOrder Int64 where
  le_refl := Int64.le_refl
  le_trans _ _ _ := Int64.le_trans
  le_antisymm _ _ := Int64.le_antisymm
  le_total := Int64.le_total
  lt_iff_le_not_ge _ _ := Std.lt_iff_le_and_not_ge
  toDecidableLE := inferInstance
  toDecidableEq := inferInstance
  toDecidableLT := inferInstance
  min := min
  max := max
  min_def _ _ := rfl
  max_def _ _ := rfl
  compare := compare
  compare_eq_compareOfLessAndEq _ _ := rfl

namespace Interval

theorem join_self (r : Interval) : r.join r = r := by simp [join]

theorem join_comm (r s : Interval) : r.join s = s.join r := by
  simp only [join, mk.injEq]
  exact ⟨min_comm r.lower s.lower, max_comm r.upper s.upper⟩

theorem join_assoc (r s t : Interval) : (r.join s).join t = r.join (s.join t) := by
  simp only [join, mk.injEq]
  exact ⟨min_assoc r.lower s.lower t.lower, max_assoc r.upper s.upper t.upper⟩

end Interval

namespace Nullability

theorem join_self (a : Nullability) : a.join a = a := by simp [join]

theorem join_comm (a b : Nullability) : a.join b = b.join a := by
  cases a <;> cases b <;> rfl

theorem join_assoc (a b c : Nullability) : (a.join b).join c = a.join (b.join c) := by
  cases a <;> cases b <;> cases c <;> rfl

end Nullability

namespace ReferenceInfo

theorem join_self (f : ReferenceInfo) : f.join f = f := by
  obtain ⟨n, p, s⟩ := f
  cases s <;> simp [join, Nullability.join_self, Interval.join_self]

theorem join_comm (f g : ReferenceInfo) : f.join g = g.join f := by
  obtain ⟨n, p, s⟩ := f
  obtain ⟨n', p', s'⟩ := g
  simp only [join, mk.injEq]
  refine ⟨Nullability.join_comm n n', ?_, ?_⟩
  · by_cases h : p = p'
    · rw [h]
    · rw [if_neg h, if_neg (Ne.symm h)]
  · cases s <;> cases s' <;> simp [Interval.join_comm]

theorem join_assoc (f g h : ReferenceInfo) : (f.join g).join h = f.join (g.join h) := by
  obtain ⟨n, p, s⟩ := f
  obtain ⟨n', p', s'⟩ := g
  obtain ⟨n'', p'', s''⟩ := h
  simp only [join, mk.injEq]
  refine ⟨Nullability.join_assoc n n' n'', ?_, ?_⟩
  · by_cases h : p = p' <;> by_cases h' : p' = p'' <;> simp_all
  · cases s <;> cases s' <;> cases s'' <;> simp [Interval.join_assoc]

end ReferenceInfo

namespace ValueType

/-! ## What a join keeps of a type -/

/-- A type read without its constant: as an interval, as facts about a reference, or, if
it is neither, as any value.  Joins of different types see no more than this. -/
def widened (t : ValueType) : ValueType :=
  match t.interval? with
  | some r => range r
  | none =>
    match t.reference? with
    | some f => reference f
    | none => top

/-- The join of two types without constants. -/
def joinWidened : ValueType → ValueType → ValueType
  | range r, range s => range (r.join s)
  | reference f, reference g => reference (f.join g)
  | _, _ => top

theorem joinProper_eq (a b : ValueType) :
    joinProper a b = joinWidened a.widened b.widened := by
  unfold joinProper widened
  rcases a with _ | (_ | _ | _ | _ | _ | _) | _ | _ | _ <;>
    rcases b with _ | (_ | _ | _ | _ | _ | _) | _ | _ | _ <;>
    simp [interval?, reference?, joinWidened]

theorem joinWidened_comm (a b : ValueType) : joinWidened a b = joinWidened b a := by
  cases a <;> cases b <;> simp [joinWidened, Interval.join_comm, ReferenceInfo.join_comm]

theorem joinWidened_assoc (a b c : ValueType) :
    joinWidened (joinWidened a b) c = joinWidened a (joinWidened b c) := by
  cases a <;> cases b <;> cases c <;>
    simp [joinWidened, Interval.join_assoc, ReferenceInfo.join_assoc]

theorem joinWidened_self (a : ValueType) : joinWidened a.widened a.widened = a.widened := by
  unfold widened
  rcases a with _ | (_ | _ | _ | _ | _ | _) | _ | _ | _ <;>
    simp [interval?, reference?, joinWidened, Interval.join_self, ReferenceInfo.join_self]

/-- A join of types without constants has none either. -/
theorem widened_joinWidened (a b : ValueType) :
    (joinWidened a b).widened = joinWidened a b := by
  cases a <;> cases b <;> rfl

theorem joinWidened_ne_bottom (a b : ValueType) : joinWidened a b ≠ bottom := by
  cases a <;> cases b <;> simp [joinWidened]

/-! ## The semilattice -/

@[simp] theorem join_self (a : ValueType) : a.join a = a := by simp [join]

@[simp] theorem bottom_join (a : ValueType) : bottom.join a = a := by
  cases a <;> simp [join]

@[simp] theorem join_bottom (a : ValueType) : a.join bottom = a := by
  cases a <;> simp [join]

@[simp] theorem top_join (a : ValueType) : top.join a = top := by
  cases a <;> simp [join]

/-- Different types other than `bottom` are joined without their constants. -/
theorem join_of_ne {a b : ValueType} (ha : a ≠ bottom) (hb : b ≠ bottom) (h : a ≠ b) :
    a.join b = joinWidened a.widened b.widened := by
  rw [← joinProper_eq]
  cases a <;> cases b <;> simp_all [join, joinProper, interval?, reference?]

theorem join_comm (a b : ValueType) : a.join b = b.join a := by
  by_cases ha : a = bottom
  · simp [ha]
  by_cases hb : b = bottom
  · simp [hb]
  by_cases h : a = b
  · rw [h]
  · rw [join_of_ne ha hb h, join_of_ne hb ha (Ne.symm h), joinWidened_comm]

@[simp] theorem join_top (a : ValueType) : a.join top = top := by rw [join_comm, top_join]

theorem join_ne_bottom {a : ValueType} (ha : a ≠ bottom) (b : ValueType) :
    a.join b ≠ bottom := by
  by_cases hb : b = bottom
  · simpa [hb] using ha
  by_cases h : a = b
  · simpa [h] using hb
  · rw [join_of_ne ha hb h]
    exact joinWidened_ne_bottom _ _

theorem widened_join {a b : ValueType} (ha : a ≠ bottom) (hb : b ≠ bottom) :
    (a.join b).widened = joinWidened a.widened b.widened := by
  by_cases h : a = b
  · rw [h, join_self, joinWidened_self]
  · rw [join_of_ne ha hb h, widened_joinWidened]

/-- A join of three types that are not all equal has no constant. -/
theorem widened_join_join {a b c : ValueType} (ha : a ≠ bottom) (hb : b ≠ bottom)
    (hc : c ≠ bottom) (h : ¬ (a = b ∧ b = c)) :
    ((a.join b).join c).widened = (a.join b).join c := by
  by_cases hab : a = b
  · subst hab
    have hac : a ≠ c := fun hac => h ⟨rfl, hac⟩
    rw [join_self, join_of_ne ha hc hac, widened_joinWidened]
  · have habw : (a.join b).widened = a.join b := by
      rw [join_of_ne ha hb hab, widened_joinWidened]
    by_cases habc : a.join b = c
    · rw [← habc, join_self, habw]
    · rw [join_of_ne (join_ne_bottom ha b) hc habc, widened_joinWidened]

theorem join_assoc (a b c : ValueType) : (a.join b).join c = a.join (b.join c) := by
  by_cases ha : a = bottom
  · simp [ha]
  by_cases hb : b = bottom
  · simp [hb]
  by_cases hc : c = bottom
  · simp [hc]
  by_cases h : a = b ∧ b = c
  · obtain ⟨rfl, rfl⟩ := h
    simp
  have hleft : (a.join b).join c = joinWidened (joinWidened a.widened b.widened) c.widened := by
    rw [← widened_join_join ha hb hc h, widened_join (join_ne_bottom ha b) hc, widened_join ha hb]
  have hright : a.join (b.join c) = joinWidened (joinWidened c.widened b.widened) a.widened := by
    have h' : ¬ (c = b ∧ b = a) := fun hcba => h ⟨hcba.2.symm, hcba.1.symm⟩
    rw [join_comm a, join_comm b, ← widened_join_join hc hb ha h',
      widened_join (join_ne_bottom hc b) ha, widened_join hc hb]
  rw [hleft, hright, joinWidened_assoc, joinWidened_comm, joinWidened_comm b.widened]

instance : Std.Associative join := ⟨join_assoc⟩

/-- Joins are least upper bounds in the order of types. -/
instance : SemilatticeSup ValueType where
  sup := join
  le_refl := join_self
  le_trans a b c (hab : a.join b = b) (hbc : b.join c = c) := by
    show a.join c = c
    rw [← hbc, ← join_assoc, hab]
  le_antisymm a b (hab : a.join b = b) (hba : b.join a = a) := by
    rw [← hab, join_comm, hba]
  le_sup_left a b := by
    show a.join (a.join b) = a.join b
    rw [← join_assoc, join_self]
  le_sup_right a b := by
    show b.join (a.join b) = a.join b
    rw [join_comm a, ← join_assoc, join_self]
  sup_le a b c (hac : a.join c = c) (hbc : b.join c = c) := by
    show (a.join b).join c = c
    rw [join_assoc, hbc, hac]

instance : BoundedOrder ValueType where
  bot := bottom
  bot_le := bottom_join
  top := top
  le_top := join_top

theorem join_mono {a b : ValueType} (h : a ≤ b) (c : ValueType) : a.join c ≤ b.join c :=
  sup_le_sup_right h c

theorem eq_top_of_le {a b : ValueType} (h : a ≤ b) (ha : a = top) : b = top :=
  le_antisymm (join_top b) (ha ▸ h)

/-! ## Joins of lists -/

/-- The join of all types of a list. -/
def joinAll (ts : List ValueType) : ValueType := ts.foldl join bottom

@[simp] theorem joinAll_nil : joinAll [] = bottom := rfl

theorem foldl_join (t : ValueType) (ts : List ValueType) :
    ts.foldl join t = t.join (joinAll ts) := by
  have h : ts.foldl join (t.join bottom) = t.join (ts.foldl join bottom) := List.foldl_assoc
  rwa [join_bottom] at h

@[simp] theorem joinAll_cons (t : ValueType) (ts : List ValueType) :
    joinAll (t :: ts) = t.join (joinAll ts) := by
  rw [joinAll, List.foldl_cons, bottom_join, foldl_join]

theorem joinAll_le_iff {ts : List ValueType} {u : ValueType} :
    joinAll ts ≤ u ↔ ∀ t ∈ ts, t ≤ u := by
  induction ts with
  | nil => exact ⟨fun _ t ht => absurd ht List.not_mem_nil, fun _ => bottom_join u⟩
  | cons t ts ih =>
    rw [joinAll_cons, List.forall_mem_cons, ← ih]
    exact sup_le_iff

theorem joinAll_mono {ts us : List ValueType} (h : ts ⊆ us) : joinAll ts ≤ joinAll us :=
  joinAll_le_iff.2 fun t ht => joinAll_le_iff.1 (le_refl (joinAll us)) t (h ht)

/-- Joins of lists that are ordered element by element are ordered. -/
theorem joinAll_le_joinAll {ts us : List ValueType} (h : List.Forall₂ (· ≤ ·) ts us) :
    joinAll ts ≤ joinAll us := by
  induction h with
  | nil => exact le_refl _
  | cons htu _ ih =>
    rw [joinAll_cons, joinAll_cons]
    exact sup_le_sup htu ih

end ValueType
end PathFacts
