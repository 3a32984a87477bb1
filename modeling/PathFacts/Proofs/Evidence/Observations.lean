import PathFacts.Evidence
import PathFacts.Proofs.ValueSet.Observations
import PathFacts.Proofs.ValueType.Join

/-!
# What observations of one expression add up to

An observation joins the refined type of the pushed value and adds its constant.  The shortcut
at `top` is no exception, since nothing can be joined to `top` (`Evidence.joinType_eq`).

* Observing a push again changes nothing (`Evidence.observe_observe`).
* Evidence only ever grows: `Evidence.GrowsTo` is the relation, kept by every observation and
  by every broken contract.
* The type after a list of observations is the join of the refined types
  (`Evidence.type_observeTypes`).
-/

namespace PathFacts.Evidence

/-! ## One observation -/

theorem joinType_eq (p : Evidence) (t : ValueType) :
    p.joinType t = { p with type := p.type.join t } := by
  unfold joinType
  split
  · rename_i h
    rw [ValueType.isTop, beq_iff_eq] at h
    cases p
    simp_all
  · rfl

@[simp] theorem type_observe (p : Evidence) (m : Memory) (v : Pushed) :
    (p.observe m v).type = p.type.join (m.refined v) := by
  rw [observe, observeType, joinType_eq, observeConstant]

@[simp] theorem constants_observe (p : Evidence) (m : Memory) (v : Pushed) :
    (p.observe m v).constants = p.constants.observe (m.typeOf v).constant? := by
  rw [observe, observeType, joinType_eq, observeConstant]

@[simp] theorem mayFail_observe (p : Evidence) (m : Memory) (v : Pushed) :
    (p.observe m v).mayFail = p.mayFail := by
  rw [observe, observeType, joinType_eq, observeConstant]

@[simp] theorem type_markFailure (p : Evidence) : p.markFailure.type = p.type := rfl

@[simp] theorem constants_markFailure (p : Evidence) :
    p.markFailure.constants = p.constants := rfl

@[simp] theorem markFailure_markFailure (p : Evidence) :
    p.markFailure.markFailure = p.markFailure := rfl

theorem eq_of_fields {p q : Evidence} (ht : p.type = q.type) (hc : p.constants = q.constants)
    (hf : p.mayFail = q.mayFail) : p = q := by
  cases p
  cases q
  simp_all

/-- A push that is observed again changes nothing. -/
theorem observe_observe (p : Evidence) (m : Memory) (v : Pushed) :
    (p.observe m v).observe m v = p.observe m v :=
  eq_of_fields (by simp [ValueType.join_assoc]) (by simp [ValueSet.observe_observe]) (by simp)

/-! ## Growth -/

/-- All that `p` tells is kept in `q`: the type is not smaller, no constant is lost unless the
constants were given up, and a broken contract stays marked. -/
structure GrowsTo (p q : Evidence) : Prop where
  type_le : p.type ≤ q.type
  constants : p.constants.GrowsTo q.constants
  mayFail : p.mayFail = true → q.mayFail = true

theorem growsTo_refl (p : Evidence) : p.GrowsTo p :=
  ⟨le_refl p.type, ValueSet.growsTo_refl p.constants, id⟩

theorem GrowsTo.trans {p q r : Evidence} (h : p.GrowsTo q) (h' : q.GrowsTo r) : p.GrowsTo r :=
  ⟨h.type_le.trans h'.type_le, h.constants.trans h'.constants, fun hp => h'.mayFail (h.mayFail hp)⟩

theorem growsTo_observe (p : Evidence) (m : Memory) (v : Pushed) : p.GrowsTo (p.observe m v) where
  type_le := by
    rw [type_observe]
    exact le_sup_left
  constants := by
    rw [constants_observe]
    exact ValueSet.growsTo_observe p.constants _
  mayFail := by
    rw [mayFail_observe]
    exact id

theorem growsTo_markFailure (p : Evidence) : p.GrowsTo p.markFailure :=
  ⟨le_refl p.type, ValueSet.growsTo_refl p.constants, fun _ => rfl⟩

/-! ## A list of observations -/

/-- Joins the refined types of a list of values, each under its own memory. -/
def observeTypes (p : Evidence) (seen : List (Memory × Pushed)) : Evidence :=
  seen.foldl (fun p s => p.observeType s.1 s.2) p

/-- From the empty point on, the type is the join of all refined types. -/
theorem type_observeTypes (seen : List (Memory × Pushed)) :
    (observeTypes {} seen).type = .joinAll (seen.map fun s => s.1.refined s.2) := by
  suffices h : ∀ p : Evidence, (p.observeTypes seen).type =
      p.type.join (.joinAll (seen.map fun s => s.1.refined s.2)) from
    (h {}).trans (ValueType.bottom_join _)
  induction seen with
  | nil => exact fun p => (ValueType.join_bottom p.type).symm
  | cons s seen ih =>
    intro p
    show ((p.observeType s.1 s.2).observeTypes seen).type = _
    rw [ih, observeType, joinType_eq, List.map_cons, ValueType.joinAll_cons, ValueType.join_assoc]

end PathFacts.Evidence
