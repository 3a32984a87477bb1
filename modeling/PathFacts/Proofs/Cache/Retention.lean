import PathFacts.Proofs.Cache.Memo

/-!
# What stays in the cache between calls

While one call at a time is made, and always for the generation that a container has by then, a
look-up tells beforehand what a call will do.  If it finds a result, the call returns it and
changes nothing (`Cache.begin_of_lookup`).  If it finds none, the call computes; what it computes
is found from then on, and what is found for other units stays (`Cache.Idle.begin_of_lookup_none`).

`Cache.Idle` is what makes this true: every slot on a shelf has a result, and no shelf that is up
is from a generation that is still to come.  With an older shelf nothing is lost when the first
call for the new generation puts up a new one, for it held nothing that could still be found.
-/

namespace PathFacts.Cache

variable {α : Type} {c : Cache α} {k : Key} {container : ContainerId} {r : α}

/-- A call for a result that is there returns it. -/
theorem begin_of_lookup (h : c.lookup k = some r) : c.begin k = (.returned r, c) := by
  obtain ⟨i, j, hi, hgeneration, hj, hr⟩ := lookup_eq_some_iff.1 h
  have hadv : (Phase.start : Phase α).advance? k c = some (.atShelf i, c) := by
    rw [Phase.advance?, openShelf_of_eq hi hgeneration]
  rw [begin, Phase.settle_succ rfl hadv]
  exact settle_atShelf_of_ready hj hr 5

@[simp] theorem lookup_ofLimit (limit : Nat) (k : Key) :
    (Cache.ofLimit limit : Cache α).lookup k = none := by
  simp [lookup, slotOf?, Cache.ofLimit]

theorem containers_forget (c : Cache α) (container container' : ContainerId) :
    (c.forget container).containers[container']? =
      if container = container' then none else c.containers[container']? := by
  rw [forget, Std.ExtTreeMap.getElem?_erase]
  simp only [Std.compare_eq_iff_eq]

theorem lookup_forget (c : Cache α) (container : ContainerId) (k : Key) :
    (c.forget container).lookup k = if container = k.container then none else c.lookup k := by
  rw [lookup, slotOf?, containers_forget]
  split
  · rfl
  · rfl

/-- A container whose shelf is from an earlier generation, or that has none, gets a new one. -/
theorem openShelf_of_earlier {generation : UInt64} (h : ∀ i, c.containers[container]? = some i →
    (c.shelf i).generation < generation) : c.openShelf container generation =
      (some c.shelves.size, (c.putShelf container generation).2) := by
  cases hi : c.containers[container]? with
  | none => exact openShelf_of_none generation hi
  | some i => exact openShelf_of_lt hi (h i hi)

/-- Nobody computes, and no shelf is up for a later generation than the one given by `now`. -/
structure Idle (c : Cache α) (now : ContainerId → UInt64) : Prop where
  ready : c.Memoizes fun _ _ => True
  shelf_lt : ∀ (container : ContainerId) (i : Nat), c.containers[container]? = some i →
    i < c.shelves.size
  generation_le : ∀ (container : ContainerId) (i : Nat), c.containers[container]? = some i →
    (c.shelf i).generation ≤ now container

namespace Idle

variable {now now' : ContainerId → UInt64}

theorem ofLimit (limit : Nat) (now : ContainerId → UInt64) :
    (Cache.ofLimit limit : Cache α).Idle now where
  ready := .ofLimit limit
  shelf_lt container i hi := by simp [Cache.ofLimit] at hi
  generation_le container i hi := by simp [Cache.ofLimit] at hi

/-- Generations may go on. -/
theorem mono (h : c.Idle now) (hle : ∀ container, now container ≤ now' container) :
    c.Idle now' where
  ready := h.ready
  shelf_lt := h.shelf_lt
  generation_le container i hi := UInt64.le_trans (h.generation_le container i hi) (hle container)

/-- Nothing is found for a generation that is still to come. -/
theorem lookup_of_later (h : c.Idle now) (hlater : now k.container < k.generation) :
    c.lookup k = none := by
  refine Option.eq_none_iff_forall_ne_some.2 fun r hr => ?_
  obtain ⟨i, -, hi, hgeneration, -⟩ := lookup_eq_some_iff.1 hr
  have hle := h.generation_le k.container i hi
  rw [hgeneration] at hle
  exact UInt64.not_lt.2 hle hlater

theorem forget (h : c.Idle now) (container : ContainerId) : (c.forget container).Idle now := by
  have hold : ∀ {container' : ContainerId} {i : Nat},
      (c.forget container).containers[container']? = some i →
      c.containers[container']? = some i := by
    intro container' i hi
    rw [containers_forget] at hi
    split at hi
    · cases hi
    · exact hi
  exact ⟨h.ready.forget container, fun _ i hi => h.shelf_lt _ i (hold hi),
    fun _ i hi => h.generation_le _ i (hold hi)⟩

/-! ### A new shelf -/

theorem putShelf (h : c.Idle now) (container : ContainerId) :
    (c.putShelf container (now container)).2.Idle now where
  ready := h.ready.putShelf _ _
  shelf_lt container' i hi := by
    rw [containers_putShelf] at hi
    rw [shelves_size_putShelf]
    split at hi
    · cases hi
      exact Nat.lt_succ_self _
    · exact Nat.lt_succ_of_lt (h.shelf_lt container' i hi)
  generation_le container' i hi := by
    rw [containers_putShelf] at hi
    rw [shelf_putShelf]
    split at hi
    · rename_i hsame
      cases hi
      rw [if_pos rfl, hsame]
      exact UInt64.le_refl _
    · rw [if_neg (Nat.ne_of_lt (h.shelf_lt container' i hi))]
      exact h.generation_le container' i hi

/-- A shelf of an earlier generation holds nothing that is found now, and the new one holds
nothing yet. -/
theorem lookup_putShelf (h : c.Idle now)
    (hearlier : ∀ i, c.containers[container]? = some i → (c.shelf i).generation < now container)
    (hk : k.generation = now k.container) :
    (c.putShelf container (now container)).2.lookup k = c.lookup k := by
  refine Option.ext fun r => ?_
  rw [lookup_eq_some_iff, lookup_eq_some_iff, containers_putShelf]
  by_cases hsame : container = k.container
  · subst hsame
    constructor
    · rintro ⟨i, j, hi, -, hj, -⟩
      rw [if_pos rfl] at hi
      cases hi
      rw [shelf_putShelf, if_pos rfl] at hj
      exact absurd hj (by simp)
    · rintro ⟨i, j, hi, hgeneration, -⟩
      have hlt := hearlier i hi
      rw [hgeneration, hk] at hlt
      exact absurd hlt (UInt64.lt_irrefl _)
  · rw [if_neg hsame]
    have hshelf : ∀ i, c.containers[k.container]? = some i →
        (c.putShelf container (now container)).2.shelf i = c.shelf i := by
      intro i hi
      rw [shelf_putShelf, if_neg (Nat.ne_of_lt (h.shelf_lt _ i hi))]
    constructor
    · rintro ⟨i, j, hi, hgeneration, hj, hr⟩
      rw [hshelf i hi] at hgeneration hj
      exact ⟨i, j, hi, hgeneration, hj, hr⟩
    · rintro ⟨i, j, hi, hgeneration, hj, hr⟩
      refine ⟨i, j, hi, ?_, ?_, hr⟩
      · rw [hshelf i hi, hgeneration]
      · rw [hshelf i hi, hj]

/-- A call for the generation of now comes to a shelf of that generation, and whatever was found
now is found still. -/
theorem exists_shelf (h : c.Idle now) (container : ContainerId) :
    ∃ i c', c.openShelf container (now container) = (some i, c') ∧ c'.Idle now ∧
      c'.containers[container]? = some i ∧ (c'.shelf i).generation = now container ∧
      ∀ k, k.generation = now k.container → c'.lookup k = c.lookup k := by
  by_cases hup : ∃ i, c.containers[container]? = some i ∧ (c.shelf i).generation = now container
  · obtain ⟨i, hi, hgeneration⟩ := hup
    exact ⟨i, c, openShelf_of_eq hi hgeneration, h, hi, hgeneration, fun _ _ => rfl⟩
  · have hearlier : ∀ i, c.containers[container]? = some i →
        (c.shelf i).generation < now container := fun i hi =>
      UInt64.lt_of_le_of_ne (h.generation_le container i hi) fun heq => hup ⟨i, hi, heq⟩
    refine ⟨_, _, openShelf_of_earlier hearlier, h.putShelf container, ?_, ?_,
      fun k hk => h.lookup_putShelf hearlier hk⟩
    · rw [containers_putShelf, if_pos rfl]
    · rw [shelf_putShelf, if_pos rfl]

/-! ### A new result -/

/-- A slot that is made on a shelf and filled at once. -/
theorem makeSlot (h : c.Idle now) (i : Nat) (u : UnitId) (r : α) :
    ((c.makeSlot i u).setSlot c.slots.size (.ready r)).Idle now where
  ready := h.ready.makeSlot i u trivial
  shelf_lt container j hj := by
    show j < (c.makeSlot i u).shelves.size
    rw [shelves_size_makeSlot]
    exact h.shelf_lt container j hj
  generation_le container j hj := by
    rw [shelf_setSlot, generation_makeSlot]
    exact h.generation_le container j hj

theorem lookup_makeSlot_self {i : Nat} (h : c.Idle now)
    (hi : c.containers[k.container]? = some i)
    (hgeneration : (c.shelf i).generation = k.generation) (r : α) :
    ((c.makeSlot i k.unit).setSlot c.slots.size (.ready r)).lookup k = some r := by
  refine lookup_eq_some_iff.2 ⟨i, c.slots.size, hi, ?_, ?_, ?_⟩
  · rw [shelf_setSlot, generation_makeSlot, hgeneration]
  · rw [shelf_setSlot, slots_makeSlot, if_pos ⟨rfl, h.shelf_lt _ i hi, rfl⟩]
  · rw [slot_setSlot, size_makeSlot, if_pos ⟨rfl, Nat.lt_succ_self _⟩]

/-- What is found for other units stays. -/
theorem lookup_makeSlot_of_ne (h : c.Idle now) {u : UnitId} (hu : u ≠ k.unit) (i : Nat) (r : α) :
    ((c.makeSlot i u).setSlot c.slots.size (.ready r)).lookup k = c.lookup k := by
  have hslots : ∀ i', ((c.makeSlot i u).shelf i').slots[k.unit]? =
      (c.shelf i').slots[k.unit]? := by
    intro i'
    rw [slots_makeSlot, if_neg fun hmade => hu hmade.2.2]
  have hslot : ∀ i' j, (c.shelf i').slots[k.unit]? = some j →
      ((c.makeSlot i u).setSlot c.slots.size (.ready r)).slot j = c.slot j := by
    intro i' j hj
    obtain ⟨r', hr', -⟩ := h.ready i' k.unit j hj
    have hold : j < c.slots.size := lt_size_of_slot_ne_pending (by simp [hr'])
    rw [slot_setSlot, slot_makeSlot, if_neg fun hnew => Nat.ne_of_gt hold hnew.1]
  refine Option.ext fun r' => ?_
  rw [lookup_eq_some_iff, lookup_eq_some_iff]
  constructor
  · rintro ⟨i', j, hi', hgeneration, hj, hr'⟩
    rw [shelf_setSlot, generation_makeSlot] at hgeneration
    rw [shelf_setSlot, hslots] at hj
    rw [hslot i' j hj] at hr'
    exact ⟨i', j, hi', hgeneration, hj, hr'⟩
  · rintro ⟨i', j, hi', hgeneration, hj, hr'⟩
    refine ⟨i', j, hi', ?_, ?_, ?_⟩
    · rw [shelf_setSlot, generation_makeSlot, hgeneration]
    · rw [shelf_setSlot, hslots, hj]
    · rw [hslot i' j hj, hr']

/-- A call for a result that is not there computes it.  From then on it is found, and what was
found for other units stays. -/
theorem begin_of_lookup_none (h : c.Idle now) (hk : k.generation = now k.container)
    (hnone : c.lookup k = none) :
    ∃ role c', c.begin k = (.computing role, c') ∧ ∀ r, ∃ c'',
      c'.conclude k role (some r) = (.returned r, c'') ∧ c''.Idle now ∧
      c''.lookup k = some r ∧ ∀ k', k'.generation = now k'.container → k.unit ≠ k'.unit →
        c''.lookup k' = c.lookup k' := by
  obtain ⟨i, c', hopen, hidle, hi, hgeneration, hlookup⟩ := h.exists_shelf k.container
  rw [← hk] at hopen hgeneration
  have hadv : (Phase.start : Phase α).advance? k c = some (.atShelf i, c') := by
    rw [Phase.advance?, hopen]
  -- a slot on the shelf would have a result, and so the look-up
  have hslot : (c'.shelf i).slots[k.unit]? = none := by
    refine Option.eq_none_iff_forall_ne_some.2 fun j hj => ?_
    obtain ⟨r, hr, -⟩ := hidle.ready i k.unit j hj
    have hfound := lookup_eq_some_iff.2 ⟨i, j, hi, hgeneration, hj, hr⟩
    rw [hlookup k hk, hnone] at hfound
    cases hfound
  refine ⟨.owner c'.slots.size, c'.makeSlot i k.unit, ?_, fun r =>
    ⟨_, conclude_makeSlot c' k i r, hidle.makeSlot i k.unit r,
      hidle.lookup_makeSlot_self hi hgeneration r, fun k' hk' hne => ?_⟩⟩
  · rw [begin, Phase.settle_succ rfl hadv]
    exact settle_atShelf_of_none hslot 6
  · rw [hidle.lookup_makeSlot_of_ne hne, hlookup k' hk']

end Idle
end PathFacts.Cache
