import PathFacts.Proofs.Cache.Moves

/-!
# Calls that do not meet

While one call at a time is made to a cache, no call ever finds a slot that is still pending,
so nobody waits: a call returns what it finds, or computes.  `Memoizes` says that everything to
be found is a good result for its unit.  `serves_begin` is all that a caller has to know: the
call returns a good result, or it computes, and then publishing a good result returns it and
keeps the rest good.
-/

namespace PathFacts

variable {α : Type}

/-! ## Moving until at rest -/

namespace Phase

variable {k : Key} {n : Nat} {p p' : Phase α} {c c' : Cache α}

theorem settle_of_isAtRest (k : Key) (n : Nat) (h : p.isAtRest c = true) :
    settle k n p c = (p, c) := by
  cases n with
  | zero => rfl
  | succ n => rw [settle, if_pos h]

theorem settle_succ (h : p.isAtRest c = false) (hadv : p.advance? k c = some (p', c')) :
    settle k (n + 1) p c = settle k n p' c' := by
  rw [settle, if_neg (by rw [h]; exact Bool.false_ne_true), hadv]

end Phase

namespace Cache

variable {c : Cache α} {good : UnitId → α → Prop}

/-- Every slot on a shelf has a good result for its unit. -/
def Memoizes (c : Cache α) (good : UnitId → α → Prop) : Prop :=
  ∀ (i : Nat) (u : UnitId) (j : Nat), (c.shelf i).slots[u]? = some j →
    ∃ r, c.slot j = .ready r ∧ good u r

namespace Memoizes

theorem ofLimit (limit : Nat) : (Cache.ofLimit limit).Memoizes good := by
  intro i u j h
  rw [shelf_of_size_le (Nat.zero_le i)] at h
  exact absurd h (by simp [default])

/-- It does not matter what the containers know. -/
theorem of_same_parts {c' : Cache α} (h : c.Memoizes good) (hshelves : c'.shelves = c.shelves)
    (hslots : c'.slots = c.slots) : c'.Memoizes good := by
  intro i u j hj
  rw [shelf, hshelves] at hj
  obtain ⟨r, hr, hgood⟩ := h i u j hj
  rw [slot, hslots]
  exact ⟨r, hr, hgood⟩

theorem forget (h : c.Memoizes good) (container : ContainerId) :
    (c.forget container).Memoizes good :=
  h.of_same_parts rfl rfl

theorem putShelf (h : c.Memoizes good) (container : ContainerId) (generation : UInt64) :
    (c.putShelf container generation).2.Memoizes good := by
  intro i u j hj
  rw [shelf_putShelf] at hj
  split at hj
  · exact absurd hj (by simp)
  · exact h i u j hj

/-- A slot that is made and gets a good result at once. -/
theorem makeSlot {r : α} (h : c.Memoizes good) (i : Nat) (u : UnitId) (hr : good u r) :
    ((c.makeSlot i u).setSlot c.slots.size (.ready r)).Memoizes good := by
  intro i' v j hj
  rw [shelf_setSlot, slots_makeSlot] at hj
  rw [slot_setSlot, size_makeSlot, slot_makeSlot]
  split at hj
  · rename_i hmade
    obtain ⟨-, -, rfl⟩ := hmade
    cases hj
    exact ⟨r, if_pos ⟨rfl, Nat.lt_succ_self _⟩, hr⟩
  · obtain ⟨r', hr', hgood⟩ := h i' v j hj
    have hold : j < c.slots.size := lt_size_of_slot_ne_pending (by simp [hr'])
    rw [if_neg fun hnew => Nat.ne_of_gt hold hnew.1]
    exact ⟨r', hr', hgood⟩

end Memoizes

/-- What a call comes to: it returns a good result, or it computes and returns what it
computed, if that is good. -/
def Serves (good : UnitId → α → Prop) (k : Key) (call : Phase α × Cache α) : Prop :=
  (∃ r c, call = (.returned r, c) ∧ good k.unit r ∧ c.Memoizes good) ∨
  ∃ role c, call = (.computing role, c) ∧ ∀ r, good k.unit r →
    ∃ c', c.conclude k role (some r) = (.returned r, c') ∧ c'.Memoizes good

theorem serves_outsider (h : c.Memoizes good) (k : Key) :
    Serves good k (.computing .outsider, c) := by
  refine Or.inr ⟨.outsider, c, rfl, fun r _ => ⟨c, ?_, h⟩⟩
  exact Phase.settle_of_isAtRest k 1 rfl

/-- A call that finds a result on a shelf returns it. -/
theorem settle_atShelf_of_ready {k : Key} {i j : Nat} {r : α}
    (hj : (c.shelf i).slots[k.unit]? = some j) (hr : c.slot j = .ready r) (n : Nat) :
    Phase.settle k (n + 2) (.atShelf i) c = (.returned r, c) := by
  have hfind : (Phase.atShelf i).advance? k c = some (.atSlot j, c) := by
    rw [Phase.advance?, openSlot_of_some hj]
  have hhit : (Phase.atSlot j).advance? k c = some (.returned r, c) := by
    rw [Phase.advance?, hr]
    rfl
  rw [Phase.settle_succ rfl hfind, Phase.settle_succ rfl hhit]
  exact Phase.settle_of_isAtRest k n rfl

/-- A call that finds no slot on a shelf makes one and computes. -/
theorem settle_atShelf_of_none {k : Key} {i : Nat} (hnone : (c.shelf i).slots[k.unit]? = none)
    (n : Nat) : Phase.settle k (n + 1) (.atShelf i) c =
      (.computing (.owner c.slots.size), c.makeSlot i k.unit) := by
  have hmake : (Phase.atShelf i).advance? k c =
      some (.computing (.owner c.slots.size), c.makeSlot i k.unit) := by
    rw [Phase.advance?, openSlot_of_none hnone]
  rw [Phase.settle_succ rfl hmake]
  exact Phase.settle_of_isAtRest k n rfl

/-- The owner of a slot that was made just now publishes what it computed. -/
theorem conclude_makeSlot (c : Cache α) (k : Key) (i : Nat) (r : α) :
    (c.makeSlot i k.unit).conclude k (.owner c.slots.size) (some r) =
      (.returned r, (c.makeSlot i k.unit).setSlot c.slots.size (.ready r)) := by
  have hpending : ∀ r', (c.makeSlot i k.unit).slot c.slots.size ≠ .ready r' := by
    intro r'
    simp [slot_of_size_le]
  have hpublish : (Phase.publishing c.slots.size r).advance? k (c.makeSlot i k.unit) =
      some (.returned r, (c.makeSlot i k.unit).setSlot c.slots.size (.ready r)) := by
    rw [Phase.advance?, publish_of_ne hpending]
  exact Phase.settle_succ (n := 0) rfl hpublish

/-- A call that has come to a shelf. -/
theorem serves_atShelf (h : c.Memoizes good) (k : Key) (i n : Nat) :
    Serves good k (Phase.settle k (n + 2) (.atShelf i) c) := by
  cases hj : (c.shelf i).slots[k.unit]? with
  | some j =>
    obtain ⟨r, hr, hgood⟩ := h i k.unit j hj
    exact Or.inl ⟨r, c, settle_atShelf_of_ready hj hr n, hgood, h⟩
  | none =>
    refine Or.inr ⟨.owner c.slots.size, c.makeSlot i k.unit, settle_atShelf_of_none hj (n + 1),
      fun r hr => ⟨_, conclude_makeSlot c k i r, h.makeSlot i k.unit hr⟩⟩

/-- A call that does not meet another one never waits and is served well. -/
theorem serves_begin (h : c.Memoizes good) (k : Key) : Serves good k (c.begin k) := by
  have hputUp : c.openShelf k.container k.generation =
      (some c.shelves.size, (c.putShelf k.container k.generation).2) →
      Serves good k (c.begin k) := by
    intro hopen
    have hadv : (Phase.start : Phase α).advance? k c =
        some (.atShelf c.shelves.size, (c.putShelf k.container k.generation).2) := by
      rw [Phase.advance?, hopen]
    rw [begin, Phase.settle_succ rfl hadv]
    exact serves_atShelf (h.putShelf _ _) k _ 5
  cases hi : c.containers[k.container]? with
  | none => exact hputUp (openShelf_of_none _ hi)
  | some i =>
    by_cases hlt : (c.shelf i).generation < k.generation
    · exact hputUp (openShelf_of_lt hi hlt)
    by_cases heq : (c.shelf i).generation = k.generation
    · have hadv : (Phase.start : Phase α).advance? k c = some (.atShelf i, c) := by
        rw [Phase.advance?, openShelf_of_eq hi heq]
      rw [begin, Phase.settle_succ rfl hadv]
      exact serves_atShelf h k i 5
    · have hgt := UInt64.lt_of_le_of_ne (UInt64.not_lt.1 hlt) (Ne.symm heq)
      have hadv : (Phase.start : Phase α).advance? k c = some (.computing .outsider, c) := by
        rw [Phase.advance?, openShelf_of_gt hi hgt]
      rw [begin, Phase.settle_succ rfl hadv, Phase.settle_of_isAtRest k 7 rfl]
      exact serves_outsider h k

end Cache
end PathFacts
