import PathFacts.Proofs.Cache.Slots

/-!
# What is new since a container was forgotten

When a container is forgotten, its shelf and the slots on it stay where they are, and calls
that have reached them go on to fill them.  What keeps their results away from later calls is
that nothing leads there any more: a call made afterwards comes to a shelf that was put up
afterwards, to a slot that was made afterwards, and so to a computation that was started
afterwards.

`Fresh` says this relative to a base state; `fresh_run` shows it for every run from there.
-/

namespace PathFacts

variable {α : Type}

namespace CallSystem

theorem started_le_step (s : CallSystem α) (m : Move α) : s.started ≤ (s.step m).started := by
  have hstep := s.steps m
  generalize s.step m = s' at hstep
  cases hstep with
  | @advance i call p c =>
    dsimp only
    split
    · exact Nat.le_succ _
    · exact le_rfl
  | _ => exact le_rfl

theorem started_le_run (s : CallSystem α) (ms : List (Move α)) :
    s.started ≤ (s.run ms).started := by
  induction ms using List.reverseRecOn with
  | nil => exact le_rfl
  | append_singleton ms m ih =>
    rw [run_append_singleton]
    exact ih.trans (started_le_step _ m)

/-! ## New shelves, slots and computations -/

/-- For calls for container `c` that were made after the state `b`, everything is new. -/
structure Fresh (b : CallSystem α) (c : ContainerId) (s : CallSystem α) : Prop where
  container_shelf : ∀ i, s.cache.containers[c]? = some i → b.cache.shelves.size ≤ i
  shelf_slot : ∀ (i : Nat) (u : UnitId) (j : Nat), b.cache.shelves.size ≤ i →
    (s.cache.shelf i).slots[u]? = some j → b.cache.slots.size ≤ j
  call_shelf : ∀ (x : Nat) (call : Call α) (i : Nat), b.calls.size ≤ x →
    s.calls[x]? = some call → call.key.container = c → call.phase = .atShelf i →
    b.cache.shelves.size ≤ i
  call_slot : ∀ (x : Nat) (call : Call α) (j : Nat), b.calls.size ≤ x →
    s.calls[x]? = some call → call.key.container = c → call.phase.slot? = some j →
    b.cache.slots.size ≤ j

namespace Fresh

variable {b s : CallSystem α} {c : ContainerId}

/-- Where the container has no shelf, nothing is there yet. -/
theorem base (h : b.cache.containers[c]? = none) : Fresh b c b where
  container_shelf i hi := by
    rw [h] at hi
    cases hi
  shelf_slot i u j hi hj := absurd hi (Nat.not_le.2 (Cache.lt_size_of_slots_eq_some hj))
  call_shelf x call i hx hcall := by
    rw [Array.getElem?_eq_none hx] at hcall
    cases hcall
  call_slot x call j hx hcall := by
    rw [Array.getElem?_eq_none hx] at hcall
    cases hcall

theorem step (h : Fresh b c s) (hgrows : b.cache.Grows s.cache) (m : Move α) :
    Fresh b c (s.step m) where
  container_shelf i hi := by
    rcases container_of_step hi with hold | ⟨-, -, -, -, -, rfl, -⟩
    · exact h.container_shelf i hold
    · exact hgrows.shelves
  shelf_slot i u j hi hj := by
    rcases shelf_slot_of_step hj with hold | ⟨-, -, -, -, -, -, rfl, -⟩
    · exact h.shelf_slot i u j hi hold
    · exact hgrows.slots
  call_shelf x call' i hx hcall' hc hi := by
    rcases call_shelf_of_step hcall' hi with hold | ⟨call, -, -, hkey, ⟨hat, -⟩ | ⟨rfl, -⟩⟩
    · exact h.call_shelf x call' i hx hold hc hi
    · rw [hkey] at hc
      rw [hc] at hat
      exact h.container_shelf i hat
    · exact hgrows.shelves
  call_slot x call' j hx hcall' hc hj := by
    rcases call_slot_of_step hcall' hj with hold |
      ⟨call, hcall, hkey, hslot | ⟨i, hi, hfound⟩ | ⟨-, rfl, -⟩⟩
    · exact h.call_slot x call' j hx hold hc hj
    · rw [hkey] at hc
      exact h.call_slot x call j hx hcall hc hslot
    · rw [hkey] at hc
      exact h.shelf_slot i _ j (h.call_shelf x call i hx hcall hc hi) hfound
    · exact hgrows.slots

end Fresh

theorem fresh_run {b : CallSystem α} {c : ContainerId} (h : b.cache.containers[c]? = none)
    (ms : List (Move α)) : Fresh b c (b.run ms) := by
  induction ms using List.reverseRecOn with
  | nil => exact .base h
  | append_singleton ms m ih =>
    rw [run_append_singleton]
    exact ih.step (grows_run b ms) m

/-- A call that is new, or works on a new slot, has started its computation since. -/
theorem started_le_of_new {b : CallSystem α} {ms : List (Move α)} {i n : Nat} {call : Call α}
    {role : Role} (hslots : ∀ (x : Nat) (call : Call α) (j : Nat), b.calls[x]? = some call →
      call.phase.slot? = some j → j < b.cache.slots.size)
    (hcall : (b.run ms).calls[i]? = some call) (hrole : call.phase = .computing role)
    (hn : call.computation = some n)
    (hnew : b.calls.size ≤ i ∨ ∃ j, call.phase.slot? = some j ∧ b.cache.slots.size ≤ j) :
    b.started ≤ n := by
  induction ms using List.reverseRecOn generalizing call role with
  | nil =>
    rcases hnew with hi | ⟨j, hj, hsize⟩
    · rw [run_nil, Array.getElem?_eq_none hi] at hcall
      cases hcall
    · exact absurd (hslots i call j hcall hj) (Nat.not_lt.2 hsize)
  | append_singleton ms m ih =>
    rw [run_append_singleton] at hcall
    rcases call_of_step hcall with hsame | ⟨-, hstart⟩ |
      ⟨call₀, p, -, -, rfl, -⟩ | ⟨call₀, role₀, outcome, -, -, -, rfl⟩
    · exact ih hsame hrole hn hnew
    · rw [hstart] at hrole
      cases hrole
    · obtain rfl : p = .computing role := hrole
      cases hn
      exact started_le_run b ms
    · cases role₀ <;> cases outcome <;> cases hrole

end CallSystem
end PathFacts
