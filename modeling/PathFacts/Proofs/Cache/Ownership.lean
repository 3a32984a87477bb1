import PathFacts.Proofs.Cache.History

/-!
# Who owns a slot

A call owns a slot from the moment it makes it, or takes it over after it was abandoned, until
it publishes a result or gives up.  Everything that callers may rely on is about this one
thing: a slot has at most one owner, a pending slot has one, and an abandoned slot has none.

Where a call stands does not tell whether it is an owner.  A call that was refused a permit
publishes as well, without ever having owned the slot.  Ownership is therefore stated with the
past of the call (`CallSystem.Owns`).

The invariant is `Ownership`; `ownership_step` shows that a move keeps it.
-/

namespace PathFacts

variable {α : Type}

/-! ## Phases of an owner -/

namespace Phase

/-- A call in this phase made slot `j` or took it over, and has not computed yet. -/
def Takes (j : Nat) (p : Phase α) : Prop := p = inheriting j ∨ p = computing (.owner j)

/-- A call in this phase still has to resolve slot `j` if it ever took it. -/
def Holds (j : Nat) (p : Phase α) : Prop := p.Takes j ∨ ∃ v, p.resolution? = some (j, v)

/-- A call in this phase is over. -/
def Over (p : Phase α) : Prop := (∃ r, p = returned r) ∨ p = failed

variable {p p' : Phase α} {k : Key} {c c' : Cache α} {j : Nat}

theorem Takes.slot? (h : p.Takes j) : p.slot? = some j := by
  rcases h with rfl | rfl <;> rfl

theorem Holds.slot? (h : p.Holds j) : p.slot? = some j := by
  rcases h with h | ⟨v, h⟩
  · exact h.slot?
  · exact slot?_of_resolution? h

theorem Over.not_holds (h : p.Over) (j : Nat) : ¬ p.Holds j := by
  intro hj
  rcases h with ⟨r, rfl⟩ | rfl <;> cases hj.slot?

theorem Over.not_advances (h : p.Over) : ¬ p.Advances k c p' c' := by
  intro hadv
  rcases h with ⟨r, rfl⟩ | rfl <;> cases hadv

theorem Over.ne_computing (h : p.Over) (role : Role) : p ≠ computing role := by
  rintro rfl
  rcases h with ⟨r, hr⟩ | hr <;> cases hr

/-- A call takes a slot only if it was abandoned or is not there yet. -/
theorem Advances.takes (h : p.Advances k c p' c') (hj : p'.Takes j) :
    p.Takes j ∨ c.slot j = .abandoned ∨ c.slots.size ≤ j := by
  cases h with
  | make =>
    have hsize : c.slots.size = j := by simpa [Takes] using hj
    exact Or.inr (Or.inr (Nat.le_of_eq hsize))
  | @takeOver _ i hi | @inherit _ i hi =>
    obtain rfl : i = j := by simpa [Takes] using hj
    exact Or.inr (Or.inl hi)
  | @compute _ i =>
    obtain rfl : i = j := by simpa [Takes] using hj
    exact Or.inl (Or.inl rfl)
  | _ => simp [Takes] at hj

/-- A slot that is pending after a step was so before, and the call did not let go of it; or
the call took it. -/
theorem Advances.pending (h : p.Advances k c p' c') (hj : j < c'.slots.size)
    (hs : c'.slot j = .pending) :
    p'.Takes j ∨ j < c.slots.size ∧ c.slot j = .pending ∧ ¬ p.Holds j := by
  cases h with
  | make =>
    rw [Cache.size_makeSlot] at hj
    rw [Cache.slot_makeSlot] at hs
    by_cases hnew : c.slots.size = j
    · exact Or.inl (Or.inr (by rw [hnew]))
    · have hlt : j < c.slots.size := by omega
      exact Or.inr ⟨hlt, hs, by simp [Holds, Takes, resolution?]⟩
  | @takeOver _ i hi | @inherit _ i hi =>
    rw [Cache.size_setSlot] at hj
    by_cases hij : i = j
    · exact Or.inl (by simp [Takes, hij])
    · rw [Cache.slot_setSlot, if_neg fun h => hij h.1] at hs
      exact Or.inr ⟨hj, hs, by simp [Holds, Takes, resolution?]⟩
  | @compute _ i =>
    by_cases hij : i = j
    · exact Or.inl (Or.inr (by rw [hij]))
    · exact Or.inr ⟨hj, hs, by simp [Holds, Takes, resolution?, hij]⟩
  | @publish _ i r _ | @giveUp _ i _ =>
    rw [Cache.size_setSlot] at hj
    rw [Cache.slot_setSlot] at hs
    have hij : i ≠ j := by
      rintro rfl
      simp [hj] at hs
    rw [if_neg fun h => hij h.1] at hs
    exact Or.inr ⟨hj, hs, by simp [Holds, Takes, resolution?, hij]⟩
  | @converge _ i r r' hr =>
    have hij : i ≠ j := by
      rintro rfl
      simp [hs] at hr
    exact Or.inr ⟨hj, hs, by simp [Holds, Takes, resolution?, hij]⟩
  | @giveUpLate _ i hi =>
    have hij : i ≠ j := by
      rintro rfl
      exact hi hs
    exact Or.inr ⟨hj, hs, by simp [Holds, Takes, resolution?, hij]⟩
  | _ => exact Or.inr ⟨hj, hs, by simp [Holds, Takes, resolution?]⟩

/-- A slot that is abandoned after a step was so before, and the call did not take it; or the
call gave it up and is over. -/
theorem Advances.abandoned (h : p.Advances k c p' c') (hs : c'.slot j = .abandoned) :
    (c.slot j = .abandoned ∧ (p'.Takes j → p.Takes j)) ∨
      p.resolution? = some (j, .abandoned) ∧ p' = failed := by
  cases h with
  | make =>
    rw [Cache.slot_makeSlot] at hs
    have hlt : j < c.slots.size := Cache.lt_size_of_slot_ne_pending (by simp [hs])
    refine Or.inl ⟨hs, fun hj => ?_⟩
    have hsize : c.slots.size = j := by simpa [Takes] using hj
    exact absurd hsize (Nat.ne_of_gt hlt)
  | @takeOver _ i hi | @inherit _ i hi =>
    have hlt : i < c.slots.size := Cache.lt_size_of_slot_ne_pending (by simp [hi])
    have hij : i ≠ j := by
      rintro rfl
      simp [hlt] at hs
    rw [Cache.slot_setSlot, if_neg fun h => hij h.1] at hs
    exact Or.inl ⟨hs, fun hj => absurd hj (by simp [Takes, hij])⟩
  | @giveUp _ i hi =>
    by_cases hij : i = j
    · subst hij
      exact Or.inr ⟨rfl, rfl⟩
    · rw [Cache.slot_setSlot, if_neg fun h => hij h.1] at hs
      exact Or.inl ⟨hs, fun hj => absurd hj (by simp [Takes])⟩
  | @publish _ i r hr =>
    rw [Cache.slot_setSlot] at hs
    split at hs
    · cases hs
    · exact Or.inl ⟨hs, fun hj => absurd hj (by simp [Takes])⟩
  | @compute _ i => exact Or.inl ⟨hs, fun hj => Or.inl (by simpa [Takes] using hj)⟩
  | _ => exact Or.inl ⟨hs, fun hj => absurd hj (by simp [Takes])⟩

/-- A call that holds a slot goes on to compute, or its next step ends it. -/
theorem Advances.of_holds (h : p.Advances k c p' c') (hj : p.Holds j) :
    p'.Takes j ∨ p'.Over := by
  cases h with
  | @compute _ i =>
    have hij : i = j := by simpa [Holds, Takes, resolution?] using hj
    exact Or.inl (Or.inr (by rw [hij]))
  | publish | converge => exact Or.inr (Or.inl ⟨_, rfl⟩)
  | giveUp | giveUpLate => exact Or.inr (Or.inr rfl)
  | _ => simp [Holds, Takes, resolution?] at hj

theorem role_eq_of_holds {role : Role} (h : (computing role : Phase α).Holds j) :
    role = .owner j := by
  simpa [Holds, Takes, resolution?] using h

/-- An owner holds its slot also after its computation. -/
theorem holds_afterCompute (j : Nat) (outcome : Option α) :
    (afterCompute (.owner j) outcome).Holds j := by
  cases outcome with
  | none => exact Or.inr ⟨.abandoned, rfl⟩
  | some r => exact Or.inr ⟨.ready r, rfl⟩

end Phase

namespace CallSystem

/-! ## Owners -/

/-- Whether call `i` took slot `j` in the run `ms` and has neither published nor given up. -/
def Owns (s : CallSystem α) (ms : List (Move α)) (i j : Nat) : Prop :=
  (s.Seen ms i fun call => call.phase.Takes j) ∧
    ∃ call, (s.run ms).calls[i]? = some call ∧ call.phase.Holds j

variable {s : CallSystem α} {limit : Nat} {ms : List (Move α)} {m : Move α} {i j : Nat}
  {call : Call α}

theorem owns_of_takes (hcall : (s.run ms).calls[i]? = some call) (h : call.phase.Takes j) :
    s.Owns ms i j :=
  ⟨seen_of_now hcall h, call, hcall, Or.inl h⟩

/-- A call that once took a slot still has to resolve it, or is over. -/
theorem holds_of_seen_takes (hseen : s.Seen ms i fun call => call.phase.Takes j)
    (hcall : (s.run ms).calls[i]? = some call) :
    call.phase.Holds j ∨ call.phase.Over := by
  refine of_seen (Q := fun _ call => call.phase.Holds j ∨ call.phase.Over)
    ?_ (fun _ _ _ _ h => h) ?_ ?_ hseen hcall
  · intro before call _ htakes
    exact Or.inl (Or.inl htakes)
  · intro c c' call p n hadv h
    rcases h with hholds | hover
    · rcases hadv.of_holds hholds with htakes | hover
      · exact Or.inl (Or.inl htakes)
      · exact Or.inr hover
    · exact absurd hadv hover.not_advances
  · intro c call role outcome hrole h
    rcases h with hholds | hover
    · rw [hrole] at hholds
      rw [Phase.role_eq_of_holds hholds]
      exact Or.inl (Phase.holds_afterCompute j outcome)
    · exact absurd hrole (hover.ne_computing role)

/-- A call that is over stays as it is. -/
theorem call_of_step_of_over {call' : Call α} (hcall : s.calls[i]? = some call)
    (hover : call.phase.Over) (hcall' : (s.step m).calls[i]? = some call') : call' = call := by
  rcases call_of_step hcall' with hsame | ⟨hnew, -⟩ |
    ⟨call₀, p, -, hcall₀, -, hadv⟩ | ⟨call₀, role, outcome, -, hcall₀, hrole, -⟩
  · exact Option.some.inj (hsame.symm.trans hcall)
  · exact absurd (Array.getElem?_eq_some_iff.1 hcall).1 (Nat.not_lt.2 hnew)
  · obtain rfl := Option.some.inj (hcall.symm.trans hcall₀)
    exact absurd hadv hover.not_advances
  · obtain rfl := Option.some.inj (hcall.symm.trans hcall₀)
    exact absurd hrole (hover.ne_computing role)

/-- A call that has taken a slot by the end of a run took it before the last move, or by it. -/
theorem seen_takes_append (h : s.Seen (ms ++ [m]) i fun call => call.phase.Takes j) :
    (s.Seen ms i fun call => call.phase.Takes j) ∨
    ∃ call p, m = .advance i ∧ (s.run ms).calls[i]? = some call ∧
      call.phase.Advances call.key (s.run ms).cache p ((s.run ms).step m).cache ∧
      p.Takes j ∧ ¬ call.phase.Takes j := by
  rcases seen_append_singleton.1 h with hbefore | ⟨call', hcall', htakes⟩
  · exact Or.inl hbefore
  rcases call_of_step hcall' with hsame | ⟨-, hstart⟩ |
    ⟨call, p, rfl, hcall, rfl, hadv⟩ | ⟨call, role, outcome, rfl, hcall, hrole, rfl⟩
  · exact Or.inl (seen_of_now hsame htakes)
  · rw [hstart] at htakes
    cases htakes.slot?
  · by_cases hold : call.phase.Takes j
    · exact Or.inl (seen_of_now hcall hold)
    · exact Or.inr ⟨call, p, rfl, hcall, hadv, htakes, hold⟩
  · rcases htakes with h | h <;> cases role <;> cases outcome <;> cases h

/-- A call that owns a slot after a move owned it before, or took it by this move. -/
theorem Owns.of_append (h : s.Owns (ms ++ [m]) i j) :
    s.Owns ms i j ∨ ∃ call p, m = .advance i ∧ (s.run ms).calls[i]? = some call ∧
      call.phase.Advances call.key (s.run ms).cache p ((s.run ms).step m).cache ∧
      p.Takes j ∧ ¬ call.phase.Takes j := by
  obtain ⟨hseen, call', hcall', hholds⟩ := h
  rcases seen_takes_append hseen with hbefore | hnew
  · obtain ⟨call, hcall⟩ := exists_call_of_seen hbefore
    rcases holds_of_seen_takes hbefore hcall with hnow | hover
    · exact Or.inl ⟨hbefore, call, hcall, hnow⟩
    · -- a call that is over does not come to hold a slot again
      rw [run_append_singleton] at hcall'
      rw [call_of_step_of_over hcall hover hcall'] at hholds
      exact absurd hholds (hover.not_holds j)
  · exact Or.inr hnew

/-- Only an owner gives a slot up. -/
theorem owns_of_abandoning (hcall : ((ofLimit limit).run ms).calls[i]? = some call)
    (hres : call.phase.resolution? = some (j, .abandoned)) : (ofLimit limit).Owns ms i j := by
  obtain ⟨before, after, outcome, role, rfl, hbefore, hphase⟩ :=
    finished_of_resolution hcall hres
  have hrole : role = .owner j := by
    rw [hphase] at hres
    cases role <;> cases outcome <;> cases hres
    rfl
  rw [hrole] at hbefore
  refine ⟨⟨before, List.prefix_append _ _, _, hbefore, Or.inr rfl⟩, call, hcall, ?_⟩
  exact Or.inr ⟨_, hres⟩

/-- Every slot that a call works on was made. -/
theorem lt_size_of_slot? (hcall : ((ofLimit limit).run ms).calls[i]? = some call)
    (hj : call.phase.slot? = some j) : j < ((ofLimit limit).run ms).cache.slots.size := by
  obtain ⟨l, hlabelled⟩ := Labelled.exists_run limit ms
  exact ((hlabelled ms List.prefix_rfl).call_slot i call j hcall hj).1

theorem lt_size_of_owns (h : (ofLimit limit).Owns ms i j) :
    j < ((ofLimit limit).run ms).cache.slots.size := by
  obtain ⟨-, call, hcall, hholds⟩ := h
  exact lt_size_of_slot? hcall hholds.slot?

/-- An owner is the owner after a move as well, unless the move was its own next step. -/
theorem Owns.append (h : s.Owns ms i j) (m : Move α) :
    s.Owns (ms ++ [m]) i j ∨ ∃ (call : Call α) (p : Phase α),
      (s.run (ms ++ [m])).calls[i]? = some (call.into (s.run ms).started p) ∧
      call.phase.Advances call.key (s.run ms).cache p (s.run (ms ++ [m])).cache ∧
      call.phase.Holds j := by
  obtain ⟨hseen, call, hcall, hholds⟩ := h
  have hseen' : s.Seen (ms ++ [m]) i fun call => call.phase.Takes j :=
    seen_append_singleton.2 (Or.inl hseen)
  obtain ⟨call', hcall'⟩ := exists_call_of_seen hseen'
  have hafter := hcall'
  rw [run_append_singleton] at hafter
  rcases call_of_step hafter with hsame | ⟨hnew, -⟩ |
    ⟨call₀, p, -, hcall₀, rfl, hadv⟩ | ⟨call₀, role, outcome, -, hcall₀, hrole, rfl⟩
  · obtain rfl := Option.some.inj (hcall.symm.trans hsame)
    exact Or.inl ⟨hseen', call, hcall', hholds⟩
  · exact absurd (lt_size_of_seen hseen) (Nat.not_lt.2 hnew)
  · obtain rfl := Option.some.inj (hcall.symm.trans hcall₀)
    rw [← run_append_singleton] at hadv
    exact Or.inr ⟨call, p, hcall', hadv, hholds⟩
  · obtain rfl := Option.some.inj (hcall.symm.trans hcall₀)
    rw [hrole] at hholds
    refine Or.inl ⟨hseen', _, hcall', ?_⟩
    rw [Phase.role_eq_of_holds hholds]
    exact Phase.holds_afterCompute j outcome

/-! ## The invariant -/

/-- Slots and their owners after the run `ms`. -/
structure Ownership (s : CallSystem α) (ms : List (Move α)) : Prop where
  unique : ∀ i i' j, s.Owns ms i j → s.Owns ms i' j → i = i'
  owned : ∀ j < (s.run ms).cache.slots.size, (s.run ms).cache.slot j = .pending →
    ∃ i, s.Owns ms i j
  ownerless : ∀ i j, (s.run ms).cache.slot j = .abandoned → ¬ s.Owns ms i j

namespace Ownership

/-- A slot that is taken by a move had no owner. -/
theorem not_owns_of_taken (h : (ofLimit limit).Ownership ms) {p : Phase α}
    {c' : Cache α} (hadv : call.phase.Advances call.key ((ofLimit limit).run ms).cache p c')
    (htakes : p.Takes j) (hnew : ¬ call.phase.Takes j) (i : Nat) :
    ¬ (ofLimit limit).Owns ms i j := by
  intro howns
  rcases hadv.takes htakes with hold | habandoned | hsize
  · exact hnew hold
  · exact h.ownerless i j habandoned howns
  · exact absurd (lt_size_of_owns howns) (Nat.not_lt.2 hsize)

theorem unique_step (h : (ofLimit limit : CallSystem α).Ownership ms) (m : Move α)
    (i i' j : Nat) (hi : (ofLimit limit).Owns (ms ++ [m]) i j)
    (hi' : (ofLimit limit).Owns (ms ++ [m]) i' j) : i = i' := by
  rcases hi.of_append with howns | ⟨call, p, rfl, -, hadv, htakes, hnew⟩
  · rcases hi'.of_append with howns' | ⟨call, p, rfl, -, hadv, htakes, hnew⟩
    · exact h.unique i i' j howns howns'
    · exact absurd howns (h.not_owns_of_taken hadv htakes hnew i)
  · rcases hi'.of_append with howns' | ⟨call', p', hsame, -⟩
    · exact absurd howns' (h.not_owns_of_taken hadv htakes hnew i')
    · exact Move.advance.inj hsame

theorem owned_step (h : (ofLimit limit : CallSystem α).Ownership ms) (m : Move α) (j : Nat)
    (hj : j < ((ofLimit limit).run (ms ++ [m])).cache.slots.size)
    (hs : ((ofLimit limit).run (ms ++ [m])).cache.slot j = .pending) :
    ∃ i, (ofLimit limit).Owns (ms ++ [m]) i j := by
  by_cases hold : j < ((ofLimit limit).run ms).cache.slots.size ∧
      ((ofLimit limit).run ms).cache.slot j = .pending
  · obtain ⟨i, howns⟩ := h.owned j hold.1 hold.2
    rcases howns.append m with howns | ⟨call, p, hcall, hadv, hholds⟩
    · exact ⟨i, howns⟩
    · rcases hadv.pending hj hs with htakes | ⟨-, -, hfree⟩
      · exact ⟨i, owns_of_takes hcall htakes⟩
      · exact absurd hholds hfree
  · rw [run_append_singleton] at hj hs
    rcases cache_of_step ((ofLimit limit).run ms) m with hsame | ⟨i, call, p, -, -, hafter, hadv⟩ |
      ⟨container, -, hsame⟩ | ⟨-, hsame⟩
    · rw [hsame] at hj hs
      exact absurd ⟨hj, hs⟩ hold
    · rcases hadv.pending hj hs with htakes | ⟨hlt, hpending, -⟩
      · rw [← run_append_singleton] at hafter
        exact ⟨i, owns_of_takes hafter htakes⟩
      · exact absurd ⟨hlt, hpending⟩ hold
    · rw [hsame] at hj hs
      exact absurd ⟨hj, hs⟩ hold
    · rw [hsame] at hj hs
      exact absurd ⟨hj, hs⟩ hold

theorem ownerless_step (h : (ofLimit limit : CallSystem α).Ownership ms) (m : Move α)
    (i j : Nat) (hs : ((ofLimit limit).run (ms ++ [m])).cache.slot j = .abandoned) :
    ¬ (ofLimit limit).Owns (ms ++ [m]) i j := by
  intro howns
  rw [run_append_singleton] at hs
  rcases howns.of_append with hbefore | ⟨call, p, rfl, -, hadv, htakes, hnew⟩
  · rcases cache_of_step ((ofLimit limit).run ms) m with hsame |
      ⟨x, call, p, -, hcall, hafter, hadv⟩ | ⟨container, -, hsame⟩ | ⟨-, hsame⟩
    · rw [hsame] at hs
      exact h.ownerless i j hs hbefore
    · rcases hadv.abandoned hs with ⟨hold, -⟩ | ⟨hres, rfl⟩
      · exact h.ownerless i j hold hbefore
      · -- the one owner gave the slot up and is over
        obtain rfl := h.unique x i j (owns_of_abandoning hcall hres) hbefore
        obtain ⟨-, call', hcall', hholds⟩ := howns
        rw [run_append_singleton] at hcall'
        obtain rfl := Option.some.inj (hafter.symm.trans hcall')
        cases hholds.slot?
    · rw [hsame] at hs
      exact h.ownerless i j hs hbefore
    · rw [hsame] at hs
      exact h.ownerless i j hs hbefore
  · rcases hadv.abandoned hs with ⟨-, htook⟩ | ⟨-, rfl⟩
    · exact hnew (htook htakes)
    · cases htakes.slot?

end Ownership

/-- After every run each slot has the owners it should have. -/
theorem ownership_run (limit : Nat) (ms : List (Move α)) : (ofLimit limit).Ownership ms := by
  induction ms using List.reverseRecOn with
  | nil =>
    refine ⟨?_, ?_, ?_⟩
    · intro i i' j h
      exact absurd h.1 (not_seen_nil rfl)
    · intro j hj
      exact absurd hj (Nat.not_lt_zero j)
    · intro i j _ h
      exact absurd h.1 (not_seen_nil rfl)
  | append_singleton ms m ih =>
    exact ⟨ih.unique_step m, ih.owned_step m, ih.ownerless_step m⟩

end CallSystem
end PathFacts
