import PathFacts.Budget.Contention
import Mathlib.Data.List.Induction

/-!
# Permits under contention

Several callers may pass the check against the limit with the same number, and a number may be
out of date when the exchange comes.  Still no permit is lost and none is given out twice: the
exchange goes through only on the present number, which is then the one that was checked.

`Acquirer.Steps` lists what one atomic step can be, and `Crowd.Sound` is what every step keeps:
as many permits are in use as callers hold one, and never more than there are.  What a caller
last saw of the budget is a matter of the past, and stated as such (`Crowd.LastSaw`).
-/

namespace PathFacts.Budget

/-! ## One step of a caller -/

namespace Acquirer

/-- Whether the step makes the caller look at the number of permits in use. -/
def reads (action : Action) (caller : Acquirer) : Bool :=
  match action, caller with
  | .load, .idle | .load, .refused _ | .exchange _, .trying _ => true
  | _, _ => false

/-- What an atomic step can come to. -/
inductive Steps (b : Budget) : Action → Acquirer → Acquirer → Budget → Prop
  /-- The step does not fit where the caller stands. -/
  | idle {action : Action} {caller : Acquirer} (hreads : caller.reads action = false) :
      Steps b action caller caller b
  | sawFree {action : Action} {caller : Acquirer} (hreads : caller.reads action = true)
      (hlt : b.inUse < b.limit) : Steps b action caller (.trying b.inUse) b
  | sawFull {action : Action} {caller : Acquirer} (hreads : caller.reads action = true)
      (hfull : b.limit ≤ b.inUse) : Steps b action caller (.refused b.inUse) b
  | take : Steps b (.exchange false) (.trying b.inUse) .holding { b with inUse := b.inUse + 1 }
  | drop : Steps b .drop .holding .idle b.release

/-- A caller that looks at the budget and takes no permit goes on as the number tells. -/
theorem steps_ofSeen {b : Budget} {action : Action} {caller : Acquirer}
    (hreads : caller.reads action = true) :
    Steps b action caller (ofSeen b b.inUse) b := by
  rw [ofSeen]
  split
  · rename_i hlt
    exact .sawFree hreads hlt
  · rename_i hfull
    exact .sawFull hreads (Nat.le_of_not_lt hfull)

/-- The list is complete. -/
theorem steps (action : Action) (caller : Acquirer) (b : Budget) :
    Steps b action caller (caller.step action b).1 (caller.step action b).2 := by
  cases action with
  | load =>
    cases caller with
    | idle | refused seen => exact steps_ofSeen rfl
    | trying seen | holding => exact .idle rfl
  | exchange spurious =>
    cases caller with
    | trying seen =>
      rw [step]
      split
      · rename_i h
        rw [Bool.and_eq_true, decide_eq_true_eq, Bool.not_eq_true'] at h
        obtain ⟨rfl, rfl⟩ := h
        exact .take
      · exact steps_ofSeen rfl
    | idle | holding | refused seen => exact .idle rfl
  | drop =>
    cases caller with
    | holding => exact .drop
    | idle | trying seen | refused seen => exact .idle rfl

/-- A caller stands where the number that it saw has put it. -/
def SawRightly (limit : Nat) : Acquirer → Prop
  | .trying seen => seen < limit
  | .refused seen => limit ≤ seen
  | .idle | .holding => True

/-- The number of permits that a caller holds. -/
def permits (caller : Acquirer) : Nat := if caller = .holding then 1 else 0

section Steps

variable {b b' : Budget} {action : Action} {caller caller' : Acquirer} {seen : Nat}

/-- A permit that a caller takes comes into use, and one that it drops goes out of use. -/
theorem Steps.inUse (h : Steps b action caller caller' b')
    (hheld : caller.permits ≤ b.inUse) :
    b'.inUse + caller.permits = b.inUse + caller'.permits := by
  cases h with
  | idle => rfl
  | sawFree hreads | sawFull hreads =>
    have hcaller : caller ≠ .holding := by
      rintro rfl
      cases action <;> cases hreads
    simp [permits, hcaller]
  | take => simp [permits]
  | drop =>
    have hpos : 1 ≤ b.inUse := hheld
    simp only [release, permits]
    simp
    omega

theorem Steps.limit (h : Steps b action caller caller' b') : b'.limit = b.limit := by
  cases h <;> rfl

theorem Steps.sawRightly (h : Steps b action caller caller' b')
    (hcaller : caller.SawRightly b.limit) : caller'.SawRightly b.limit := by
  cases h with
  | idle => exact hcaller
  | sawFree hreads hlt => exact hlt
  | sawFull hreads hfull => exact hfull
  | take | drop => trivial

/-- A caller that tries or was refused looked at the budget by this step, or it stands where it
stood. -/
theorem Steps.reads_or_same (h : Steps b action caller caller' b')
    (hseen : caller' = .trying seen ∨ caller' = .refused seen) :
    (caller.reads action = true ∧ b.inUse = seen) ∨
      (caller.reads action = false ∧ caller' = caller) := by
  cases h with
  | idle hreads => exact Or.inr ⟨hreads, rfl⟩
  | sawFree hreads | sawFull hreads =>
    refine Or.inl ⟨hreads, ?_⟩
    simpa using hseen
  | take | drop => simp at hseen

end Steps

end Acquirer

namespace Crowd

variable {c : Crowd} {limit i seen : Nat} {action : Action} {caller : Acquirer}
  {moves : List (Nat × Action)}

/-! ## One step of a crowd -/

/-- `n` callers that share a budget of `limit` permits. -/
def ofLimit (limit n : Nat) : Crowd := ⟨⟨limit, 0⟩, Array.replicate n .idle⟩

theorem step_of_none (h : c.callers[i]? = none) (action : Action) : c.step (i, action) = c := by
  rw [step, h]

theorem step_of_some (h : c.callers[i]? = some caller) (action : Action) :
    c.step (i, action) =
      ⟨(caller.step action c.budget).2,
        c.callers.setIfInBounds i (caller.step action c.budget).1⟩ := by
  rw [step, h]

/-- A caller stands after a step where its own step led it, and the others where they stood. -/
theorem callers_step (h : c.callers[i]? = some caller) (action : Action) (x : Nat) :
    (c.step (i, action)).callers[x]? =
      if i = x then some (caller.step action c.budget).1 else c.callers[x]? := by
  have hi : i < c.callers.size := (Array.getElem?_eq_some_iff.1 h).1
  rw [step_of_some h, Array.getElem?_setIfInBounds, if_pos hi]

theorem permits_le_live (h : c.callers[i]? = some caller) : caller.permits ≤ c.live := by
  rw [Acquirer.permits]
  split
  · rename_i hholding
    have hmem : .holding ∈ c.callers := hholding ▸ Array.mem_of_getElem? h
    exact Array.one_le_count_iff.2 hmem
  · exact Nat.zero_le _

/-- The permits that callers hold change only by those of the one that makes the step. -/
theorem live_setIfInBounds (h : c.callers[i]? = some caller) (caller' : Acquirer) (b : Budget) :
    (⟨b, c.callers.setIfInBounds i caller'⟩ : Crowd).live + caller.permits =
      c.live + caller'.permits := by
  obtain ⟨hi, hget⟩ := Array.getElem?_eq_some_iff.1 h
  have hheld := permits_le_live h
  simp only [live, Acquirer.permits] at hheld ⊢
  rw [Array.setIfInBounds_def, dif_pos hi, Array.count_set hi, hget]
  simp only [beq_iff_eq]
  omega

/-! ## What every step keeps -/

/-- As many permits are in use as callers hold one, and no more than there are, and every caller
stands where the number that it saw has put it. -/
structure Sound (limit : Nat) (c : Crowd) : Prop where
  limit_eq : c.budget.limit = limit
  inUse_eq : c.budget.inUse = c.live
  inUse_le : c.budget.inUse ≤ limit
  sawRightly : ∀ (i : Nat) (caller : Acquirer), c.callers[i]? = some caller →
    caller.SawRightly limit

namespace Sound

theorem ofLimit (limit n : Nat) : Sound limit (ofLimit limit n) where
  limit_eq := rfl
  inUse_eq := by simp [live, Crowd.ofLimit, Array.count_replicate]
  inUse_le := Nat.zero_le limit
  sawRightly i caller h := by
    obtain ⟨-, rfl⟩ : i < n ∧ .idle = caller := by
      simpa [Crowd.ofLimit, Array.getElem?_replicate] using h
    trivial

theorem permits_le_inUse (h : Sound limit c) (hcaller : c.callers[i]? = some caller) :
    caller.permits ≤ c.budget.inUse :=
  h.inUse_eq ▸ permits_le_live hcaller

theorem step (h : Sound limit c) (move : Nat × Action) : Sound limit (c.step move) := by
  obtain ⟨i, action⟩ := move
  cases hcaller : c.callers[i]? with
  | none => rwa [step_of_none hcaller]
  | some caller =>
    have hsteps := caller.steps action c.budget
    have hafter := callers_step hcaller action
    have hright := h.sawRightly i caller hcaller
    rw [step_of_some hcaller] at hafter ⊢
    generalize (caller.step action c.budget).1 = caller' at hsteps hafter ⊢
    generalize (caller.step action c.budget).2 = b' at hsteps hafter ⊢
    constructor
    · rw [hsteps.limit, h.limit_eq]
    · have hused := hsteps.inUse (h.permits_le_inUse hcaller)
      have hlive := live_setIfInBounds hcaller caller' b'
      rw [h.inUse_eq] at hused
      exact Nat.add_right_cancel (hused.trans hlive.symm)
    · cases hsteps with
      | take => exact hright
      | drop => exact Nat.le_trans (Nat.sub_le _ _) h.inUse_le
      | _ => exact h.inUse_le
    · intro x caller'' hx
      rw [hafter] at hx
      split at hx
      · cases hx
        rw [← h.limit_eq] at hright ⊢
        exact hsteps.sawRightly hright
      · exact h.sawRightly x caller'' hx

theorem run (h : Sound limit c) (moves : List (Nat × Action)) : Sound limit (c.run moves) := by
  induction moves generalizing c with
  | nil => exact h
  | cons move moves ih => exact ih (h.step move)

/-- A caller that joins holds nothing. -/
theorem join (h : Sound limit c) : Sound limit ⟨c.budget, c.callers.push .idle⟩ where
  limit_eq := h.limit_eq
  inUse_eq := by
    rw [live, Array.count_push]
    exact h.inUse_eq
  inUse_le := h.inUse_le
  sawRightly i caller hi := by
    rw [Array.getElem?_push] at hi
    split at hi
    · cases hi
      trivial
    · exact h.sawRightly i caller hi

/-- A permit that is dropped was in use: the number goes down by one and not below zero. -/
theorem inUse_drop (h : Sound limit c) (hholding : c.callers[i]? = some .holding) :
    (c.step (i, .drop)).budget.inUse + 1 = c.budget.inUse := by
  have hused : 1 ≤ c.budget.inUse := h.permits_le_inUse hholding
  rw [step_of_some hholding]
  exact Nat.sub_add_cancel hused

end Sound

/-! ## What a caller last saw -/

/-- Whether the move makes its caller look at the number of permits in use. -/
def Reads (c : Crowd) (move : Nat × Action) : Prop :=
  ∃ caller, c.callers[move.1]? = some caller ∧ caller.reads move.2 = true

/-- Whether caller `i` looked at the budget in the run `moves` and, the last time that it did,
saw `seen` permits in use. -/
def LastSaw (c : Crowd) (moves : List (Nat × Action)) (i seen : Nat) : Prop :=
  ∃ before action after, moves = before ++ (i, action) :: after ∧
    (c.run before).Reads (i, action) ∧ (c.run before).budget.inUse = seen ∧
    ∀ mid action' rest, after = mid ++ (i, action') :: rest →
      ¬ (c.run (before ++ (i, action) :: mid)).Reads (i, action')

@[simp] theorem run_append_singleton (c : Crowd) (moves : List (Nat × Action))
    (move : Nat × Action) : c.run (moves ++ [move]) = (c.run moves).step move := by
  rw [run, List.foldl_append]
  rfl

theorem lastSaw_of_reads (h : (c.run moves).Reads (i, action)) :
    c.LastSaw (moves ++ [(i, action)]) i (c.run moves).budget.inUse :=
  ⟨moves, action, [], rfl, h, rfl, fun mid action' rest hafter => by simp at hafter⟩

/-- A move by which the caller does not look leaves what it saw. -/
theorem LastSaw.append {move : Nat × Action} (h : c.LastSaw moves i seen)
    (hmove : move.1 = i → ¬ (c.run moves).Reads move) : c.LastSaw (moves ++ [move]) i seen := by
  obtain ⟨before, action, after, rfl, hreads, hseen, hlast⟩ := h
  refine ⟨before, action, after ++ [move], by simp, hreads, hseen, ?_⟩
  intro mid action' rest hafter
  rcases List.eq_nil_or_concat rest with rfl | ⟨rest, move', rfl⟩
  · obtain ⟨rfl, hlastMove⟩ := List.append_inj' hafter rfl
    obtain rfl := List.singleton_inj.1 hlastMove
    exact hmove rfl
  · rw [List.concat_eq_append, ← List.cons_append, ← List.append_assoc] at hafter
    obtain ⟨rfl, -⟩ := List.append_inj' hafter rfl
    exact hlast mid action' rest rfl

/-- A caller that tries for a permit or was refused stands where the number that it last saw has
put it. -/
theorem lastSaw_run {n : Nat} (hcaller : ((ofLimit limit n).run moves).callers[i]? = some caller)
    (hseen : caller = .trying seen ∨ caller = .refused seen) :
    (ofLimit limit n).LastSaw moves i seen := by
  induction moves using List.reverseRecOn generalizing caller with
  | nil =>
    have hidle : caller = .idle := by
      simp only [run, List.foldl_nil, ofLimit, Array.getElem?_replicate] at hcaller
      split at hcaller <;> simp_all
    simp [hidle] at hseen
  | append_singleton moves move ih =>
    obtain ⟨j, action⟩ := move
    rw [run_append_singleton] at hcaller
    cases hj : ((ofLimit limit n).run moves).callers[j]? with
    | none =>
      rw [step_of_none hj] at hcaller
      refine (ih hcaller hseen).append ?_
      rintro - ⟨caller', hcaller', -⟩
      exact absurd (hj.symm.trans hcaller') (Option.some_ne_none caller').symm
    | some own =>
      rw [callers_step hj] at hcaller
      split at hcaller
      · rename_i hij
        subst hij
        obtain rfl := Option.some.inj hcaller
        rcases (own.steps action _).reads_or_same hseen with ⟨hreads, rfl⟩ | ⟨hreads, hsame⟩
        · exact lastSaw_of_reads ⟨own, hj, hreads⟩
        · -- a step that reads nothing leaves the caller and what it saw
          rw [hsame] at hseen
          refine (ih hj hseen).append ?_
          rintro - ⟨caller', hcaller', hreads'⟩
          obtain rfl := Option.some.inj (hj.symm.trans hcaller')
          exact absurd hreads' (by simp [hreads])
      · rename_i hij
        refine (ih hcaller hseen).append ?_
        intro hji
        exact absurd hji hij

/-- Whoever was refused a permit saw all of them in use when it looked last. -/
theorem lastSaw_of_refused {n : Nat}
    (hcaller : ((ofLimit limit n).run moves).callers[i]? = some (.refused seen)) :
    seen = limit ∧ (ofLimit limit n).LastSaw moves i limit := by
  have hlast := lastSaw_run hcaller (Or.inr rfl)
  have hle : limit ≤ seen := ((Sound.ofLimit limit n).run moves).sawRightly i _ hcaller
  have hge : seen ≤ limit := by
    obtain ⟨before, action, after, -, -, rfl, -⟩ := hlast
    exact ((Sound.ofLimit limit n).run before).inUse_le
  obtain rfl := Nat.le_antisymm hge hle
  exact ⟨rfl, hlast⟩

/-! ## Every run -/

/-- What holds of the permits after the run `moves` of `n` callers. -/
structure Accounted (limit n : Nat) (moves : List (Nat × Action)) : Prop where
  inUse_eq : ((ofLimit limit n).run moves).budget.inUse = ((ofLimit limit n).run moves).live
  inUse_le : ((ofLimit limit n).run moves).budget.inUse ≤ limit
  /-- What is dropped was in use, so the number does not go below zero. -/
  drop : ∀ i : Nat, ((ofLimit limit n).run moves).callers[i]? = some .holding →
    ((ofLimit limit n).run (moves ++ [(i, .drop)])).budget.inUse + 1 =
      ((ofLimit limit n).run moves).budget.inUse
  /-- Whoever took no permit saw the budget full when it looked last. -/
  refused : ∀ i seen : Nat,
    ((ofLimit limit n).run moves).callers[i]? = some (.refused seen) →
    seen = limit ∧ (ofLimit limit n).LastSaw moves i limit

theorem accounted (limit n : Nat) (moves : List (Nat × Action)) : Accounted limit n moves where
  inUse_eq := ((Sound.ofLimit limit n).run moves).inUse_eq
  inUse_le := ((Sound.ofLimit limit n).run moves).inUse_le
  drop i hholding := by
    rw [run_append_singleton]
    exact ((Sound.ofLimit limit n).run moves).inUse_drop hholding
  refused i seen hcaller := lastSaw_of_refused hcaller

end Crowd
end PathFacts.Budget
