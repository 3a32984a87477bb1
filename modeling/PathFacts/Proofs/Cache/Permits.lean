import PathFacts.Cache.Contention
import PathFacts.Proofs.Budget.Permits
import PathFacts.Proofs.Cache.Ownership

/-!
# The permits of waiting calls

A call holds a permit exactly while it waits for another one: it takes the permit before and gives
it back on both ways out, with the result or as the new owner of an abandoned slot, and before it
computes.  So nothing that a computation does, also if it fails, can keep a permit.

`Phase.Fits` says where a call in a phase stands with the budget, and every step keeps that
(`ContendedSystem.Fitting`).  The number of permits is the matter of `Budget.Crowd.Sound`; to the
budget every step of a call is that of one who shares it (`ContendedSystem.crowd_step`).

That calls take permits by loads and exchanges makes no difference to them: a run with these is
a run in which each call takes its permit in one step (`ContendedSystem.exists_run`).
-/

namespace PathFacts

open Budget (Acquirer Action Crowd)

variable {α : Type}

/-! ## Phases and permits -/

namespace Phase

variable {p p' : Phase α} {k : Key} {c c' : Cache α} {a : Acquirer} {j : Nat}

/-- Where a call in this phase stands with the budget. -/
def Fits (p : Phase α) (a : Acquirer) : Prop :=
  match p with
  | start | atShelf _ | atSlot _ | unserved _ => a = .idle
  | queueing _ => a = .idle ∨ ∃ seen, a = .trying seen
  | waiting _ | bereft _ | served _ | inheriting _ => a = .holding
  | computing (.bystander _) => ∃ seen, a = .refused seen
  | computing _ | publishing _ _ | abandoning _ | returned _ | failed => a ≠ .holding

theorem Fits.holding_iff (h : p.Fits a) : a = .holding ↔ p.holdsPermit = true := by
  cases p with
  | queueing j =>
    rcases h with rfl | ⟨seen, rfl⟩ <;> simp [holdsPermit]
  | computing role =>
    cases role with
    | bystander j =>
      obtain ⟨seen, rfl⟩ := h
      simp [holdsPermit]
    | outsider | owner j => simpa [Fits, holdsPermit] using h
  | _ => simp_all [Fits, holdsPermit]

theorem Fits.holding_of_givesBack (h : p.Fits a) (hback : p.givesBack = true) : a = .holding := by
  cases p with
  | served | inheriting => exact h
  | _ => cases hback

theorem isQueueing_eq_false_of_givesBack (h : p.givesBack = true) : p.isQueueing = false := by
  cases p with
  | queueing j => cases h
  | _ => rfl

/-- A call that has a permit to give back can do so. -/
theorem givesBack_of_advance?_eq_none (h : p.advance? k c = none) : p.givesBack = false := by
  cases p with
  | served r | inheriting j => cases h
  | _ => rfl

/-- A step that takes no permit leaves the call where it stood with the budget, unless it gives
its permit back. -/
theorem Advances.fits (h : p.Advances k c p' c') (hqueue : p.isQueueing = false)
    (hfits : p.Fits a) : p'.Fits (if p.givesBack then .idle else a) := by
  cases h with
  | permit | refuse => cases hqueue
  | queue => exact Or.inl hfits
  | bypass | make | hit | takeOver =>
    obtain rfl : a = .idle := hfits
    exact fun hholding => by cases hholding
  | leave | compute => exact fun hholding => by cases hholding
  | _ => exact hfits

/-- A step that takes no permit leaves the budget, unless it gives its permit back. -/
theorem Advances.budget (h : p.Advances k c p' c') (hqueue : p.isQueueing = false) :
    c'.budget = if p.givesBack then c.budget.release else c.budget := by
  cases h with
  | permit | refuse => cases hqueue
  | _ => rfl

theorem advance?_queueing_of_some {b : Budget} (h : c.budget.acquire? = some b) :
    (queueing j).advance? k c = some (waiting j, { c with budget := b }) := by
  rw [advance?, h]

theorem advance?_queueing_of_none (h : c.budget.acquire? = none) :
    (queueing j).advance? k c = some (computing (.bystander j), c) := by
  rw [advance?, h]

theorem fits_afterCompute {role : Role} (h : (computing role : Phase α).Fits a)
    (outcome : Option α) : (afterCompute role outcome).Fits a := by
  cases role with
  | bystander j =>
    obtain ⟨seen, rfl⟩ := h
    cases outcome <;> exact fun hholding => by cases hholding
  | outsider | owner j => cases outcome <;> exact h

theorem fits_of_afterAttempt (h : afterAttempt j a = some p) : p.Fits a := by
  cases a with
  | holding =>
    cases h
    rfl
  | refused seen =>
    cases h
    exact ⟨seen, rfl⟩
  | idle | trying => cases h

/-- A call whose attempt is not over goes on queueing. -/
theorem fits_queueing_of_afterAttempt (h : afterAttempt (α := α) j a = none) :
    (queueing j : Phase α).Fits a := by
  cases a with
  | idle => exact Or.inl rfl
  | trying seen => exact Or.inr ⟨seen, rfl⟩
  | holding | refused => cases h

end Phase

namespace ContendedSystem

variable {s s' : ContendedSystem α} {limit i j : Nat} {call : Call α} {a : Acquirer}

/-! ## What a move comes to -/

/-- What a move can come to. -/
inductive Steps (s : ContendedSystem α) : ContendedMove α → ContendedSystem α → Prop
  /-- The move does not fit the state. -/
  | idle {m : ContendedMove α} : Steps s m s
  | call (key : Key) :
      Steps s (.ordinary (.call key)) ⟨s.system.step (.call key), s.acquirers.push .idle⟩
  /-- A step that has to do with no permit. -/
  | advance {i : Nat} {call : Call α} {p : Phase α} {c : Cache α}
      (hcall : s.system.calls[i]? = some call)
      (hadv : call.phase.advance? call.key s.system.cache = some (p, c))
      (hqueue : call.phase.isQueueing = false) (hback : call.phase.givesBack = false) :
      Steps s (.ordinary (.advance i)) ⟨s.system.step (.advance i), s.acquirers⟩
  | giveBack {i : Nat} {call : Call α} {p : Phase α} {c : Cache α}
      (hcall : s.system.calls[i]? = some call)
      (hadv : call.phase.advance? call.key s.system.cache = some (p, c))
      (hback : call.phase.givesBack = true) :
      Steps s (.ordinary (.advance i))
        ⟨s.system.step (.advance i), (s.crowd.step (i, .drop)).callers⟩
  | finish (i : Nat) (outcome : Option α) :
      Steps s (.ordinary (.finish i outcome)) ⟨s.system.step (.finish i outcome), s.acquirers⟩
  | forget (container : ContainerId) :
      Steps s (.ordinary (.forget container)) ⟨s.system.step (.forget container), s.acquirers⟩
  | forgetAll :
      Steps s (.ordinary .forgetAll) ⟨s.system.step .forgetAll, s.acquirers⟩
  | attempt {i j : Nat} {call : Call α} (action : Action)
      (hcall : s.system.calls[i]? = some call) (hj : call.phase = .queueing j) :
      Steps s (.acquire i action) (s.attempt i call j action)

/-- The list is complete. -/
theorem steps (s : ContendedSystem α) (m : ContendedMove α) : s.Steps m (s.step m) := by
  cases m with
  | acquire i action =>
    rw [step]
    split
    · rename_i hcall
      exact .attempt action hcall rfl
    · exact .idle
  | ordinary move =>
    cases move with
    | call key => exact .call key
    | finish i outcome => exact .finish i outcome
    | forget container => exact .forget container
    | forgetAll => exact .forgetAll
    | advance i =>
      rw [step]
      split
      · exact .idle
      rename_i call hcall
      split
      · exact .idle
      rename_i hqueue
      rw [Bool.not_eq_true] at hqueue
      cases hadv : call.phase.advance? call.key s.system.cache with
      | none =>
        rw [Phase.givesBack_of_advance?_eq_none hadv, CallSystem.step_advance_of_none hcall hadv]
        exact .idle
      | some next =>
        split
        · rename_i hback
          exact .giveBack hcall hadv hback
        · rename_i hback
          exact .advance hcall hadv hqueue (Bool.eq_false_iff.2 hback)

/-! ## What every move keeps -/

/-- Every call stands with the budget as its phase tells. -/
def Fitting (s : ContendedSystem α) : Prop :=
  ∀ i : Nat, Option.Rel (fun (call : Call α) (a : Acquirer) => call.phase.Fits a)
    s.system.calls[i]? s.acquirers[i]?

namespace Fitting

theorem exists_acquirer (h : s.Fitting) (hcall : s.system.calls[i]? = some call) :
    ∃ a, s.acquirers[i]? = some a ∧ call.phase.Fits a := by
  have hi := h i
  rw [hcall] at hi
  generalize s.acquirers[i]? = o at hi
  cases hi with
  | some hfits => exact ⟨_, rfl, hfits⟩

/-- The callers that hold a permit are the calls that wait. -/
theorem map_holding (h : s.Fitting) :
    s.acquirers.map (· == .holding) = s.system.calls.map fun call => call.phase.holdsPermit := by
  refine Array.ext_getElem? fun i => ?_
  rw [Array.getElem?_map, Array.getElem?_map]
  have hi := h i
  generalize s.acquirers[i]? = a? at hi
  generalize s.system.calls[i]? = call? at hi
  cases hi with
  | none => rfl
  | some hfits =>
    rw [Option.map_some, Option.map_some, Option.some_inj, Bool.eq_iff_iff, beq_iff_eq]
    exact hfits.holding_iff

theorem size_eq (h : s.Fitting) : s.acquirers.size = s.system.calls.size := by
  have hsize := congrArg Array.size h.map_holding
  rwa [Array.size_map, Array.size_map] at hsize

/-- An array is its own update with what it has. -/
theorem getElem?_eq_ite {β : Type} {xs : Array β} {b : β} (h : xs[i]? = some b) (x : Nat) :
    xs[x]? = if i = x then some b else xs[x]? := by
  split
  · rename_i hix
    rw [← hix, h]
  · rfl

/-- A change of one call that fits again. -/
theorem update (h : s.Fitting)
    (hcalls : ∀ x : Nat, s'.system.calls[x]? = if i = x then some call else s.system.calls[x]?)
    (hacquirers : ∀ x : Nat, s'.acquirers[x]? = if i = x then some a else s.acquirers[x]?)
    (hfits : call.phase.Fits a) : s'.Fitting := by
  intro x
  rw [hcalls, hacquirers]
  split
  · exact .some hfits
  · exact h x

/-- A call that gives its permit back has one. -/
theorem holding_of_givesBack (h : s.Fitting) (hcall : s.system.calls[i]? = some call)
    (hback : call.phase.givesBack = true) : s.crowd.callers[i]? = some .holding := by
  obtain ⟨a, ha, hfits⟩ := h.exists_acquirer hcall
  rwa [hfits.holding_of_givesBack hback] at ha

/-- A call goes into a phase that fits where the budget then has it. -/
theorem step_advance (h : s.Fitting) {p : Phase α} {c : Cache α}
    (hcall : s.system.calls[i]? = some call)
    (hadv : call.phase.advance? call.key s.system.cache = some (p, c))
    {acquirers : Array Acquirer}
    (hacquirers : ∀ x : Nat, acquirers[x]? = if i = x then some a else s.acquirers[x]?)
    (hfits : p.Fits a) : Fitting ⟨s.system.step (.advance i), acquirers⟩ := by
  rw [CallSystem.step_advance_of_some hcall hadv]
  exact h.update (CallSystem.getElem?_setCall hcall _) hacquirers hfits

theorem attempt (h : s.Fitting) (action : Action) (hcall : s.system.calls[i]? = some call)
    (hj : call.phase = .queueing j) : (s.attempt i call j action).Fitting := by
  obtain ⟨a, ha, -⟩ := h.exists_acquirer hcall
  have hacquirers := Crowd.callers_step (c := s.crowd) ha action
  have hself := hacquirers i
  rw [if_pos rfl] at hself
  rw [ContendedSystem.attempt, hself]
  dsimp only [Option.bind_some]
  split
  · rename_i p hp
    rw [CallSystem.enter_eq]
    exact h.update (CallSystem.getElem?_setCall hcall _) hacquirers (Phase.fits_of_afterAttempt hp)
  · rename_i hp
    refine h.update (getElem?_eq_ite hcall) hacquirers ?_
    rw [hj]
    exact Phase.fits_queueing_of_afterAttempt hp

theorem step (h : s.Fitting) (m : ContendedMove α) : (s.step m).Fitting := by
  have hstep := s.steps m
  generalize s.step m = s' at hstep
  cases hstep with
  | idle | forget | forgetAll => exact h
  | call key =>
    intro x
    rw [Array.getElem?_push, h.size_eq]
    rw [CallSystem.step, Array.getElem?_push]
    split
    · exact .some rfl
    · exact h x
  | @advance i call p c hcall hadv hqueue hback =>
    obtain ⟨a, ha, hfits⟩ := h.exists_acquirer hcall
    have hafter := (Phase.advances_of_advance? hadv).fits hqueue hfits
    rw [hback] at hafter
    exact h.step_advance hcall hadv (getElem?_eq_ite ha) hafter
  | @giveBack i call p c hcall hadv hback =>
    obtain ⟨a, ha, hfits⟩ := h.exists_acquirer hcall
    have hqueue := Phase.isQueueing_eq_false_of_givesBack hback
    have hafter := (Phase.advances_of_advance? hadv).fits hqueue hfits
    rw [hback] at hafter
    exact h.step_advance hcall hadv
      (Crowd.callers_step (h.holding_of_givesBack hcall hback) .drop) hafter
  | finish i outcome =>
    have hfinish := s.system.steps (.finish i outcome)
    generalize s.system.step (.finish i outcome) = system at hfinish
    cases hfinish with
    | idle => exact h
    | @finish _ call role _ hcall hrole =>
      obtain ⟨a, ha, hfits⟩ := h.exists_acquirer hcall
      rw [hrole] at hfits
      exact h.update (CallSystem.getElem?_setCall hcall _) (getElem?_eq_ite ha)
        (Phase.fits_afterCompute hfits outcome)
  | attempt action hcall hj => exact h.attempt action hcall hj

end Fitting

/-! ## To the budget -/

/-- To the budget an attempt is a step of one who shares it. -/
theorem crowd_attempt (s : ContendedSystem α) (i : Nat) (call : Call α) (j : Nat)
    (action : Action) : (s.attempt i call j action).crowd = s.crowd.step (i, action) := by
  rw [attempt]
  split
  · rw [CallSystem.enter_eq]
    rfl
  · rfl

/-- A call that gives its permit back drops it. -/
theorem crowd_giveBack (h : s.Fitting) {p : Phase α} {c : Cache α}
    (hcall : s.system.calls[i]? = some call)
    (hadv : call.phase.advance? call.key s.system.cache = some (p, c))
    (hback : call.phase.givesBack = true) :
    crowd ⟨s.system.step (.advance i), (s.crowd.step (i, .drop)).callers⟩ =
      s.crowd.step (i, .drop) := by
  have hqueue := Phase.isQueueing_eq_false_of_givesBack hback
  have hbudget := (Phase.advances_of_advance? hadv).budget hqueue
  rw [hback] at hbudget
  rw [CallSystem.step_advance_of_some hcall hadv,
    Crowd.step_of_some (h.holding_of_givesBack hcall hback)]
  exact congrArg (Crowd.mk · _) hbudget

/-- To the budget every move is a step of one who shares it, or one who joins, or nothing. -/
theorem crowd_step (h : s.Fitting) (m : ContendedMove α) :
    (s.step m).crowd = s.crowd ∨
    (s.step m).crowd = ⟨s.crowd.budget, s.crowd.callers.push .idle⟩ ∨
    ∃ i action, (s.step m).crowd = s.crowd.step (i, action) := by
  have hstep := s.steps m
  generalize s.step m = s' at hstep
  cases hstep with
  | idle | forget | forgetAll => exact Or.inl rfl
  | call key => exact Or.inr (Or.inl rfl)
  | @advance i call p c hcall hadv hqueue hback =>
    have hbudget := (Phase.advances_of_advance? hadv).budget hqueue
    rw [hback] at hbudget
    refine Or.inl ?_
    rw [CallSystem.step_advance_of_some hcall hadv, crowd]
    exact congrArg (Crowd.mk · s.acquirers) hbudget
  | @giveBack i call p c hcall hadv hback =>
    exact Or.inr (Or.inr ⟨i, .drop, crowd_giveBack h hcall hadv hback⟩)
  | finish i outcome =>
    refine Or.inl ?_
    have hfinish := s.system.steps (.finish i outcome)
    generalize s.system.step (.finish i outcome) = system at hfinish
    cases hfinish <;> rfl
  | @attempt i j call action hcall hj => exact Or.inr (Or.inr ⟨i, action, crowd_attempt ..⟩)

theorem sound_step (hsound : Crowd.Sound limit s.crowd) (h : s.Fitting) (m : ContendedMove α) :
    Crowd.Sound limit (s.step m).crowd := by
  rcases crowd_step h m with hsame | hjoin | ⟨i, action, hown⟩
  · rwa [hsame]
  · rw [hjoin]
    exact hsound.join
  · rw [hown]
    exact hsound.step (i, action)

/-- A permit that a call holds stays with it until the call gives it back. -/
theorem holding_step (h : s.Fitting) (hholding : s.acquirers[i]? = some .holding)
    (m : ContendedMove α) :
    (s.step m).acquirers[i]? = some .holding ∨
    m = .ordinary (.advance i) ∧ (s.step m).acquirers[i]? = some .idle ∧
      (s.step m).crowd = s.crowd.step (i, .drop) := by
  have hstep := s.steps m
  generalize s.step m = s' at hstep
  cases hstep with
  | idle | advance | finish | forget | forgetAll => exact Or.inl hholding
  | call key =>
    refine Or.inl ?_
    have hi : i < s.acquirers.size := (Array.getElem?_eq_some_iff.1 hholding).1
    rw [Array.getElem?_push, if_neg (Nat.ne_of_lt hi)]
    exact hholding
  | @giveBack x call p c hcall hadv hback =>
    have hafter := Crowd.callers_step (h.holding_of_givesBack hcall hback) .drop i
    by_cases hxi : x = i
    · subst hxi
      rw [if_pos rfl] at hafter
      exact Or.inr ⟨rfl, hafter, crowd_giveBack h hcall hadv hback⟩
    · rw [if_neg hxi] at hafter
      exact Or.inl (hafter.trans hholding)
  | @attempt x j call action hcall hj =>
    obtain ⟨a, ha, hfits⟩ := h.exists_acquirer hcall
    have hxi : x ≠ i := by
      rintro rfl
      obtain rfl := Option.some.inj (ha.symm.trans hholding)
      rw [hj] at hfits
      simp [Phase.Fits] at hfits
    have hafter := Crowd.callers_step (c := s.crowd) ha action i
    rw [if_neg hxi, ← crowd_attempt] at hafter
    exact Or.inl (hafter.trans hholding)

/-- On both ways out of its waiting phase a call gives its permit back. -/
theorem step_advance_of_givesBack (h : s.Fitting) (hcall : s.system.calls[i]? = some call)
    (hback : call.phase.givesBack = true) :
    (s.step (.ordinary (.advance i))).acquirers[i]? = some .idle ∧
      (s.step (.ordinary (.advance i))).crowd = s.crowd.step (i, .drop) := by
  have hqueue := Phase.isQueueing_eq_false_of_givesBack hback
  obtain ⟨next, hadv⟩ : ∃ next, call.phase.advance? call.key s.system.cache = some next := by
    refine Option.ne_none_iff_exists'.1 fun hnone => ?_
    rw [Phase.givesBack_of_advance?_eq_none hnone] at hback
    cases hback
  have hstep : s.step (.ordinary (.advance i)) =
      ⟨s.system.step (.advance i), (s.crowd.step (i, .drop)).callers⟩ := by
    rw [step, hcall]
    simp only [hqueue, hback]
    rfl
  have hidle := Crowd.callers_step (h.holding_of_givesBack hcall hback) .drop i
  rw [if_pos rfl] at hidle
  rw [hstep]
  exact ⟨hidle, crowd_giveBack h hcall hadv hback⟩

/-- As many callers hold a permit as calls wait. -/
theorem live_crowd (h : s.Fitting) : s.crowd.live = s.system.waitingCalls := by
  have hcount := congrArg (Array.countP id) h.map_holding
  rwa [Array.countP_map, Array.countP_map] at hcount

/-! ## To the calls -/

/-- An attempt that is not over changes nothing for the calls, and one that is over is the step
in which a call takes its permit or is refused it. -/
theorem system_attempt (hsound : Crowd.Sound limit s.crowd) (h : s.Fitting) (action : Action)
    (hcall : s.system.calls[i]? = some call) (hj : call.phase = .queueing j) :
    (s.attempt i call j action).system = s.system ∨
    (s.attempt i call j action).system = s.system.step (.advance i) := by
  obtain ⟨a, ha, hfits⟩ := h.exists_acquirer hcall
  rw [hj] at hfits
  have hself := Crowd.callers_step (c := s.crowd) ha action i
  rw [if_pos rfl] at hself
  have hbudget : (s.crowd.step (i, action)).budget = (a.step action s.crowd.budget).2 := by
    rw [Crowd.step_of_some (c := s.crowd) ha]
  have hsteps := a.steps action s.crowd.budget
  rw [attempt, hself, withBudget, hbudget]
  generalize (a.step action s.crowd.budget).1 = a' at hsteps ⊢
  generalize (a.step action s.crowd.budget).2 = b' at hsteps ⊢
  cases hsteps with
  | idle =>
    refine Or.inl ?_
    rcases hfits with rfl | ⟨seen, rfl⟩ <;> rfl
  | sawFree => exact Or.inl rfl
  | sawFull hreads hfull =>
    refine Or.inr ?_
    have hnone : s.system.cache.budget.acquire? = none := if_neg (Nat.not_lt.2 hfull)
    rw [CallSystem.step_advance_of_some hcall (hj ▸ Phase.advance?_queueing_of_none hnone)]
    rfl
  | take =>
    refine Or.inr ?_
    have hlt : s.crowd.budget.inUse < s.crowd.budget.limit :=
      hsound.limit_eq ▸ hsound.sawRightly i _ ha
    have hsome : s.system.cache.budget.acquire? = some _ := if_pos hlt
    rw [CallSystem.step_advance_of_some hcall (hj ▸ Phase.advance?_queueing_of_some hsome)]
    rfl
  | drop => simp [Phase.Fits] at hfits

/-- For the calls every move is a move in which a permit is taken at once, or nothing. -/
theorem system_step (hsound : Crowd.Sound limit s.crowd) (h : s.Fitting) (m : ContendedMove α) :
    (s.step m).system = s.system ∨ ∃ m', (s.step m).system = s.system.step m' := by
  have hstep := s.steps m
  generalize s.step m = s' at hstep
  cases hstep with
  | idle => exact Or.inl rfl
  | attempt action hcall hj =>
    exact (system_attempt hsound h action hcall hj).imp_right fun hown => ⟨_, hown⟩
  | call key => exact Or.inr ⟨.call key, rfl⟩
  | @advance i | @giveBack i => exact Or.inr ⟨.advance i, rfl⟩
  | finish i outcome => exact Or.inr ⟨.finish i outcome, rfl⟩
  | forget container => exact Or.inr ⟨.forget container, rfl⟩
  | forgetAll => exact Or.inr ⟨.forgetAll, rfl⟩

/-! ## Runs -/

@[simp] theorem run_append_singleton (s : ContendedSystem α) (ms : List (ContendedMove α))
    (m : ContendedMove α) : s.run (ms ++ [m]) = (s.run ms).step m := by
  rw [run, List.foldl_append]
  rfl

/-- Every run keeps what every move keeps. -/
theorem run_keeps (limit : Nat) (ms : List (ContendedMove α)) :
    Crowd.Sound limit ((ofLimit limit).run ms).crowd ∧ ((ofLimit limit).run ms).Fitting := by
  induction ms using List.reverseRecOn with
  | nil => exact ⟨Crowd.Sound.ofLimit limit 0, fun i => .none⟩
  | append_singleton ms m ih =>
    obtain ⟨hsound, hfitting⟩ := ih
    rw [run_append_singleton]
    exact ⟨sound_step hsound hfitting m, hfitting.step m⟩

/-- The calls after a run are those after a run in which every permit is taken at once. -/
theorem exists_run (limit : Nat) (ms : List (ContendedMove α)) :
    ∃ ms', ((ofLimit limit).run ms).system = (CallSystem.ofLimit limit).run ms' := by
  induction ms using List.reverseRecOn with
  | nil => exact ⟨[], rfl⟩
  | append_singleton ms m ih =>
    obtain ⟨ms', hms'⟩ := ih
    obtain ⟨hsound, hfitting⟩ := run_keeps limit ms
    rw [run_append_singleton]
    rcases system_step hsound hfitting m with hsame | ⟨m', hstep⟩
    · exact ⟨ms', hsame.trans hms'⟩
    · refine ⟨ms' ++ [m'], ?_⟩
      rw [hstep, hms', CallSystem.run_append_singleton]

/-- What holds of the permits of calls. -/
structure Accounted (limit : Nat) (s : ContendedSystem α) : Prop where
  inUse_eq : s.system.cache.budget.inUse = s.system.waitingCalls
  inUse_le : s.system.cache.budget.inUse ≤ limit
  /-- A call holds a permit exactly while it is in its waiting phase. -/
  holding_iff : ∀ (i : Nat) (call : Call α), s.system.calls[i]? = some call →
    (s.acquirers[i]? = some .holding ↔ call.phase.holdsPermit = true)
  computing : ∀ (i : Nat) (call : Call α) (role : Role), s.system.calls[i]? = some call →
    call.phase = .computing role → s.acquirers[i]? ≠ some .holding
  /-- A call that computes because it got no permit saw that there was none. -/
  bystander : ∀ (i : Nat) (call : Call α) (j : Nat), s.system.calls[i]? = some call →
    call.phase = .computing (.bystander j) →
    ∃ seen, s.acquirers[i]? = some (.refused seen) ∧ limit ≤ seen
  /-- A call keeps its permit, or gives it back by its own step. -/
  returns : ∀ (m : ContendedMove α) (i : Nat), s.acquirers[i]? = some .holding →
    (s.step m).acquirers[i]? = some .holding ∨
    m = .ordinary (.advance i) ∧ (s.step m).acquirers[i]? = some .idle ∧
      (s.step m).system.cache.budget.inUse + 1 = s.system.cache.budget.inUse
  /-- A call that got the result, or took its slot over, gives its permit back next. -/
  gives_back : ∀ (i : Nat) (call : Call α), s.system.calls[i]? = some call →
    call.phase.givesBack = true →
    (s.step (.ordinary (.advance i))).acquirers[i]? = some .idle ∧
      (s.step (.ordinary (.advance i))).system.cache.budget.inUse + 1 =
        s.system.cache.budget.inUse
  /-- No permit is in use when all calls compute or are over. -/
  all_returned : (∀ call ∈ s.system.calls,
    (∃ role, call.phase = .computing role) ∨ call.phase.Over) →
    s.system.cache.budget.inUse = 0

theorem accounted (hsound : Crowd.Sound limit s.crowd) (h : s.Fitting) : s.Accounted limit := by
  have hinUse : s.system.cache.budget.inUse = s.system.waitingCalls :=
    hsound.inUse_eq.trans (live_crowd h)
  have hholding : ∀ (i : Nat) (call : Call α), s.system.calls[i]? = some call →
      (s.acquirers[i]? = some .holding ↔ call.phase.holdsPermit = true) := by
    intro i call hcall
    obtain ⟨a, ha, hfits⟩ := h.exists_acquirer hcall
    rw [ha, Option.some_inj]
    exact hfits.holding_iff
  refine ⟨hinUse, hsound.inUse_le, hholding, ?_, ?_, ?_, ?_, ?_⟩
  · intro i call role hcall hrole
    rw [Ne, hholding i call hcall, hrole]
    exact Bool.false_ne_true
  · intro i call j hcall hj
    obtain ⟨a, ha, hfits⟩ := h.exists_acquirer hcall
    rw [hj] at hfits
    obtain ⟨seen, rfl⟩ := hfits
    exact ⟨seen, ha, hsound.sawRightly i _ ha⟩
  · intro m i hi
    refine (holding_step h hi m).imp_right ?_
    rintro ⟨hm, hidle, hcrowd⟩
    have hdrop := hsound.inUse_drop hi
    rw [← hcrowd] at hdrop
    exact ⟨hm, hidle, hdrop⟩
  · intro i call hcall hback
    obtain ⟨hidle, hcrowd⟩ := step_advance_of_givesBack h hcall hback
    have hdrop := hsound.inUse_drop (h.holding_of_givesBack hcall hback)
    rw [← hcrowd] at hdrop
    exact ⟨hidle, hdrop⟩
  · intro hall
    rw [hinUse]
    refine Array.countP_eq_zero.2 fun call hcall => ?_
    rcases hall call hcall with ⟨role, hphase⟩ | ⟨r, hphase⟩ | hphase <;>
      simp [hphase, Phase.holdsPermit]

/-- No permit is lost and none is given out twice, whoever asks for one and however the steps of
those who ask fall between each other; and a call has one while it waits, and then only. -/
theorem permits_accounted (α : Type) (limit : Nat) :
    (∀ (n : Nat) (moves : List (Nat × Action)), Crowd.Accounted limit n moves) ∧
    ∀ ms : List (ContendedMove α), ((ofLimit limit).run ms).Accounted limit := by
  refine ⟨fun n moves => Crowd.accounted limit n moves, fun ms => ?_⟩
  obtain ⟨hsound, hfitting⟩ := run_keeps limit ms
  exact accounted hsound hfitting

/-- Three calls for one key and one permit.  Two of them see the permit free; the first of these
takes it, the exchange of the second fails.  Then the computation of the owner fails, and the call
that waits takes over. -/
def contendedRun : List (ContendedMove Nat) :=
  [.ordinary (.call default), .ordinary (.call default), .ordinary (.call default),
    .ordinary (.advance 0), .ordinary (.advance 0),
    .ordinary (.advance 1), .ordinary (.advance 1), .ordinary (.advance 1), .ordinary (.advance 1),
    .ordinary (.advance 2), .ordinary (.advance 2), .ordinary (.advance 2), .ordinary (.advance 2),
    .acquire 1 .load, .acquire 2 .load, .acquire 1 (.exchange false), .acquire 2 (.exchange true),
    .ordinary (.finish 0 none), .ordinary (.advance 0),
    .ordinary (.advance 1), .ordinary (.advance 1), .ordinary (.advance 1)]

/-- In `contendedRun` the permit is in use for a time, and given back in the end. -/
theorem permits_accounted_of_contended_run :
    ((ofLimit 1).run (contendedRun.take 17)).system.cache.budget.inUse = 1 ∧
      ((ofLimit 1).run (contendedRun.take 17)).system.waitingCalls = 1 ∧
      (∃ seen, ((ofLimit 1).run (contendedRun.take 17)).acquirers[2]? = some (.refused seen) ∧
        1 ≤ seen) ∧
      ((ofLimit 1).run contendedRun).system.cache.budget.inUse = 0 := by
  have hwaiting := (permits_accounted Nat 1).2 (contendedRun.take 17)
  have hover := (permits_accounted Nat 1).2 contendedRun
  have hone : ((ofLimit 1).run (contendedRun.take 17)).system.cache.budget.inUse = 1 := by
    decide +kernel
  refine ⟨hone, hwaiting.inUse_eq.symm.trans hone, ?_, ?_⟩
  · exact hwaiting.bystander 2 ⟨default, .computing (.bystander 0), some 1⟩ 0
      (by decide +kernel) rfl
  · have hcalls : ((ofLimit 1).run contendedRun).system.calls =
        #[⟨default, .failed, some 0⟩, ⟨default, .computing (.owner 0), some 2⟩,
          ⟨default, .computing (.bystander 0), some 1⟩] := by decide +kernel
    refine hover.all_returned ?_
    rw [hcalls]
    simp [Phase.Over]

end ContendedSystem
end PathFacts
