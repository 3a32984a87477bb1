import PathFacts.Proofs.Cache.Ownership

/-!
# What the callers of one slot can rely on

All calls for one key meet in one slot, and anything may happen in between: computations that
fail, owners that give up, callers that are refused a permit and compute on their own.
`slot_protocol` says what holds nevertheless, after every run.

The parts of it come from different sides.  That a result stays is `Cache.Grows`; that
callers return it follows a call from the slot to its end (`standsBy_of_workedOn`).  The
owners are those of `Ownership`, with the moves by which an owner resolves its slot
(`resolves_of_owns`), and those by which a call takes an abandoned slot over
(`owns_of_reclaims`).  That a computation is made only once needs that a slot is never taken
twice (`seen_takes_unique`) and that a call never computes twice (`computation_eq_of_seen`).
-/

namespace PathFacts

variable {α : Type}

namespace Phase

variable {p p' : Phase α} {k : Key} {c c' : Cache α} {j : Nat}

/-- The next step of a call that works on a slot keeps it there, or ends its work with the
result of the slot, or in failure. -/
theorem Advances.of_slot? (h : p.Advances k c p' c') (hj : p.slot? = some j)
    (hlt : j < c.slots.size) :
    p'.slot? = some j ∨ (∃ r, c'.slot j = .ready r ∧ (p' = served r ∨ p' = returned r)) ∨
      p' = failed := by
  cases h with
  | @hit _ i r hr =>
    cases hj
    exact Or.inr (Or.inl ⟨r, hr, Or.inr rfl⟩)
  | @serve _ i r hr =>
    cases hj
    exact Or.inr (Or.inl ⟨r, hr, Or.inl rfl⟩)
  | @publish _ i r =>
    cases hj
    exact Or.inr (Or.inl ⟨r, by simp [hlt], Or.inr rfl⟩)
  | @converge _ i r r' hr =>
    cases hj
    exact Or.inr (Or.inl ⟨r', hr, Or.inr rfl⟩)
  | giveUp | giveUpLate => exact Or.inr (Or.inr rfl)
  | bypass | join | putUp | find | make | leave => cases hj
  | _ => exact Or.inl hj

/-- A call that is about to resolve its slot does so and is over. -/
theorem Advances.resolves {v : Slot α} (h : p.Advances k c p' c')
    (hres : p.resolution? = some (j, v)) (hlt : j < c.slots.size) :
    c'.slot j ≠ .pending ∧ p'.Over := by
  cases h with
  | @publish _ i r =>
    cases hres
    exact ⟨by simp [hlt], Or.inl ⟨r, rfl⟩⟩
  | @converge _ i r r' hr =>
    cases hres
    exact ⟨by simp [hr], Or.inl ⟨r', rfl⟩⟩
  | @giveUp _ i =>
    cases hres
    exact ⟨by simp [hlt], Or.inr rfl⟩
  | @giveUpLate _ i hi =>
    cases hres
    exact ⟨hi, Or.inr rfl⟩
  | _ => cases hres

theorem exists_advance?_of_resolution? {v : Slot α} (hres : p.resolution? = some (j, v)) :
    ∃ p' c', p.advance? k c = some (p', c') := by
  cases p with
  | publishing i r => exact ⟨_, _, rfl⟩
  | abandoning i => exact ⟨_, _, rfl⟩
  | _ => cases hres

theorem exists_resolution?_afterCompute (j : Nat) (outcome : Option α) :
    ∃ v, (afterCompute (.owner j) outcome).resolution? = some (j, v) := by
  cases outcome with
  | none => exact ⟨.abandoned, rfl⟩
  | some r => exact ⟨.ready r, rfl⟩

theorem Over.advance?_eq_none (h : p.Over) (k : Key) (c : Cache α) : p.advance? k c = none := by
  rcases h with ⟨r, rfl⟩ | rfl <;> rfl

theorem slot?_afterCompute_of_slot? {role : Role} (h : (computing role : Phase α).slot? = some j)
    (outcome : Option α) :
    (afterCompute role outcome).slot? = some j ∨ afterCompute role outcome = failed := by
  cases role with
  | outsider => cases h
  | owner i => cases outcome <;> exact Or.inl h
  | bystander i =>
    cases outcome with
    | none => exact Or.inr rfl
    | some r => exact Or.inl h

/-- A call in this phase starts no computation any more. -/
def IsLate (p : Phase α) : Prop :=
  (∃ role, p = computing role) ∨ (∃ j v, p.resolution? = some (j, v)) ∨ p.Over

/-- A late call goes on only to its end. -/
theorem Advances.of_isLate (h : p.Advances k c p' c') (hlate : p.IsLate) : p'.Over := by
  rcases hlate with ⟨role, rfl⟩ | ⟨j, v, hv⟩ | hover
  · cases h
  · cases h with
    | publish | converge => exact Or.inl ⟨_, rfl⟩
    | giveUp | giveUpLate => exact Or.inr rfl
    | _ => cases hv
  · exact absurd h hover.not_advances

theorem isLate_afterCompute (role : Role) (outcome : Option α) :
    (afterCompute role outcome).IsLate := by
  cases role with
  | outsider =>
    cases outcome with
    | none => exact Or.inr (Or.inr (Or.inr rfl))
    | some r => exact Or.inr (Or.inr (Or.inl ⟨r, rfl⟩))
  | owner j => cases outcome <;> exact Or.inr (Or.inl ⟨_, _, rfl⟩)
  | bystander j =>
    cases outcome with
    | none => exact Or.inr (Or.inr (Or.inr rfl))
    | some r => exact Or.inr (Or.inl ⟨_, _, rfl⟩)

theorem Over.isComputing_eq_false (h : p.Over) : p.isComputing = false := by
  rcases h with ⟨r, rfl⟩ | rfl <;> rfl

/-- A call in the first phase tries to take slot `j` over, and goes on in the second one where
the slot is not abandoned any more. -/
inductive Reclaims (j : Nat) : Phase α → Phase α → Prop
  | unserved : Reclaims j (unserved j) (queueing j)
  | bereft : Reclaims j (bereft j) (waiting j)

theorem Reclaims.advance?_of_abandoned {back : Phase α} (h : p.Reclaims j back) (k : Key)
    (hj : c.slot j = .abandoned) :
    ∃ p', p.advance? k c = some (p', c.setSlot j .pending) ∧ p'.Takes j := by
  cases h with
  | unserved =>
    exact ⟨computing (.owner j), by simp [advance?, Cache.takeOver_of_abandoned hj], Or.inr rfl⟩
  | bereft =>
    exact ⟨inheriting j, by simp [advance?, Cache.takeOver_of_abandoned hj], Or.inl rfl⟩

theorem Reclaims.advance?_of_ne {back : Phase α} (h : p.Reclaims j back) (k : Key)
    (hj : c.slot j ≠ .abandoned) : p.advance? k c = some (back, c) := by
  cases h with
  | unserved => simp [advance?, Cache.takeOver_of_ne hj]
  | bereft => simp [advance?, Cache.takeOver_of_ne hj]

end Phase

namespace CallSystem

variable {s : CallSystem α} {limit : Nat} {ms : List (Move α)} {i i' j n n' : Nat}
  {call : Call α} {r : α}

/-- Whether call `i` worked on slot `j` at some time of the run `ms`. -/
def WorkedOn (s : CallSystem α) (ms : List (Move α)) (i j : Nat) : Prop :=
  s.Seen ms i fun call => call.phase.slot? = some j

/-- Whether call `i` started computation number `n` for slot `j` in the run `ms`. -/
def ComputedFor (s : CallSystem α) (ms : List (Move α)) (i n j : Nat) : Prop :=
  s.Seen ms i fun call => call.computation = some n ∧
    (∃ role, call.phase = .computing role) ∧ call.phase.slot? = some j

/-! ## Calls and the result of their slot -/

theorem lt_size_of_workedOn (h : (ofLimit limit).WorkedOn ms i j) :
    j < ((ofLimit limit).run ms).cache.slots.size := by
  obtain ⟨before, ⟨after, rfl⟩, call, hcall, hj⟩ := h
  rw [run_append]
  exact lt_of_lt_of_le (lt_size_of_slot? hcall hj) (grows_run _ after).slots

/-- A call works on slot `j`, or leaves with the result of the slot, or failed. -/
def StandsBy (j : Nat) (c : Cache α) (call : Call α) : Prop :=
  j < c.slots.size ∧
    (call.phase.slot? = some j ∨
      (∃ r, c.slot j = .ready r ∧ (call.phase = .served r ∨ call.phase = .returned r)) ∨
      call.phase = .failed)

theorem StandsBy.grows {c c' : Cache α} (h : StandsBy j c call) (hgrows : c.Grows c') :
    StandsBy j c' call := by
  obtain ⟨hlt, h⟩ := h
  refine ⟨lt_of_lt_of_le hlt hgrows.slots, ?_⟩
  rcases h with hj | ⟨r, hr, hphase⟩ | hfailed
  · exact Or.inl hj
  · exact Or.inr (Or.inl ⟨r, hgrows.ready j r hr, hphase⟩)
  · exact Or.inr (Or.inr hfailed)

theorem StandsBy.advance {c c' : Cache α} {p : Phase α} (h : StandsBy j c call)
    (hadv : call.phase.Advances call.key c p c') (next : Nat) :
    StandsBy j c' (call.into next p) := by
  obtain ⟨hlt, h⟩ := h
  refine ⟨lt_of_lt_of_le hlt hadv.grows.slots, ?_⟩
  rcases h with hj | ⟨r, hr, hserved | hreturned⟩ | hfailed
  · exact hadv.of_slot? hj hlt
  · rw [hserved] at hadv
    cases hadv
    exact Or.inr (Or.inl ⟨r, hr, Or.inr rfl⟩)
  · exact absurd hadv (Phase.Over.not_advances (Or.inl ⟨r, hreturned⟩))
  · exact absurd hadv (Phase.Over.not_advances (Or.inr hfailed))

theorem StandsBy.finish {c : Cache α} {role : Role} (h : StandsBy j c call)
    (hrole : call.phase = .computing role) (outcome : Option α) :
    StandsBy j c { call with phase := Phase.afterCompute role outcome } := by
  obtain ⟨hlt, h⟩ := h
  refine ⟨hlt, ?_⟩
  rw [hrole] at h
  rcases h with hj | ⟨r, -, hserved | hreturned⟩ | hfailed
  · rcases Phase.slot?_afterCompute_of_slot? hj outcome with hj | hfailed
    · exact Or.inl hj
    · exact Or.inr (Or.inr hfailed)
  · cases hserved
  · cases hreturned
  · cases hfailed

/-- A call that once worked on a slot stands by it. -/
theorem standsBy_of_workedOn (hseen : (ofLimit limit).WorkedOn ms i j)
    (hcall : ((ofLimit limit).run ms).calls[i]? = some call) :
    StandsBy j ((ofLimit limit).run ms).cache call := by
  refine of_seen (Q := StandsBy j) ?_ ?_ ?_ ?_ hseen hcall
  · intro before call hcall hj
    exact ⟨lt_size_of_slot? hcall hj, Or.inl hj⟩
  · intro c c' call hgrows h
    exact h.grows hgrows
  · intro c c' call p n hadv h
    exact h.advance hadv n
  · intro c call role outcome hrole h
    exact h.finish hrole outcome

/-- Every call that worked on a slot and returned, returned the result of the slot. -/
theorem ready_of_returned (hseen : (ofLimit limit).WorkedOn ms i j)
    (hcall : ((ofLimit limit).run ms).calls[i]? = some call) (hr : call.phase = .returned r) :
    ((ofLimit limit).run ms).cache.slot j = .ready r := by
  obtain ⟨-, hstands⟩ := standsBy_of_workedOn hseen hcall
  rcases hstands with hj | ⟨r', hr', hphase⟩ | hfailed
  · rw [hr] at hj
    cases hj
  · rw [hr] at hphase
    rcases hphase with h | h
    · cases h
    · cases h
      exact hr'
  · rw [hr] at hfailed
    cases hfailed

/-! ## How an owner resolves its slot -/

section Resolve

variable {j : Nat} {v : Slot α}

/-- After its computation, an owner resolves the slot with its next step. -/
theorem resolves_of_resolution (hcall : s.calls[i]? = some call)
    (hres : call.phase.resolution? = some (j, v)) (hlt : j < s.cache.slots.size) :
    (s.step (.advance i)).cache.slot j ≠ .pending ∧
      ∃ call', (s.step (.advance i)).calls[i]? = some call' ∧ call'.phase.Over := by
  obtain ⟨p, c, hadv⟩ :=
    Phase.exists_advance?_of_resolution? (k := call.key) (c := s.cache) hres
  obtain ⟨hslot, hover⟩ := (Phase.advances_of_advance? hadv).resolves hres hlt
  have hcall' := getElem?_setCall_self hcall (call.into s.started p)
  rw [step_advance_of_some hcall hadv]
  exact ⟨hslot, _, hcall', hover⟩

/-- While it computes, an owner resolves the slot with the step after its computation. -/
theorem resolves_of_computing (hcall : s.calls[i]? = some call)
    (hrole : call.phase = .computing (.owner j)) (hlt : j < s.cache.slots.size)
    (outcome : Option α) :
    (s.run [.finish i outcome, .advance i]).cache.slot j ≠ .pending := by
  have hcall' := getElem?_setCall_self hcall
    { call with phase := Phase.afterCompute (.owner j) outcome }
  rw [← step_finish_of_computing outcome hcall hrole] at hcall'
  have hlt' := lt_of_lt_of_le hlt (grows_step s (.finish i outcome)).slots
  obtain ⟨v, hv⟩ := Phase.exists_resolution?_afterCompute j outcome
  exact (resolves_of_resolution hcall' hv hlt').1

/-- Three moves of an owner, its computation among them, resolve its slot. -/
theorem resolves_of_holds (hcall : s.calls[i]? = some call) (hholds : call.phase.Holds j)
    (hlt : j < s.cache.slots.size) (outcome : Option α) :
    (s.run [.advance i, .finish i outcome, .advance i]).cache.slot j ≠ .pending := by
  rcases hholds with (hinherit | hrole) | ⟨v, hres⟩
  · have hadv : call.phase.advance? call.key s.cache =
        some (.computing (.owner j), { s.cache with budget := s.cache.budget.release }) := by
      rw [hinherit]
      rfl
    have hcall' := getElem?_setCall_self hcall (call.into s.started (.computing (.owner j)))
    have hstep := step_advance_of_some hcall hadv
    have hcompute : (s.step (.advance i)).calls[i]? =
        some (call.into s.started (.computing (.owner j))) := by
      rw [hstep]
      exact hcall'
    have hlt' := lt_of_lt_of_le hlt (grows_step s (.advance i)).slots
    exact resolves_of_computing hcompute rfl hlt' outcome
  · have hstep : s.step (.advance i) = s :=
      step_advance_of_none hcall (by rw [hrole]; rfl)
    have hrun := resolves_of_computing hcall hrole hlt outcome
    rw [← hstep] at hrun
    exact hrun
  · -- the slot is resolved by the first move, and the two others do nothing
    obtain ⟨hslot, call', hcall', hover⟩ := resolves_of_resolution hcall hres hlt
    have hfinish := step_finish_of_ne outcome hcall' hover.ne_computing
    have hadvance := step_advance_of_none hcall' (hover.advance?_eq_none _ _)
    show ((((s.step (.advance i)).step (.finish i outcome)).step (.advance i)).cache).slot j ≠ _
    rw [hfinish, hadvance]
    exact hslot

theorem resolves_of_owns (howns : (ofLimit limit).Owns ms i j) (outcome : Option α) :
    (((ofLimit limit).run ms).run
      [.advance i, .finish i outcome, .advance i]).cache.slot j ≠ .pending := by
  obtain ⟨-, call, hcall, hholds⟩ := howns
  exact resolves_of_holds hcall hholds (lt_size_of_slot? hcall hholds.slot?) outcome

end Resolve

/-! ## How an abandoned slot is taken over -/

/-- The next step of a call, as one sees it afterwards. -/
theorem exists_call_of_advance? {p : Phase α} {c : Cache α} (hcall : s.calls[i]? = some call)
    (hadv : call.phase.advance? call.key s.cache = some (p, c)) :
    ∃ call', (s.step (.advance i)).calls[i]? = some call' ∧ call'.phase = p ∧
      (s.step (.advance i)).cache = c := by
  rw [step_advance_of_some hcall hadv]
  exact ⟨_, getElem?_setCall_self hcall _, rfl, rfl⟩

/-- A waiting call that sees its slot abandoned tries to take it over with its next move. -/
theorem bereft_of_waiting (hcall : s.calls[i]? = some call) (hphase : call.phase = .waiting j)
    (hj : s.cache.slot j = .abandoned) :
    ∃ call', (s.step (.advance i)).calls[i]? = some call' ∧ call'.phase = .bereft j ∧
      (s.step (.advance i)).cache = s.cache := by
  refine exists_call_of_advance? hcall ?_
  simp [hphase, Phase.advance?, hj]

/-- A call that tries to take an abandoned slot over owns it from then on. -/
theorem owns_of_reclaims {back : Phase α} (hcall : (s.run ms).calls[i]? = some call)
    (h : call.phase.Reclaims j back) (hj : (s.run ms).cache.slot j = .abandoned) :
    s.Owns (ms ++ [.advance i]) i j ∧
      (s.run (ms ++ [.advance i])).cache.slot j = .pending := by
  obtain ⟨p, hadv, htakes⟩ := h.advance?_of_abandoned call.key hj
  obtain ⟨call', hcall', hphase, hcache⟩ := exists_call_of_advance? hcall hadv
  have hlt : j < (s.run ms).cache.slots.size :=
    Cache.lt_size_of_slot_ne_pending (by simp [hj])
  rw [← run_append_singleton] at hcall' hcache
  refine ⟨owns_of_takes hcall' (hphase ▸ htakes), ?_⟩
  rw [hcache]
  simp [hlt]

/-- Where another call was faster, a call that tries to take the slot over leaves all slots as
they are and waits again. -/
theorem back_of_reclaims {back : Phase α} (hcall : s.calls[i]? = some call)
    (h : call.phase.Reclaims j back) (hj : s.cache.slot j ≠ .abandoned) :
    ∃ call', (s.step (.advance i)).calls[i]? = some call' ∧ call'.phase = back ∧
      (s.step (.advance i)).cache = s.cache :=
  exists_call_of_advance? hcall (h.advance?_of_ne call.key hj)

/-! ## How often the result of a slot is computed -/

/-- A call computes at most once. -/
theorem computation_eq_of_seen
    (hseen : s.Seen ms i fun call => call.computation = some n ∧
      ∃ role, call.phase = .computing role)
    (hcall : (s.run ms).calls[i]? = some call) : call.computation = some n := by
  refine (of_seen (Q := fun _ call => call.computation = some n ∧ call.phase.IsLate)
    ?_ (fun _ _ _ _ h => h) ?_ ?_ hseen hcall).1
  · rintro before call - ⟨hn, hrole⟩
    exact ⟨hn, Or.inl hrole⟩
  · rintro c c' call p number hadv ⟨hn, hlate⟩
    have hover := hadv.of_isLate hlate
    refine ⟨?_, Or.inr (Or.inr hover)⟩
    rw [Call.into, hover.isComputing_eq_false]
    exact hn
  · rintro c call role outcome - ⟨hn, -⟩
    exact ⟨hn, Phase.isLate_afterCompute role outcome⟩

/-- Only a call that gives its slot up makes it abandoned. -/
theorem seen_abandoning_of_abandoned
    (hj : ((ofLimit limit : CallSystem α).run ms).cache.slot j = .abandoned) :
    ∃ i, (ofLimit limit : CallSystem α).Seen ms i fun call => call.phase = .abandoning j := by
  have hne : ((ofLimit limit : CallSystem α).run ms).cache.slot j ≠ .pending := by simp [hj]
  obtain ⟨i, hi⟩ := seen_resolution hne
  refine ⟨i, hi.imp fun call hres => ?_⟩
  rw [hj] at hres
  cases hphase : call.phase with
  | abandoning i =>
    rw [hphase] at hres
    cases hres
    rfl
  | _ =>
    rw [hphase] at hres
    cases hres

/-- A slot that no owner gave up was taken by one call only. -/
theorem seen_takes_unique
    (hkept : ∀ i, ¬ (ofLimit limit : CallSystem α).Seen ms i
      fun call => call.phase = .abandoning j)
    (hi : (ofLimit limit).Seen ms i fun call => call.phase.Takes j)
    (hi' : (ofLimit limit).Seen ms i' fun call => call.phase.Takes j) : i = i' := by
  induction ms using List.reverseRecOn generalizing i i' with
  | nil => exact absurd hi (not_seen_nil rfl)
  | append_singleton ms m ih =>
    have hkept' : ∀ i, ¬ (ofLimit limit : CallSystem α).Seen ms i
        fun call => call.phase = .abandoning j := fun i h =>
      hkept i (seen_append_singleton.2 (Or.inl h))
    -- the last move takes the slot only by making it, so nobody took it before
    have hfresh : ∀ {call : Call α} {p : Phase α} {c' : Cache α},
        call.phase.Advances call.key ((ofLimit limit).run ms).cache p c' → p.Takes j →
        ¬ call.phase.Takes j → ∀ x, ¬ (ofLimit limit).Seen ms x
          fun call => call.phase.Takes j := by
      intro call p c' hadv htakes hnew x hx
      rcases hadv.takes htakes with hold | habandoned | hsize
      · exact hnew hold
      · obtain ⟨y, hy⟩ := seen_abandoning_of_abandoned habandoned
        exact hkept' y hy
      · have hlt := lt_size_of_workedOn (hx.imp fun call h => h.slot?)
        exact absurd hlt (Nat.not_lt.2 hsize)
    rcases seen_takes_append hi with hbefore | ⟨call, p, rfl, -, hadv, htakes, hnew⟩
    · rcases seen_takes_append hi' with hbefore' | ⟨call, p, rfl, -, hadv, htakes, hnew⟩
      · exact ih hkept' hbefore hbefore'
      · exact absurd hbefore (hfresh hadv htakes hnew i)
    · rcases seen_takes_append hi' with hbefore' | ⟨call', p', hsame, -⟩
      · exact absurd hbefore' (hfresh hadv htakes hnew i')
      · exact Move.advance.inj hsame

/-- Without calls that were refused a permit, whoever computed for a slot had taken it. -/
theorem ComputedFor.takes (h : s.ComputedFor ms i n j)
    (hadmitted : ¬ s.Seen ms i fun call => call.phase = .computing (.bystander j)) :
    s.Seen ms i fun call => call.phase.Takes j := by
  obtain ⟨before, hbefore, call, hcall, -, ⟨role, hrole⟩, hj⟩ := h
  refine ⟨before, hbefore, call, hcall, Or.inr ?_⟩
  rw [hrole] at hj
  cases role with
  | outsider => cases hj
  | owner i =>
    cases hj
    exact hrole
  | bystander i =>
    cases hj
    exact absurd ⟨before, hbefore, call, hcall, hrole⟩ hadmitted

theorem computedFor_of_ended {role : Role} {k : Key} (h : s.Ended ms i role k n r)
    (hj : (Phase.computing role : Phase α).slot? = some j) : s.ComputedFor ms i n j := by
  obtain ⟨before, after, rfl, hcall⟩ := h
  exact ⟨before, List.prefix_append _ _, _, hcall, rfl, ⟨role, rfl⟩, hj⟩

/-! ## The slot protocol -/

/-- What holds of slot `j` and the calls that worked on it after the run `ms`. -/
structure SlotProtocol (s : CallSystem α) (ms : List (Move α)) (j : Nat) : Prop where
  /-- A result stays, whatever moves follow. -/
  stays : ∀ r, (s.run ms).cache.slot j = .ready r →
    ∀ ms', (s.run (ms ++ ms')).cache.slot j = .ready r
  /-- A call that returned from the slot, returned the result that is there. -/
  returns : ∀ i call r, s.WorkedOn ms i j → (s.run ms).calls[i]? = some call →
    call.phase = .returned r → (s.run ms).cache.slot j = .ready r
  one_owner : ∀ i i', s.Owns ms i j → s.Owns ms i' j → i = i'
  /-- Nobody works on a slot that was not made. -/
  made : ∀ i, s.WorkedOn ms i j → j < (s.run ms).cache.slots.size
  /-- A pending slot has an owner.  Whatever its computation comes to, its own next moves
  resolve the slot. -/
  owned : j < (s.run ms).cache.slots.size → (s.run ms).cache.slot j = .pending →
    ∃ i, s.Owns ms i j ∧ ∀ outcome,
      ((s.run ms).run [.advance i, .finish i outcome, .advance i]).cache.slot j ≠ .pending
  ownerless : (s.run ms).cache.slot j = .abandoned → ∀ i, ¬ s.Owns ms i j
  /-- A waiting call that finds the slot abandoned tries to take it over. -/
  noticed : ∀ i call, (s.run ms).calls[i]? = some call → call.phase = .waiting j →
    (s.run ms).cache.slot j = .abandoned →
    ∃ call', (s.run (ms ++ [.advance i])).calls[i]? = some call' ∧ call'.phase = .bereft j ∧
      (s.run (ms ++ [.advance i])).cache.slot j = .abandoned
  /-- A call that tries to take the abandoned slot over is its owner, and the slot is pending
  again. -/
  reclaimed : ∀ i call back, (s.run ms).calls[i]? = some call → call.phase.Reclaims j back →
    (s.run ms).cache.slot j = .abandoned →
    s.Owns (ms ++ [.advance i]) i j ∧ (s.run (ms ++ [.advance i])).cache.slot j = .pending
  /-- A call that comes too late to take the slot over goes back to waiting and changes
  nothing. -/
  outrun : ∀ i call back, (s.run ms).calls[i]? = some call → call.phase.Reclaims j back →
    (s.run ms).cache.slot j ≠ .abandoned →
    ∃ call', (s.run (ms ++ [.advance i])).calls[i]? = some call' ∧ call'.phase = back ∧
      (s.run (ms ++ [.advance i])).cache = (s.run ms).cache
  /-- If no computation of an owner failed and no call was refused a permit, there was at most
  one computation, and there was one if a call has returned. -/
  once : (∀ i, ¬ s.Seen ms i fun call => call.phase = .abandoning j) →
    (∀ i, ¬ s.Seen ms i fun call => call.phase = .computing (.bystander j)) →
    (∀ i n i' n', s.ComputedFor ms i n j → s.ComputedFor ms i' n' j → i = i' ∧ n = n') ∧
    ∀ i call r, s.WorkedOn ms i j → (s.run ms).calls[i]? = some call →
      call.phase = .returned r → ∃ i n, s.ComputedFor ms i n j

/-- Every slot keeps the protocol in every run. -/
theorem slot_protocol (limit : Nat) (ms : List (Move α)) (j : Nat) :
    (ofLimit limit).SlotProtocol ms j where
  stays r hr ms' := by
    rw [run_append]
    exact (grows_run _ ms').ready j r hr
  returns i call r hseen hcall hr := ready_of_returned hseen hcall hr
  one_owner i i' hi hi' := (ownership_run limit ms).unique i i' j hi hi'
  made i hseen := lt_size_of_workedOn hseen
  owned hlt hpending := by
    obtain ⟨i, howns⟩ := (ownership_run limit ms).owned j hlt hpending
    exact ⟨i, howns, resolves_of_owns howns⟩
  ownerless habandoned i := (ownership_run limit ms).ownerless i j habandoned
  noticed i call hcall hphase hj := by
    obtain ⟨call', hcall', hbereft, hcache⟩ := bereft_of_waiting hcall hphase hj
    rw [run_append_singleton]
    exact ⟨call', hcall', hbereft, by rw [hcache, hj]⟩
  reclaimed i call back hcall h hj := owns_of_reclaims hcall h hj
  outrun i call back hcall h hj := by
    rw [run_append_singleton]
    exact back_of_reclaims hcall h hj
  once hkept hadmitted := by
    constructor
    · intro i n i' n' hi hi'
      obtain rfl : i = i' :=
        seen_takes_unique hkept (hi.takes (hadmitted i)) (hi'.takes (hadmitted i'))
      obtain ⟨call, hcall⟩ := exists_call_of_seen hi
      have hn := computation_eq_of_seen (hi.imp fun call h => ⟨h.1, h.2.1⟩) hcall
      have hn' := computation_eq_of_seen (hi'.imp fun call h => ⟨h.1, h.2.1⟩) hcall
      exact ⟨rfl, Option.some.inj (hn.symm.trans hn')⟩
    · intro i call r hseen hcall hr
      obtain ⟨i', role, k, n, hended, hj⟩ := ended_of_ready (ready_of_returned hseen hcall hr)
      exact ⟨i', n, computedFor_of_ended hended hj⟩

/-- Two calls for one key; the second one waits while the first one computes. -/
def sharedRun : List (Move Nat) :=
  [.call default, .call default, .advance 0, .advance 0, .advance 1, .advance 1, .advance 1,
    .advance 1, .advance 1, .advance 1, .finish 0 (some 7), .advance 0, .advance 1, .advance 1]

/-- In `sharedRun` nobody gives up and nobody is refused a permit, so there is exactly one
computation, and both calls return its result. -/
theorem slot_protocol_of_shared_run :
    (∀ i, ¬ (ofLimit 1).Seen sharedRun i fun call => call.phase = .abandoning 0) ∧
      (∀ i, ¬ (ofLimit 1).Seen sharedRun i fun call => call.phase = .computing (.bystander 0)) ∧
      ((ofLimit 1).run sharedRun).results = [7, 7] ∧
      (∃! n, ∃ i, (ofLimit 1).ComputedFor sharedRun i n 0) := by
  have hkept : ∀ i, ¬ (ofLimit 1).Seen sharedRun i fun call => call.phase = .abandoning 0 :=
    not_seen_of_lt (by decide +kernel)
  have hadmitted : ∀ i, ¬ (ofLimit 1).Seen sharedRun i
      fun call => call.phase = .computing (.bystander 0) :=
    not_seen_of_lt (by decide +kernel)
  have hworked : (ofLimit 1).WorkedOn sharedRun 0 0 :=
    ⟨sharedRun.take 4, List.take_prefix _ _, _, rfl, rfl⟩
  obtain ⟨hone, hsome⟩ := (slot_protocol 1 sharedRun 0).once hkept hadmitted
  obtain ⟨i, n, hn⟩ := hsome 0 _ 7 hworked rfl rfl
  refine ⟨hkept, hadmitted, by decide +kernel, n, ⟨i, hn⟩, ?_⟩
  rintro n' ⟨i', hn'⟩
  exact (hone i' n' i n hn' hn).2

end CallSystem
end PathFacts
