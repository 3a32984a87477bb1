import PathFacts.Proofs.Cache.Freshness

/-!
# Where a result comes from

A call returns what was computed for its own key: by itself, or by a call that met it in a
slot, and all calls that ever work on a slot have the key of the slot.  After a container was
forgotten, a call made from then on gets what was computed from then on, however long the
computations of earlier calls go on and wherever they publish.

A look-up that computes nothing (`CallSystem.Peeked`) is three reads, and other calls may move
between them.  Removing all containers one after the other instead of at once is a sequence of
`Move.forget` with other moves in between, so that it needs no case of its own.

Results are values.  When two computations come to the same value, nothing tells them apart,
and the statements are about some computation of that value; with a type of results that tells
computations apart, they are about the one it was.
-/

namespace PathFacts

variable {α : Type}

/-- The generation that is stored for a container. -/
def Cache.generation? (c : Cache α) (container : ContainerId) : Option UInt64 :=
  c.containers[container]?.map fun i => (c.shelf i).generation

namespace Cache

variable {c c' : Cache α} {container : ContainerId} {g : UInt64}

theorem generation?_eq_some_iff : c.generation? container = some g ↔
    ∃ i, c.containers[container]? = some i ∧ (c.shelf i).generation = g := by
  simp [generation?]

/-- Where the containers stay as they are, so do the generations. -/
theorem Grows.generation? (h : c.Grows c') (hcontainers : c'.containers = c.containers)
    (hvalid : ∀ i, c.containers[container]? = some i → i < c.shelves.size)
    (hg : c.generation? container = some g) : c'.generation? container = some g := by
  obtain ⟨i, hi, rfl⟩ := generation?_eq_some_iff.1 hg
  refine generation?_eq_some_iff.2 ⟨i, ?_, h.generation i (hvalid i hi)⟩
  rw [hcontainers]
  exact hi

end Cache

/-- The stored generation does not decrease in the next step of a call. -/
theorem Phase.Advances.generation? {k : Key} {c c' : Cache α} {p p' : Phase α}
    {container : ContainerId} {g : UInt64} (h : p.Advances k c p' c')
    (hvalid : ∀ i, c.containers[container]? = some i → i < c.shelves.size)
    (hg : c.generation? container = some g) :
    ∃ g', c'.generation? container = some g' ∧ g ≤ g' := by
  cases h with
  | putUp hearlier =>
    obtain ⟨i, hi, rfl⟩ := Cache.generation?_eq_some_iff.1 hg
    by_cases hsame : k.container = container
    · subst hsame
      refine ⟨k.generation, Cache.generation?_eq_some_iff.2 ⟨c.shelves.size, ?_, ?_⟩, ?_⟩
      · rw [Cache.containers_putShelf, if_pos rfl]
      · rw [Cache.shelf_putShelf, if_pos rfl]
      · exact UInt64.le_of_lt (hearlier i hi)
    · refine ⟨_, Cache.generation?_eq_some_iff.2 ⟨i, ?_, ?_⟩, UInt64.le_refl _⟩
      · rw [Cache.containers_putShelf, if_neg hsame]
        exact hi
      · rw [Cache.shelf_putShelf, if_neg (Nat.ne_of_lt (hvalid i hi))]
  | make => exact ⟨g, (Cache.Grows.makeSlot c _ _).generation? rfl hvalid hg, UInt64.le_refl g⟩
  | _ => exact ⟨g, hg, UInt64.le_refl g⟩

/-- A call hands out a result that it found in the slot it worked on, or that it had already. -/
theorem Phase.Advances.source {k : Key} {c c' : Cache α} {p p' : Phase α} {r : α}
    (h : p.Advances k c p' c') (hr : p' = served r ∨ p' = returned r) :
    (∃ j, p.slot? = some j) ∨ p = served r := by
  cases h with
  | hit | serve | publish | converge => exact Or.inl ⟨_, rfl⟩
  | leave =>
    rcases hr with hr | hr
    · cases hr
    · cases hr
      exact Or.inr rfl
  | _ => rcases hr with hr | hr <;> cases hr

namespace CallSystem

/-! ## Keys over time -/

section Keys

variable {s : CallSystem α} {limit : Nat} {ms : List (Move α)} {i j n : Nat} {call call' : Call α}
  {role : Role} {k : Key} {r : α} {l : Labels}

/-- A call asks for the same key all the time. -/
theorem key_of_seen (hseen : s.Seen ms i fun call => call.key = k)
    (hcall : (s.run ms).calls[i]? = some call) : call.key = k :=
  of_seen (Q := fun _ call => call.key = k) (fun _ _ _ h => h) (fun _ _ _ _ h => h)
    (fun _ _ _ _ _ _ h => h) (fun _ _ _ _ _ h => h) hseen hcall

/-- A call that ever worked on a slot has the key of the slot. -/
theorem key_of_workedOn
    (hl : ∀ before, before <+: ms → Labelled l ((ofLimit limit).run before))
    (hseen : (ofLimit limit).WorkedOn ms i j)
    (hcall : ((ofLimit limit).run ms).calls[i]? = some call) : l.key j = call.key := by
  obtain ⟨before, hbefore, call₀, hcall₀, hj⟩ := hseen
  have hlabel := ((hl before hbefore).call_slot i call₀ j hcall₀ hj).2
  have hkey : call.key = call₀.key := key_of_seen ⟨before, hbefore, call₀, hcall₀, rfl⟩ hcall
  exact hlabel.trans hkey.symm

theorem key_of_ended
    (hl : ∀ before, before <+: ms → Labelled l ((ofLimit limit : CallSystem α).run before))
    (h : (ofLimit limit).Ended ms i role k n r)
    (hj : (Phase.computing role : Phase α).slot? = some j) : l.key j = k := by
  obtain ⟨before, after, rfl, hcall⟩ := h
  exact ((hl before (List.prefix_append _ _)).call_slot i _ j hcall hj).2

end Keys

/-! ## Results over time -/

section Results

variable {limit : Nat} {ms₀ ms : List (Move α)} {i j n : Nat} {call : Call α} {role : Role}
  {k : Key} {r : α} {l : Labels} {c : ContainerId}

/-- The result of a call comes from a slot that it worked on, or it computed it by itself. -/
theorem source_of_result (hcall : ((ofLimit limit).run ms).calls[i]? = some call)
    (hr : call.phase = .served r ∨ call.phase = .returned r) :
    (∃ j, (ofLimit limit).WorkedOn ms i j) ∨
      ∃ n, (ofLimit limit).Ended ms i .outsider call.key n r := by
  induction ms using List.reverseRecOn generalizing call with
  | nil => simp [ofLimit] at hcall
  | append_singleton ms m ih =>
    have hearlier : ∀ call₀ : Call α, ((ofLimit limit).run ms).calls[i]? = some call₀ →
        (call₀.phase = .served r ∨ call₀.phase = .returned r) → call₀.key = call.key →
        (∃ j, (ofLimit limit).WorkedOn (ms ++ [m]) i j) ∨
          ∃ n, (ofLimit limit).Ended (ms ++ [m]) i .outsider call.key n r := by
      intro call₀ hcall₀ hr₀ hkey
      rcases ih hcall₀ hr₀ with ⟨j, hj⟩ | ⟨n, hn⟩
      · exact Or.inl ⟨j, seen_append_singleton.2 (Or.inl hj)⟩
      · rw [hkey] at hn
        exact Or.inr ⟨n, hn.append [m]⟩
    rw [run_append_singleton] at hcall
    rcases call_of_step hcall with hsame | ⟨-, hstart⟩ |
      ⟨call₀, p, -, hcall₀, rfl, hadv⟩ | ⟨call₀, role, outcome, rfl, hcall₀, hrole, rfl⟩
    · exact hearlier call hsame hr rfl
    · rw [hstart] at hr
      rcases hr with hr | hr <;> cases hr
    · rcases hadv.source hr with ⟨j, hj⟩ | hserved
      · exact Or.inl ⟨j, seen_append_singleton.2 (Or.inl (seen_of_now hcall₀ hj))⟩
      · exact hearlier call₀ hcall₀ (Or.inl hserved) rfl
    · obtain ⟨n, hn⟩ := computation_of_computing hcall₀ hrole
      have hpair : role = .outsider ∧ outcome = some r := by
        rcases hr with hr | hr <;> cases role <;> cases outcome <;> cases hr
        exact ⟨rfl, rfl⟩
      obtain ⟨rfl, rfl⟩ := hpair
      obtain ⟨key, phase, computation⟩ := call₀
      obtain rfl : phase = .computing .outsider := hrole
      obtain rfl : computation = some n := hn
      exact Or.inr ⟨n, ms, [], rfl, hcall₀⟩

/-- A computation of a new call, or for a new slot, was started since. -/
theorem started_le_of_ended (hms₀ : ms₀ <+: ms) (h : (ofLimit limit).Ended ms i role k n r)
    (hnew : ((ofLimit limit : CallSystem α).run ms₀).calls.size ≤ i ∨
      ∃ j, (Phase.computing role : Phase α).slot? = some j ∧
        ((ofLimit limit : CallSystem α).run ms₀).cache.slots.size ≤ j) :
    ((ofLimit limit : CallSystem α).run ms₀).started ≤ n := by
  obtain ⟨before, after, rfl, hcall⟩ := h
  rcases List.prefix_or_prefix_of_prefix hms₀ (List.prefix_append before _) with
    ⟨since, rfl⟩ | hbefore
  · rw [run_append] at hcall
    exact started_le_of_new (fun x call j hcall hj => lt_size_of_slot? hcall hj) hcall rfl rfl hnew
  · -- the computation had begun by then, so neither the call nor the slot is new
    rcases hnew with hi | ⟨j, hj, hsize⟩
    · exact absurd (lt_size_of_earlier hbefore hcall) (Nat.not_lt.2 hi)
    · have hlt := lt_size_of_workedOn ⟨before, hbefore, _, hcall, hj⟩
      exact absurd hlt (Nat.not_lt.2 hsize)

/-- The result in a slot was computed for its key; if the slot is new, since. -/
theorem produced_of_ready (hms₀ : ms₀ <+: ms)
    (hl : ∀ before, before <+: ms → Labelled l ((ofLimit limit).run before))
    (hj : ((ofLimit limit).run ms).cache.slot j = .ready r) :
    ∃ n, (ofLimit limit).Produced ms (l.key j) n r ∧
      (((ofLimit limit : CallSystem α).run ms₀).cache.slots.size ≤ j →
        ((ofLimit limit : CallSystem α).run ms₀).started ≤ n) := by
  obtain ⟨i, role, k, n, hended, hslot⟩ := ended_of_ready hj
  obtain rfl := key_of_ended hl hended hslot
  refine ⟨n, ⟨i, role, hended⟩, fun hsize => ?_⟩
  exact started_le_of_ended hms₀ hended (Or.inr ⟨j, hslot, hsize⟩)

/-- A call made when its container had been forgotten returns what was computed since. -/
theorem produced_of_returned (hms₀ : ms₀ <+: ms)
    (hnone : ((ofLimit limit : CallSystem α).run ms₀).cache.containers[c]? = none)
    (hi : ((ofLimit limit : CallSystem α).run ms₀).calls.size ≤ i)
    (hcall : ((ofLimit limit).run ms).calls[i]? = some call) (hc : call.key.container = c)
    (hr : call.phase = .returned r) :
    ∃ n, ((ofLimit limit : CallSystem α).run ms₀).started ≤ n ∧
      (ofLimit limit).Produced ms call.key n r := by
  rcases source_of_result hcall (Or.inr hr) with ⟨j, hworked⟩ | ⟨n, hended⟩
  · obtain ⟨l, hl⟩ := Labelled.exists_run limit ms
    have hready := ready_of_returned hworked hcall hr
    obtain ⟨n, hproduced, hsince⟩ := produced_of_ready hms₀ hl hready
    rw [key_of_workedOn hl hworked hcall] at hproduced
    refine ⟨n, hsince ?_, hproduced⟩
    obtain ⟨before, hbefore, call₀, hcall₀, hj⟩ := hworked
    have hkey : call.key = call₀.key := key_of_seen ⟨before, hbefore, call₀, hcall₀, rfl⟩ hcall
    rcases List.prefix_or_prefix_of_prefix hms₀ hbefore with ⟨since, rfl⟩ | hearly
    · rw [run_append] at hcall₀
      rw [hkey] at hc
      exact (fresh_run hnone since).call_slot i call₀ j hi hcall₀ hc hj
    · exact absurd (lt_size_of_earlier hearly hcall₀) (Nat.not_lt.2 hi)
  · exact ⟨n, started_le_of_ended hms₀ hended (Or.inl hi), i, .outsider, hended⟩

/-- Whether a look-up for `k` that reads the container after `ms₁`, the shelf after `ms₂` and
the slot after `ms` finds the result `r`. -/
def Peeked (s : CallSystem α) (ms₁ ms₂ ms : List (Move α)) (k : Key) (r : α) : Prop :=
  ms₁ <+: ms₂ ∧ ms₂ <+: ms ∧ ∃ i j,
    (s.run ms₁).cache.containers[k.container]? = some i ∧
    ((s.run ms₁).cache.shelf i).generation = k.generation ∧
    ((s.run ms₂).cache.shelf i).slots[k.unit]? = some j ∧
    (s.run ms).cache.slot j = .ready r

/-- `Cache.lookup` reads everything at one time. -/
theorem peeked_of_lookup {s : CallSystem α} (h : (s.run ms).cache.lookup k = some r) :
    s.Peeked ms ms ms k r :=
  ⟨List.prefix_rfl, List.prefix_rfl, Cache.lookup_eq_some_iff.1 h⟩

/-- A look-up that began when the container had been forgotten finds what was computed since. -/
theorem produced_of_peeked {ms₁ ms₂ : List (Move α)} (hms₀ : ms₀ <+: ms₁)
    (hnone : ((ofLimit limit : CallSystem α).run ms₀).cache.containers[k.container]? = none)
    (h : (ofLimit limit).Peeked ms₁ ms₂ ms k r) :
    ∃ n, ((ofLimit limit : CallSystem α).run ms₀).started ≤ n ∧
      (ofLimit limit).Produced ms k n r := by
  obtain ⟨h₁₂, h₂, i, j, hi, hgeneration, hj, hr⟩ := h
  have h₁ := h₁₂.trans h₂
  obtain ⟨l, hl⟩ := Labelled.exists_run limit ms
  obtain ⟨n, hproduced, hsince⟩ := produced_of_ready (hms₀.trans h₁) hl hr
  obtain ⟨hlt, hcontainer⟩ := (hl ms₁ h₁).container_shelf _ i hi
  have hlabel := ((hl ms₂ h₂).shelf_slot i _ j hj).2
  have hkey : l.key j = k := by
    obtain ⟨since, rfl⟩ := h₁₂
    have hsame := (grows_run ((ofLimit limit : CallSystem α).run ms₁) since).generation i hlt
    rw [← run_append] at hsame
    rw [hlabel, hcontainer, hsame, hgeneration]
  rw [hkey] at hproduced
  refine ⟨n, hsince ?_, hproduced⟩
  obtain ⟨since, rfl⟩ := hms₀
  rw [run_append] at hi
  have hnew := (fresh_run hnone since).container_shelf i hi
  obtain ⟨later, rfl⟩ := h₁₂
  rw [List.append_assoc, run_append] at hj
  exact (fresh_run hnone (since ++ later)).shelf_slot i _ j hnew hj

end Results

/-! ## Generations -/

section Generations

variable {s : CallSystem α} {limit : Nat} {ms : List (Move α)} {m : Move α} {i : Nat}
  {call : Call α} {c : ContainerId} {g : UInt64}

theorem generation?_step
    (hvalid : ∀ i, s.cache.containers[c]? = some i → i < s.cache.shelves.size)
    (hm : m ≠ .forget c ∧ m ≠ .forgetAll) (hg : s.cache.generation? c = some g) :
    ∃ g', (s.step m).cache.generation? c = some g' ∧ g ≤ g' := by
  rcases cache_of_step s m with hsame | ⟨x, call, p, -, -, -, hadv⟩ | ⟨c', rfl, hsame⟩ |
    ⟨rfl, -⟩
  · rw [hsame]
    exact ⟨g, hg, UInt64.le_refl g⟩
  · exact hadv.generation? hvalid hg
  · obtain ⟨i, hi, hi'⟩ := Cache.generation?_eq_some_iff.1 hg
    refine ⟨g, Cache.generation?_eq_some_iff.2 ⟨i, ?_, ?_⟩, UInt64.le_refl g⟩
    · have hne : c' ≠ c := fun h => hm.1 (by rw [h])
      rw [hsame, Cache.forget, Std.ExtTreeMap.getElem?_erase]
      simp [hne, hi]
    · rw [hsame]
      exact hi'
  · exact absurd rfl hm.2

/-- As long as a container is not removed, its generation does not decrease. -/
theorem generation?_run (hg : ((ofLimit limit : CallSystem α).run ms).cache.generation? c = some g)
    (ms' : List (Move α)) (hms' : ∀ m ∈ ms', m ≠ .forget c ∧ m ≠ .forgetAll) :
    ∃ g', ((ofLimit limit).run (ms ++ ms')).cache.generation? c = some g' ∧ g ≤ g' := by
  induction ms' using List.reverseRecOn with
  | nil =>
    rw [List.append_nil]
    exact ⟨g, hg, UInt64.le_refl g⟩
  | append_singleton ms' m ih =>
    obtain ⟨g', hg', hle⟩ := ih fun m hm => hms' m (List.mem_append_left _ hm)
    obtain ⟨l, hl⟩ := Labelled.exists_run limit (ms ++ ms')
    have hvalid := fun i hi => ((hl _ List.prefix_rfl).container_shelf c i hi).1
    obtain ⟨g'', hg'', hle'⟩ := generation?_step hvalid (hms' m (by simp)) hg'
    rw [← List.append_assoc, run_append_singleton]
    exact ⟨g'', hg'', UInt64.le_trans hle hle'⟩

/-- The end of a computation leaves the cache as it is. -/
theorem cache_step_finish (s : CallSystem α) (i : Nat) (outcome : Option α) :
    (s.step (.finish i outcome)).cache = s.cache := by
  rcases cache_of_step s (.finish i outcome) with hsame | ⟨x, call, p, hm, -⟩ | ⟨c, hm, -⟩ | ⟨hm, -⟩
  · exact hsame
  · cases hm
  · cases hm
  · cases hm

/-- A call that shares nothing never does. -/
theorem cache_step_of_outsider
    (hseen : s.Seen ms i fun call => call.phase = .computing .outsider) :
    ((s.run ms).step (.advance i)).cache = (s.run ms).cache := by
  obtain ⟨call, hcall⟩ := exists_call_of_seen hseen
  have hapart : call.phase = .computing .outsider ∨ call.phase.Over := by
    refine of_seen (Q := fun _ call => call.phase = .computing .outsider ∨ call.phase.Over)
      (fun _ _ _ h => Or.inl h) (fun _ _ _ _ h => h) ?_ ?_ hseen hcall
    · rintro c c' call p n hadv (hrole | hover)
      · rw [hrole] at hadv
        cases hadv
      · exact absurd hadv hover.not_advances
    · rintro c call role outcome hrole (hsame | hover)
      · rw [hrole] at hsame
        cases hsame
        cases outcome with
        | none => exact Or.inr (Or.inr rfl)
        | some r => exact Or.inr (Or.inl ⟨r, rfl⟩)
      · exact absurd hrole (hover.ne_computing role)
  rcases hapart with hrole | hover
  · rw [step_advance_of_none hcall (by rw [hrole]; rfl)]
  · rw [step_advance_of_none hcall (hover.advance?_eq_none _ _)]

/-- A call for an earlier generation than the stored one shares nothing. -/
theorem step_advance_of_earlier (hcall : s.calls[i]? = some call) (hstart : call.phase = .start)
    (hg : s.cache.generation? call.key.container = some g) (hlt : call.key.generation < g) :
    (s.step (.advance i)).cache = s.cache ∧
      (s.step (.advance i)).calls[i]? = some (call.into s.started (.computing .outsider)) := by
  obtain ⟨x, hx, rfl⟩ := Cache.generation?_eq_some_iff.1 hg
  have hadv : call.phase.advance? call.key s.cache = some (.computing .outsider, s.cache) := by
    rw [hstart, Phase.advance?, Cache.openShelf_of_gt hx hlt]
  have hcall' := getElem?_setCall_self hcall (call.into s.started (.computing .outsider))
  rw [step_advance_of_some hcall hadv]
  exact ⟨rfl, hcall'⟩

end Generations

/-! ## The protocol of the cache -/

/-- A move of call `i`. -/
def MoveOf (i : Nat) (m : Move α) : Prop := m = .advance i ∨ ∃ outcome, m = .finish i outcome

/-- What holds of results and generations after the run `ms`. -/
structure Provenance (s : CallSystem α) (ms : List (Move α)) : Prop where
  /-- A call returns what was computed for its key. -/
  call_own : ∀ (i : Nat) (call : Call α) (r : α), (s.run ms).calls[i]? = some call →
    call.phase = .returned r → ∃ n, s.Produced ms call.key n r
  /-- A look-up finds what was computed for its key. -/
  peek_own : ∀ ms₁ ms₂ k r, s.Peeked ms₁ ms₂ ms k r → ∃ n, s.Produced ms k n r
  /-- The generation of a container does not decrease until the container is removed. -/
  generation_le : ∀ c g, (s.run ms).cache.generation? c = some g →
    ∀ ms', (∀ m ∈ ms', m ≠ .forget c ∧ m ≠ .forgetAll) →
      ∃ g', (s.run (ms ++ ms')).cache.generation? c = some g' ∧ g ≤ g'
  /-- A call for an earlier generation than the stored one leaves the cache as it is, with the
  look-up of its container and with all that it does later. -/
  earlier : ∀ (i : Nat) (call : Call α) (g : UInt64), (s.run ms).calls[i]? = some call →
    call.phase = .start → (s.run ms).cache.generation? call.key.container = some g →
    call.key.generation < g →
    (s.run (ms ++ [.advance i])).cache = (s.run ms).cache ∧
    ∀ ms' m, MoveOf i m → (s.run (ms ++ [.advance i] ++ ms' ++ [m])).cache =
      (s.run (ms ++ [.advance i] ++ ms')).cache
  /-- A call that was made after a removal of its container returns what was computed since. -/
  call_fresh : ∀ c removal ms₀ ms', removal = .forget c ∨ removal = .forgetAll →
    ms = ms₀ ++ [removal] ++ ms' →
    ∀ (i : Nat) (call : Call α) (r : α), (s.run (ms₀ ++ [removal])).calls.size ≤ i →
    (s.run ms).calls[i]? = some call → call.key.container = c → call.phase = .returned r →
    ∃ n, (s.run (ms₀ ++ [removal])).started ≤ n ∧ s.Produced ms call.key n r
  /-- A look-up that began after a removal of its container finds what was computed since. -/
  peek_fresh : ∀ k removal ms₀, removal = .forget k.container ∨ removal = .forgetAll →
    ∀ ms₁ ms₂ r, ms₀ ++ [removal] <+: ms₁ → s.Peeked ms₁ ms₂ ms k r →
    ∃ n, (s.run (ms₀ ++ [removal])).started ≤ n ∧ s.Produced ms k n r

theorem containers_of_removal (s : CallSystem α) (ms : List (Move α)) {c : ContainerId}
    {removal : Move α} (h : removal = .forget c ∨ removal = .forgetAll) :
    (s.run (ms ++ [removal])).cache.containers[c]? = none := by
  rw [run_append_singleton]
  rcases h with rfl | rfl
  · show (((s.run ms).cache.forget c).containers)[c]? = none
    rw [Cache.forget, Std.ExtTreeMap.getElem?_erase]
    simp
  · show ((s.run ms).cache.forgetAll.containers)[c]? = none
    simp [Cache.forgetAll]

/-- No run hands out a result of another key, or one from before a removal. -/
theorem provenance (limit : Nat) (ms : List (Move α)) : (ofLimit limit).Provenance ms where
  call_own i call r hcall hr := by
    obtain ⟨n, -, hn⟩ := produced_of_returned (List.nil_prefix) (by simp [ofLimit, Cache.ofLimit])
      (Nat.zero_le i) hcall rfl hr
    exact ⟨n, hn⟩
  peek_own ms₁ ms₂ k r h := by
    obtain ⟨n, -, hn⟩ := produced_of_peeked (List.nil_prefix) (by simp [ofLimit, Cache.ofLimit]) h
    exact ⟨n, hn⟩
  generation_le c g hg ms' hms' := generation?_run hg ms' hms'
  earlier i call g hcall hstart hg hlt := by
    obtain ⟨hcache, hcall'⟩ := step_advance_of_earlier hcall hstart hg hlt
    rw [← run_append_singleton] at hcache hcall'
    refine ⟨hcache, fun ms' m hm => ?_⟩
    rw [run_append_singleton]
    rcases hm with rfl | ⟨outcome, rfl⟩
    · exact cache_step_of_outsider ⟨_, List.prefix_append _ _, _, hcall', rfl⟩
    · exact cache_step_finish _ i outcome
  call_fresh c removal ms₀ ms' hremoval hms i call r hi hcall hc hr := by
    have hnone := containers_of_removal (ofLimit limit) ms₀ hremoval
    have hprefix : ms₀ ++ [removal] <+: ms := ⟨ms', hms.symm⟩
    exact produced_of_returned hprefix hnone hi hcall hc hr
  peek_fresh k removal ms₀ hremoval ms₁ ms₂ r hprefix h :=
    produced_of_peeked hprefix (containers_of_removal (ofLimit limit) ms₀ hremoval) h

/-- A call that is overtaken by a removal of its container and publishes after it, and a second
call that was made in between. -/
def overtakenRun : List (Move Nat) :=
  [.call default, .advance 0, .advance 0, .forget ⟨0⟩, .call default, .advance 1, .advance 1,
    .finish 0 (some 1), .advance 0, .finish 1 (some 2), .advance 1]

/-- In `overtakenRun` the second call returns `2`, which was computed after the removal, and
not the `1` that was published for the same key in between. -/
theorem provenance_of_overtaken_run :
    ((ofLimit 0).run overtakenRun).results = [1, 2] ∧
      ∃ n, ((ofLimit 0).run (overtakenRun.take 4)).started ≤ n ∧
        (ofLimit 0).Produced overtakenRun default n 2 := by
  have hresults : ((ofLimit 0).run overtakenRun).results = [1, 2] := by decide +kernel
  have hfresh := (provenance 0 overtakenRun).call_fresh ⟨0⟩ (.forget ⟨0⟩)
    (overtakenRun.take 3) (overtakenRun.drop 4) (Or.inl rfl) rfl
  exact ⟨hresults, hfresh 1 ⟨default, .returned 2, some 1⟩ 2 (by decide +kernel) rfl rfl rfl⟩

end CallSystem
end PathFacts
