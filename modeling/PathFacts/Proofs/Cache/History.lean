import PathFacts.Proofs.Cache.Keys
import Mathlib.Data.List.Infix

/-!
# Looking back at a run

Some questions about a call are not answered by where it stands: whether it ever owned its
slot, or which computation its result came from.  `CallSystem.Seen` asks where a call stood at
some time of a run, and `CallSystem.Ended` which computation ended with a result.

`of_seen` leads from the past to the present: what follows from once having met a condition,
and is kept by every step, is the case now.  `finished_of_resolution` and `seen_resolution`
lead back: from a slot that is not pending to the call that resolved it, and from there to the
end of a computation; `ended_of_ready` is what they come to for a slot with a result.
-/

namespace PathFacts

variable {α : Type}

/-- The slot that a call is about to resolve, and how. -/
def Phase.resolution? : Phase α → Option (Nat × Slot α)
  | publishing j r => some (j, .ready r)
  | abandoning j => some (j, .abandoned)
  | _ => none

theorem Phase.slot?_of_resolution? {p : Phase α} {j : Nat} {v : Slot α}
    (h : p.resolution? = some (j, v)) : p.slot? = some j := by
  cases p with
  | publishing i r =>
    cases h
    rfl
  | abandoning i =>
    cases h
    rfl
  | _ => cases h

/-- A step resolves a slot only in the way its call was about to. -/
theorem Phase.Advances.slot_of_ne_pending {k : Key} {c c' : Cache α} {p p' : Phase α} {j : Nat}
    (h : p.Advances k c p' c') (hj : c'.slot j ≠ .pending) :
    c.slot j = c'.slot j ∨ p.resolution? = some (j, c'.slot j) := by
  cases h with
  | @takeOver _ i _ | @inherit _ i _ =>
    rw [Cache.slot_setSlot] at hj ⊢
    split
    · rename_i hi
      exact absurd (if_pos hi) hj
    · exact Or.inl rfl
  | @publish _ i r _ | @giveUp _ i _ =>
    rw [Cache.slot_setSlot]
    split
    · rename_i hi
      obtain ⟨rfl, -⟩ := hi
      exact Or.inr rfl
    · exact Or.inl rfl
  | make => exact Or.inl (Cache.slot_makeSlot _ _ _ _).symm
  | _ => exact Or.inl rfl

/-- No step leads a call to where it resolves a slot; only the end of a computation does. -/
theorem Phase.Advances.resolution?_eq_none {k : Key} {c c' : Cache α} {p p' : Phase α}
    (h : p.Advances k c p' c') : p'.resolution? = none := by
  cases h <;> rfl

namespace CallSystem

variable {s : CallSystem α} {ms : List (Move α)} {m : Move α} {i j : Nat} {P : Call α → Prop}

/-- Whether call `i` met `P` at some time of the run `ms`. -/
def Seen (s : CallSystem α) (ms : List (Move α)) (i : Nat) (P : Call α → Prop) : Prop :=
  ∃ before, before <+: ms ∧ ∃ call, (s.run before).calls[i]? = some call ∧ P call

/-- Whether computation number `n`, made by call `i` for `k`, ended with `r` in the run `ms`. -/
def Ended (s : CallSystem α) (ms : List (Move α)) (i : Nat) (role : Role) (k : Key) (n : Nat)
    (r : α) : Prop :=
  ∃ before after, ms = before ++ .finish i (some r) :: after ∧
    (s.run before).calls[i]? = some ⟨k, .computing role, some n⟩

/-- Whether some call for `k` computed `r`, as computation number `n`. -/
def Produced (s : CallSystem α) (ms : List (Move α)) (k : Key) (n : Nat) (r : α) : Prop :=
  ∃ i role, s.Ended ms i role k n r

theorem seen_of_now {call : Call α} (h : (s.run ms).calls[i]? = some call) (hP : P call) :
    s.Seen ms i P :=
  ⟨ms, List.prefix_rfl, call, h, hP⟩

theorem Seen.imp {Q : Call α → Prop} (h : s.Seen ms i P) (hPQ : ∀ call, P call → Q call) :
    s.Seen ms i Q := by
  obtain ⟨before, hbefore, call, hcall, hP⟩ := h
  exact ⟨before, hbefore, call, hcall, hPQ call hP⟩

theorem not_seen_nil (h : s.calls = #[]) : ¬ s.Seen [] i P := by
  rintro ⟨before, hbefore, call, hcall, -⟩
  obtain rfl := List.prefix_nil.1 hbefore
  simp [h] at hcall

/-- What was seen in a run was seen before its last move or is the case now. -/
theorem seen_append_singleton :
    s.Seen (ms ++ [m]) i P ↔
      s.Seen ms i P ∨ ∃ call, ((s.run ms).step m).calls[i]? = some call ∧ P call := by
  constructor
  · rintro ⟨before, hbefore, hcall⟩
    rcases List.prefix_concat_iff.1 hbefore with rfl | hbefore
    · rw [run_append_singleton] at hcall
      exact Or.inr hcall
    · exact Or.inl ⟨before, hbefore, hcall⟩
  · rintro (⟨before, hbefore, hcall⟩ | hcall)
    · exact ⟨before, hbefore.trans (List.prefix_append ms [m]), hcall⟩
    · rw [← run_append_singleton] at hcall
      exact ⟨ms ++ [m], List.prefix_rfl, hcall⟩

instance [DecidablePred P] : Decidable (s.Seen ms i P) :=
  decidable_of_iff (∃ before ∈ ms.inits, ∃ call ∈ (s.run before).calls[i]?, P call) <| by
    simp only [List.mem_inits, Option.mem_def, Seen]

/-! ## From the past to the present -/

theorem size_calls_le_step (s : CallSystem α) (m : Move α) :
    s.calls.size ≤ (s.step m).calls.size := by
  have hstep := s.steps m
  generalize s.step m = s' at hstep
  cases hstep with
  | call key =>
    rw [Array.size_push]
    exact Nat.le_succ _
  | advance | finish => exact Nat.le_of_eq Array.size_setIfInBounds.symm
  | _ => exact le_rfl

theorem lt_size_of_seen (h : s.Seen ms i P) : i < (s.run ms).calls.size := by
  induction ms using List.reverseRecOn with
  | nil =>
    obtain ⟨before, hbefore, call, hcall, -⟩ := h
    obtain rfl := List.prefix_nil.1 hbefore
    exact (Array.getElem?_eq_some_iff.1 hcall).1
  | append_singleton ms m ih =>
    rw [run_append_singleton]
    rcases seen_append_singleton.1 h with h | ⟨call, hcall, -⟩
    · exact lt_of_lt_of_le (ih h) (size_calls_le_step _ m)
    · exact (Array.getElem?_eq_some_iff.1 hcall).1

theorem lt_size_of_earlier {before : List (Move α)} {call : Call α} (h : before <+: ms)
    (hcall : (s.run before).calls[i]? = some call) : i < (s.run ms).calls.size :=
  lt_size_of_seen (P := fun _ => True) ⟨before, h, call, hcall, trivial⟩

/-- Nobody met `P` if none of the calls that were made did. -/
theorem not_seen_of_lt (h : ∀ i < (s.run ms).calls.size, ¬ s.Seen ms i P) (i : Nat) :
    ¬ s.Seen ms i P := by
  intro hseen
  exact h i (lt_size_of_seen hseen) hseen

theorem exists_call_of_seen (h : s.Seen ms i P) : ∃ call, (s.run ms).calls[i]? = some call :=
  ⟨_, Array.getElem?_eq_getElem (lt_size_of_seen h)⟩

/-- A condition that followed from `P` when it was met, and that is kept by the growth of the
cache, by the steps of the call and by the end of its computation, is the case now. -/
theorem of_seen {Q : Cache α → Call α → Prop}
    (hnow : ∀ before call, (s.run before).calls[i]? = some call → P call →
      Q (s.run before).cache call)
    (hgrows : ∀ c c' call, c.Grows c' → Q c call → Q c' call)
    (hadvance : ∀ c c' call p n, call.phase.Advances call.key c p c' → Q c call →
      Q c' (call.into n p))
    (hfinish : ∀ c call role outcome, call.phase = .computing role → Q c call →
      Q c { call with phase := Phase.afterCompute role outcome })
    (hseen : s.Seen ms i P) {call : Call α} (hcall : (s.run ms).calls[i]? = some call) :
    Q (s.run ms).cache call := by
  induction ms using List.reverseRecOn generalizing call with
  | nil =>
    obtain ⟨before, hbefore, call', hcall', hP⟩ := hseen
    obtain rfl := List.prefix_nil.1 hbefore
    obtain rfl := Option.some.inj (hcall'.symm.trans hcall)
    exact hnow [] _ hcall hP
  | append_singleton ms m ih =>
    rw [run_append_singleton] at hcall ⊢
    rcases seen_append_singleton.1 hseen with hbefore | ⟨call', hcall', hP⟩
    · rcases call_of_step hcall with hsame | ⟨hnew, -⟩ |
        ⟨call₀, p, rfl, hcall₀, rfl, hadv⟩ | ⟨call₀, role, outcome, rfl, hcall₀, hrole, rfl⟩
      · exact hgrows _ _ _ (grows_step _ m) (ih hbefore hsame)
      · exact absurd (lt_size_of_seen hbefore) (Nat.not_lt.2 hnew)
      · exact hadvance _ _ _ _ _ hadv (ih hbefore hcall₀)
      · exact hgrows _ _ _ (grows_step _ _) (hfinish _ _ _ _ hrole (ih hbefore hcall₀))
    · obtain rfl := Option.some.inj (hcall'.symm.trans hcall)
      have hhere : (s.run (ms ++ [m])).calls[i]? = some call' := by
        rw [run_append_singleton]
        exact hcall
      have hQ := hnow _ _ hhere hP
      rwa [run_append_singleton] at hQ

/-! ## From the present to the past -/

section FromEmpty

variable {limit : Nat}

/-- A call that computes has a number for its computation. -/
theorem computation_of_computing {call : Call α} {role : Role}
    (hcall : ((ofLimit limit).run ms).calls[i]? = some call)
    (hrole : call.phase = .computing role) : ∃ n, call.computation = some n := by
  induction ms using List.reverseRecOn generalizing call role with
  | nil => simp [ofLimit] at hcall
  | append_singleton ms m ih =>
    rw [run_append_singleton] at hcall
    rcases call_of_step hcall with hsame | ⟨-, hstart⟩ |
      ⟨call₀, p, -, -, rfl, -⟩ | ⟨call₀, role₀, outcome, -, -, -, rfl⟩
    · exact ih hsame hrole
    · rw [hstart] at hrole
      cases hrole
    · obtain rfl : p = .computing role := hrole
      exact ⟨_, rfl⟩
    · cases role₀ <;> cases outcome <;> cases hrole

/-- A call that is about to resolve a slot has ended a computation for it. -/
theorem finished_of_resolution {call : Call α} {v : Slot α}
    (hcall : ((ofLimit limit).run ms).calls[i]? = some call)
    (hres : call.phase.resolution? = some (j, v)) :
    ∃ before after outcome role, ms = before ++ .finish i outcome :: after ∧
      ((ofLimit limit).run before).calls[i]? =
        some ⟨call.key, .computing role, call.computation⟩ ∧
      call.phase = Phase.afterCompute role outcome := by
  induction ms using List.reverseRecOn generalizing call with
  | nil => simp [ofLimit] at hcall
  | append_singleton ms m ih =>
    rw [run_append_singleton] at hcall
    rcases call_of_step hcall with hsame | ⟨-, hstart⟩ |
      ⟨call₀, p, -, -, rfl, hadv⟩ | ⟨call₀, role, outcome, rfl, hcall₀, hrole, rfl⟩
    · obtain ⟨before, after, outcome, role, rfl, hbefore, hphase⟩ := ih hsame hres
      exact ⟨before, after ++ [m], outcome, role, by simp, hbefore, hphase⟩
    · rw [hstart] at hres
      cases hres
    · have hnone : p.resolution? = none := hadv.resolution?_eq_none
      rw [Call.into, hnone] at hres
      cases hres
    · obtain ⟨key, phase, computation⟩ := call₀
      obtain rfl : phase = .computing role := hrole
      exact ⟨ms, [], outcome, role, rfl, hcall₀, rfl⟩

/-- A slot that is not pending was resolved by a call. -/
theorem seen_resolution (hj : ((ofLimit limit : CallSystem α).run ms).cache.slot j ≠ .pending) :
    ∃ i, (ofLimit limit).Seen ms i fun call =>
      call.phase.resolution? = some (j, ((ofLimit limit).run ms).cache.slot j) := by
  induction ms using List.reverseRecOn with
  | nil => exact absurd rfl hj
  | append_singleton ms m ih =>
    rw [run_append_singleton] at hj ⊢
    have hkept : ((ofLimit limit).run ms).cache.slot j =
        (((ofLimit limit).run ms).step m).cache.slot j → ∃ i, (ofLimit limit).Seen (ms ++ [m]) i
          fun call => call.phase.resolution? =
            some (j, (((ofLimit limit).run ms).step m).cache.slot j) := by
      intro hsame
      rw [← hsame] at hj ⊢
      obtain ⟨i, hi⟩ := ih hj
      exact ⟨i, seen_append_singleton.2 (Or.inl hi)⟩
    rcases cache_of_step ((ofLimit limit).run ms) m with hsame | ⟨i, call, p, -, hcall, -, hadv⟩ |
      ⟨container, -, hsame⟩ | ⟨-, hsame⟩
    · exact hkept (by rw [hsame])
    · rcases hadv.slot_of_ne_pending hj with hsame | hres
      · exact hkept hsame
      · exact ⟨i, seen_append_singleton.2 (Or.inl (seen_of_now hcall hres))⟩
    · exact hkept (by rw [hsame]; rfl)
    · exact hkept (by rw [hsame]; rfl)

end FromEmpty

/-! ## Where results come from -/

section Results

variable {limit n : Nat} {k : Key} {role : Role} {r : α} {call : Call α}

theorem Ended.append (h : s.Ended ms i role k n r) (ms' : List (Move α)) :
    s.Ended (ms ++ ms') i role k n r := by
  obtain ⟨before, after, rfl, hcall⟩ := h
  exact ⟨before, after ++ ms', by simp, hcall⟩

/-- A call that publishes a result has computed it. -/
theorem ended_of_resolution (hcall : ((ofLimit limit).run ms).calls[i]? = some call)
    (hres : call.phase.resolution? = some (j, .ready r)) :
    ∃ role n, (ofLimit limit).Ended ms i role call.key n r ∧
      (Phase.computing role : Phase α).slot? = some j := by
  obtain ⟨before, after, outcome, role, rfl, hbefore, hphase⟩ :=
    finished_of_resolution hcall hres
  obtain ⟨n, hn⟩ := computation_of_computing hbefore rfl
  have hslot := Phase.slot?_of_resolution? hres
  rw [hphase] at hslot hres
  have houtcome : outcome = some r := by
    cases role <;> cases outcome <;> cases hres <;> rfl
  rw [houtcome]
  rw [hn] at hbefore
  exact ⟨role, n, ⟨before, after, rfl, hbefore⟩, Phase.slot?_afterCompute hslot⟩

/-- A result in a slot was computed for it. -/
theorem ended_of_ready (hj : ((ofLimit limit).run ms).cache.slot j = .ready r) :
    ∃ i role k n, (ofLimit limit).Ended ms i role k n r ∧
      (Phase.computing role : Phase α).slot? = some j := by
  have hne : ((ofLimit limit).run ms).cache.slot j ≠ .pending := by simp [hj]
  obtain ⟨i, before, ⟨after, rfl⟩, call, hcall, hres⟩ := seen_resolution hne
  rw [hj] at hres
  obtain ⟨role, n, hended, hslot⟩ := ended_of_resolution hcall hres
  exact ⟨i, role, call.key, n, hended.append after, hslot⟩

end Results

end CallSystem
end PathFacts
