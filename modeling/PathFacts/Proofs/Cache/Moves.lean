import PathFacts.Cache.System

/-!
# What one move does

`Phase.Advances` lists what the next step of a call can be, with what it finds and what it
changes; `CallSystem.Steps` does the same for a move.  Whatever holds in every run is proved
from these two lists, and nothing further opens the functions behind them.
-/

namespace PathFacts

/-! ## Parts of the shared state -/

namespace Cache

variable {α : Type} {c : Cache α} {i j : Nat}

theorem slot_of_size_le (h : c.slots.size ≤ j) : c.slot j = .pending := by
  rw [slot, Array.getElem?_eq_none h]
  rfl

/-- A slot that is not pending was made. -/
theorem lt_size_of_slot_ne_pending (h : c.slot j ≠ .pending) : j < c.slots.size :=
  Nat.lt_of_not_le fun hj => h (slot_of_size_le hj)

@[simp] theorem size_setSlot (c : Cache α) (i : Nat) (s : Slot α) :
    (c.setSlot i s).slots.size = c.slots.size := by
  rw [setSlot, Array.size_setIfInBounds]

@[simp] theorem shelf_setSlot (c : Cache α) (i j : Nat) (s : Slot α) :
    (c.setSlot i s).shelf j = c.shelf j := rfl

@[simp] theorem slot_setSlot (c : Cache α) (i j : Nat) (s : Slot α) :
    (c.setSlot i s).slot j = if i = j ∧ j < c.slots.size then s else c.slot j := by
  rw [slot, setSlot, Array.getElem?_setIfInBounds, slot]
  by_cases hij : i = j
  · subst hij
    by_cases hi : i < c.slots.size
    · simp [hi]
    · simp [hi]
  · simp [hij]

@[simp] theorem setSlot_slot (c : Cache α) (i : Nat) : c.setSlot i (c.slot i) = c := by
  have hslots : c.slots.setIfInBounds i (c.slot i) = c.slots := by
    refine Array.ext_getElem? fun j => ?_
    rw [Array.getElem?_setIfInBounds]
    split
    · rename_i hij
      subst hij
      split
      · rename_i hi
        simp [slot, hi]
      · rename_i hi
        exact (Array.getElem?_eq_none (Nat.le_of_not_lt hi)).symm
    · rfl
  rw [setSlot, hslots]

/-- Makes a slot for a unit on a shelf. -/
def makeSlot (c : Cache α) (i : Nat) (u : UnitId) : Cache α :=
  { c with
    slots := c.slots.push .pending
    shelves := c.shelves.modify i fun s => { s with slots := s.slots.insert u c.slots.size } }

@[simp] theorem size_makeSlot (c : Cache α) (i : Nat) (u : UnitId) :
    (c.makeSlot i u).slots.size = c.slots.size + 1 := by
  rw [makeSlot, Array.size_push]

@[simp] theorem shelves_size_makeSlot (c : Cache α) (i : Nat) (u : UnitId) :
    (c.makeSlot i u).shelves.size = c.shelves.size := by
  rw [makeSlot, Array.size_modify]

/-- A slot that was just made cannot be told from one that was not made yet. -/
@[simp] theorem slot_makeSlot (c : Cache α) (i j : Nat) (u : UnitId) :
    (c.makeSlot i u).slot j = c.slot j := by
  rw [slot, makeSlot, Array.getElem?_push]
  split
  · rename_i hj
    rw [slot_of_size_le (Nat.le_of_eq hj.symm)]
    rfl
  · rfl

theorem shelf_makeSlot (c : Cache α) (i j : Nat) (u : UnitId) :
    (c.makeSlot i u).shelf j =
      if i = j ∧ j < c.shelves.size then
        { c.shelf j with slots := (c.shelf j).slots.insert u c.slots.size }
      else c.shelf j := by
  rw [shelf, makeSlot, Array.getElem?_modify, shelf]
  by_cases hij : i = j
  · subst hij
    by_cases hi : i < c.shelves.size
    · simp [hi]
    · simp [hi]
  · simp [hij]

@[simp] theorem generation_makeSlot (c : Cache α) (i j : Nat) (u : UnitId) :
    ((c.makeSlot i u).shelf j).generation = (c.shelf j).generation := by
  rw [shelf_makeSlot]
  split <;> rfl

/-- The unit finds the slot that was made for it; nothing else on any shelf changes. -/
theorem slots_makeSlot (c : Cache α) (i j : Nat) (u v : UnitId) :
    ((c.makeSlot i u).shelf j).slots[v]? =
      if i = j ∧ j < c.shelves.size ∧ u = v then some c.slots.size
      else (c.shelf j).slots[v]? := by
  rw [shelf_makeSlot]
  by_cases h : i = j ∧ j < c.shelves.size
  · rw [if_pos h, Std.ExtTreeMap.getElem?_insert]
    simp [h]
  · rw [if_neg h, if_neg fun h' => h ⟨h'.1, h'.2.1⟩]

theorem shelf_of_size_le (h : c.shelves.size ≤ i) : c.shelf i = default := by
  rw [shelf, Array.getElem?_eq_none h]
  rfl

/-- A shelf on which a slot stands was put up. -/
theorem lt_size_of_slots_eq_some {u : UnitId} (h : (c.shelf i).slots[u]? = some j) :
    i < c.shelves.size := by
  refine Nat.lt_of_not_le fun hi => ?_
  rw [shelf_of_size_le hi] at h
  exact absurd h (by simp [default])

/-- A container with a new shelf up. -/
theorem shelf_putShelf (c : Cache α) (container : ContainerId) (generation : UInt64) (j : Nat) :
    (c.putShelf container generation).2.shelf j =
      if j = c.shelves.size then { generation := generation } else c.shelf j := by
  rw [shelf, putShelf, shelf]
  dsimp only
  rw [Array.getElem?_push]
  split <;> rfl

theorem containers_putShelf (c : Cache α) (container container' : ContainerId)
    (generation : UInt64) :
    (c.putShelf container generation).2.containers[container']? =
      if container = container' then some c.shelves.size else c.containers[container']? := by
  rw [putShelf]
  dsimp only
  rw [Std.ExtTreeMap.getElem?_insert]
  simp only [Std.compare_eq_iff_eq]

@[simp] theorem shelves_size_putShelf (c : Cache α) (container : ContainerId)
    (generation : UInt64) :
    (c.putShelf container generation).2.shelves.size = c.shelves.size + 1 := by
  rw [putShelf]
  dsimp only
  rw [Array.size_push]

/-! ### What the operations come to -/

theorem openSlot_of_some {u : UnitId} (h : (c.shelf i).slots[u]? = some j) :
    c.openSlot i u = ((j, false), c) := by
  rw [openSlot, h]

theorem openSlot_of_none {u : UnitId} (h : (c.shelf i).slots[u]? = none) :
    c.openSlot i u = ((c.slots.size, true), c.makeSlot i u) := by
  rw [openSlot, h]
  rfl

theorem openShelf_of_none {container : ContainerId} (generation : UInt64)
    (h : c.containers[container]? = none) :
    c.openShelf container generation =
      (some c.shelves.size, (c.putShelf container generation).2) := by
  rw [openShelf, h]
  rfl

theorem openShelf_of_lt {container : ContainerId} {generation : UInt64}
    (h : c.containers[container]? = some i) (hlt : (c.shelf i).generation < generation) :
    c.openShelf container generation =
      (some c.shelves.size, (c.putShelf container generation).2) := by
  rw [openShelf, h]
  exact if_pos hlt

theorem openShelf_of_eq {container : ContainerId} {generation : UInt64}
    (h : c.containers[container]? = some i) (heq : (c.shelf i).generation = generation) :
    c.openShelf container generation = (some i, c) := by
  rw [openShelf, h]
  dsimp only
  rw [if_neg (by rw [heq]; exact UInt64.lt_irrefl generation), if_pos heq]

theorem openShelf_of_gt {container : ContainerId} {generation : UInt64}
    (h : c.containers[container]? = some i) (hgt : generation < (c.shelf i).generation) :
    c.openShelf container generation = (none, c) := by
  rw [openShelf, h]
  dsimp only
  rw [if_neg (UInt64.lt_asymm hgt), if_neg (UInt64.ne_of_lt hgt).symm]

theorem takeOver_of_abandoned (h : c.slot j = .abandoned) :
    c.takeOver j = (true, c.setSlot j .pending) := by
  rw [takeOver, h]
  rfl

theorem takeOver_of_ne (h : c.slot j ≠ .abandoned) : c.takeOver j = (false, c) := by
  have hsame : (c.slot j).takeOver = (false, c.slot j) := by
    cases hs : c.slot j with
    | abandoned => exact absurd hs h
    | pending => rfl
    | ready r => rfl
  rw [takeOver, hsame]
  exact congrArg (Prod.mk false) (setSlot_slot c j)

theorem publish_of_ready {r' : α} (h : c.slot j = .ready r') (r : α) :
    c.publish j r = (r', c) := by
  have hsame : (c.slot j).publish r = (r', c.slot j) := by
    rw [h]
    rfl
  rw [publish, hsame]
  exact congrArg (Prod.mk r') (setSlot_slot c j)

theorem publish_of_ne (h : ∀ r', c.slot j ≠ .ready r') (r : α) :
    c.publish j r = (r, c.setSlot j (.ready r)) := by
  have hfirst : (c.slot j).publish r = (r, .ready r) := by
    cases hs : c.slot j with
    | ready r' => exact absurd hs (h r')
    | pending => rfl
    | abandoned => rfl
  rw [publish, hfirst]

theorem giveUp_of_pending (h : c.slot j = .pending) :
    c.giveUp j = c.setSlot j .abandoned := by
  rw [giveUp, h]
  rfl

theorem giveUp_of_ne (h : c.slot j ≠ .pending) : c.giveUp j = c := by
  have hsame : (c.slot j).giveUp = c.slot j := by
    cases hs : c.slot j with
    | pending => exact absurd hs h
    | abandoned => rfl
    | ready r => rfl
  rw [giveUp, hsame, setSlot_slot]

theorem lookup_eq_some_iff {k : Key} {r : α} :
    c.lookup k = some r ↔ ∃ i j, c.containers[k.container]? = some i ∧
      (c.shelf i).generation = k.generation ∧ (c.shelf i).slots[k.unit]? = some j ∧
      c.slot j = .ready r := by
  have hslot : ∀ j, c.slot j = .ready r ↔ (c.slot j).result? = some r := by
    intro j
    cases c.slot j <;> simp [Slot.result?]
  simp only [lookup, slotOf?, Option.bind_eq_bind, Option.bind_eq_some_iff, hslot]
  constructor
  · rintro ⟨j, ⟨i, hi, hj⟩, hr⟩
    split at hj
    · rename_i hsame
      exact ⟨i, j, hi, hsame, hj, hr⟩
    · cases hj
  · rintro ⟨i, j, hi, hsame, hj, hr⟩
    exact ⟨j, ⟨i, hi, by rw [if_pos hsame, hj]⟩, hr⟩

end Cache

/-! ## The next step of a call -/

namespace Phase

variable {α : Type}

/-- The slot that a call in this phase works on. -/
def slot? : Phase α → Option Nat
  | atSlot j | unserved j | queueing j | waiting j | bereft j | inheriting j => some j
  | computing (.owner j) | computing (.bystander j) => some j
  | publishing j _ | abandoning j => some j
  | _ => none

/-- Whether a call in this phase computes. -/
def isComputing : Phase α → Bool
  | computing _ => true
  | _ => false

/-- What the next step of a call for `k` can be. -/
inductive Advances (k : Key) : Phase α → Cache α → Phase α → Cache α → Prop
  /-- The container has a later shelf, so the call shares nothing. -/
  | bypass {c : Cache α} {i : Nat} (hi : c.containers[k.container]? = some i)
      (hlater : k.generation < (c.shelf i).generation) :
      Advances k start c (computing .outsider) c
  | join {c : Cache α} {i : Nat} (hi : c.containers[k.container]? = some i)
      (hsame : (c.shelf i).generation = k.generation) : Advances k start c (atShelf i) c
  /-- The container has no shelf, or an earlier one. -/
  | putUp {c : Cache α}
      (hearlier : ∀ i, c.containers[k.container]? = some i →
        (c.shelf i).generation < k.generation) :
      Advances k start c (atShelf c.shelves.size) (c.putShelf k.container k.generation).2
  | find {c : Cache α} {i j : Nat} (hj : (c.shelf i).slots[k.unit]? = some j) :
      Advances k (atShelf i) c (atSlot j) c
  | make {c : Cache α} {i : Nat} (hnone : (c.shelf i).slots[k.unit]? = none) :
      Advances k (atShelf i) c (computing (.owner c.slots.size)) (c.makeSlot i k.unit)
  | hit {c : Cache α} {j : Nat} {r : α} (hr : c.slot j = .ready r) :
      Advances k (atSlot j) c (returned r) c
  | miss {c : Cache α} {j : Nat} (hr : ∀ r, c.slot j ≠ .ready r) :
      Advances k (atSlot j) c (unserved j) c
  | takeOver {c : Cache α} {j : Nat} (h : c.slot j = .abandoned) :
      Advances k (unserved j) c (computing (.owner j)) (c.setSlot j .pending)
  | queue {c : Cache α} {j : Nat} (h : c.slot j ≠ .abandoned) :
      Advances k (unserved j) c (queueing j) c
  | permit {c : Cache α} {j : Nat} {budget : Budget} (h : c.budget.acquire? = some budget) :
      Advances k (queueing j) c (waiting j) { c with budget := budget }
  | refuse {c : Cache α} {j : Nat} (h : c.budget.acquire? = none) :
      Advances k (queueing j) c (computing (.bystander j)) c
  | serve {c : Cache α} {j : Nat} {r : α} (hr : c.slot j = .ready r) :
      Advances k (waiting j) c (served r) c
  | bereave {c : Cache α} {j : Nat} (h : c.slot j = .abandoned) :
      Advances k (waiting j) c (bereft j) c
  | keepWaiting {c : Cache α} {j : Nat} (h : c.slot j = .pending) :
      Advances k (waiting j) c (waiting j) c
  | inherit {c : Cache α} {j : Nat} (h : c.slot j = .abandoned) :
      Advances k (bereft j) c (inheriting j) (c.setSlot j .pending)
  /-- Another call was faster. -/
  | returnToWait {c : Cache α} {j : Nat} (h : c.slot j ≠ .abandoned) :
      Advances k (bereft j) c (waiting j) c
  | leave {c : Cache α} {r : α} :
      Advances k (served r) c (returned r) { c with budget := c.budget.release }
  | compute {c : Cache α} {j : Nat} :
      Advances k (inheriting j) c (computing (.owner j)) { c with budget := c.budget.release }
  | publish {c : Cache α} {j : Nat} {r : α} (hr : ∀ r', c.slot j ≠ .ready r') :
      Advances k (publishing j r) c (returned r) (c.setSlot j (.ready r))
  /-- Another result was published before. -/
  | converge {c : Cache α} {j : Nat} {r r' : α} (hr : c.slot j = .ready r') :
      Advances k (publishing j r) c (returned r') c
  | giveUp {c : Cache α} {j : Nat} (h : c.slot j = .pending) :
      Advances k (abandoning j) c failed (c.setSlot j .abandoned)
  /-- Another call resolved the slot in the meantime. -/
  | giveUpLate {c : Cache α} {j : Nat} (h : c.slot j ≠ .pending) :
      Advances k (abandoning j) c failed c

/-- The list is complete. -/
theorem advances_of_advance? {k : Key} {c c' : Cache α} {p p' : Phase α}
    (h : p.advance? k c = some (p', c')) : p.Advances k c p' c' := by
  cases p with
  | start =>
    rw [advance?] at h
    cases hi : c.containers[k.container]? with
    | none =>
      rw [Cache.openShelf_of_none k.generation hi] at h
      cases h
      exact .putUp fun i hi' => absurd (hi.symm.trans hi') (Option.some_ne_none i).symm
    | some i =>
      by_cases hlt : (c.shelf i).generation < k.generation
      · rw [Cache.openShelf_of_lt hi hlt] at h
        cases h
        refine .putUp fun i' hi' => ?_
        obtain rfl : i = i' := Option.some.inj (hi.symm.trans hi')
        exact hlt
      by_cases heq : (c.shelf i).generation = k.generation
      · rw [Cache.openShelf_of_eq hi heq] at h
        cases h
        exact .join hi heq
      · have hgt := UInt64.lt_of_le_of_ne (UInt64.not_lt.1 hlt) (Ne.symm heq)
        rw [Cache.openShelf_of_gt hi hgt] at h
        cases h
        exact .bypass hi hgt
  | atShelf i =>
    rw [advance?] at h
    cases hj : (c.shelf i).slots[k.unit]? with
    | none =>
      rw [Cache.openSlot_of_none hj] at h
      cases h
      exact .make hj
    | some j =>
      rw [Cache.openSlot_of_some hj] at h
      cases h
      exact .find hj
  | atSlot j =>
    rw [advance?] at h
    cases hs : c.slot j with
    | ready r =>
      rw [hs] at h
      cases h
      exact .hit hs
    | pending =>
      rw [hs] at h
      cases h
      exact .miss (by simp [hs])
    | abandoned =>
      rw [hs] at h
      cases h
      exact .miss (by simp [hs])
  | unserved j =>
    rw [advance?] at h
    by_cases hs : c.slot j = .abandoned
    · rw [Cache.takeOver_of_abandoned hs] at h
      cases h
      exact .takeOver hs
    · rw [Cache.takeOver_of_ne hs] at h
      cases h
      exact .queue hs
  | queueing j =>
    rw [advance?] at h
    cases hb : c.budget.acquire? with
    | none =>
      rw [hb] at h
      cases h
      exact .refuse hb
    | some budget =>
      rw [hb] at h
      cases h
      exact .permit hb
  | waiting j =>
    rw [advance?] at h
    cases hs : c.slot j with
    | ready r =>
      rw [hs] at h
      cases h
      exact .serve hs
    | pending =>
      rw [hs] at h
      cases h
      exact .keepWaiting hs
    | abandoned =>
      rw [hs] at h
      cases h
      exact .bereave hs
  | bereft j =>
    rw [advance?] at h
    by_cases hs : c.slot j = .abandoned
    · rw [Cache.takeOver_of_abandoned hs] at h
      cases h
      exact .inherit hs
    · rw [Cache.takeOver_of_ne hs] at h
      cases h
      exact .returnToWait hs
  | served r =>
    cases h
    exact .leave
  | inheriting j =>
    cases h
    exact .compute
  | publishing j r =>
    rw [advance?] at h
    cases hs : c.slot j with
    | ready r' =>
      rw [Cache.publish_of_ready hs] at h
      cases h
      exact .converge hs
    | pending =>
      have hr : ∀ r', c.slot j ≠ .ready r' := by simp [hs]
      rw [Cache.publish_of_ne hr] at h
      cases h
      exact .publish hr
    | abandoned =>
      have hr : ∀ r', c.slot j ≠ .ready r' := by simp [hs]
      rw [Cache.publish_of_ne hr] at h
      cases h
      exact .publish hr
  | abandoning j =>
    rw [advance?] at h
    by_cases hs : c.slot j = .pending
    · rw [Cache.giveUp_of_pending hs] at h
      cases h
      exact .giveUp hs
    · rw [Cache.giveUp_of_ne hs] at h
      cases h
      exact .giveUpLate hs
  | computing role => cases h
  | returned r => cases h
  | failed => cases h

end Phase

/-! ## Moves -/

variable {α : Type}

/-- A call that goes into a phase; a computation that starts gets the number `next`. -/
def Call.into (call : Call α) (next : Nat) (p : Phase α) : Call α :=
  { call with
    phase := p
    computation := if p.isComputing then some next else call.computation }

namespace CallSystem

/-- Puts call `i` in place of what it was. -/
def setCall (s : CallSystem α) (i : Nat) (call : Call α) : CallSystem α :=
  { s with calls := s.calls.setIfInBounds i call }

theorem getElem?_setCall {s : CallSystem α} {i : Nat} {call : Call α}
    (h : s.calls[i]? = some call) (call' : Call α) (x : Nat) :
    (s.setCall i call').calls[x]? = if i = x then some call' else s.calls[x]? := by
  have hi : i < s.calls.size := (Array.getElem?_eq_some_iff.1 h).1
  rw [setCall, Array.getElem?_setIfInBounds, if_pos hi]

theorem getElem?_setCall_self {s : CallSystem α} {i : Nat} {call : Call α}
    (h : s.calls[i]? = some call) (call' : Call α) :
    (s.setCall i call').calls[i]? = some call' := by
  rw [getElem?_setCall h, if_pos rfl]

theorem enter_eq (s : CallSystem α) (i : Nat) (call : Call α) (p : Phase α) :
    s.enter i call p =
      { s.setCall i (call.into s.started p) with
        started := if p.isComputing then s.started + 1 else s.started } := by
  cases p <;> rfl

section Step

variable {s : CallSystem α} {i : Nat} {call : Call α}

theorem step_advance_of_some {p : Phase α} {c : Cache α} (hcall : s.calls[i]? = some call)
    (hadv : call.phase.advance? call.key s.cache = some (p, c)) :
    s.step (.advance i) =
      { s.setCall i (call.into s.started p) with
        cache := c
        started := if p.isComputing then s.started + 1 else s.started } := by
  rw [step, hcall]
  dsimp only
  rw [hadv]
  dsimp only
  rw [enter_eq]
  rfl

theorem step_advance_of_none (hcall : s.calls[i]? = some call)
    (hadv : call.phase.advance? call.key s.cache = none) : s.step (.advance i) = s := by
  rw [step, hcall]
  dsimp only
  rw [hadv]

theorem step_finish_of_computing {role : Role} (outcome : Option α)
    (hcall : s.calls[i]? = some call) (hrole : call.phase = .computing role) :
    s.step (.finish i outcome) =
      s.setCall i { call with phase := Phase.afterCompute role outcome } := by
  obtain ⟨key, phase, number⟩ := call
  obtain rfl : phase = .computing role := hrole
  rw [step, hcall]
  rfl

theorem step_finish_of_ne (outcome : Option α) (hcall : s.calls[i]? = some call)
    (hrole : ∀ role, call.phase ≠ .computing role) : s.step (.finish i outcome) = s := by
  obtain ⟨key, phase, number⟩ := call
  rw [step, hcall]
  cases phase with
  | computing role => exact absurd rfl (hrole role)
  | _ => rfl

end Step

/-- What a move can come to. -/
inductive Steps (s : CallSystem α) : Move α → CallSystem α → Prop
  /-- The move does not fit the state. -/
  | idle {m : Move α} : Steps s m s
  | call (key : Key) : Steps s (.call key) { s with calls := s.calls.push { key := key } }
  | advance {i : Nat} {call : Call α} {p : Phase α} {c : Cache α}
      (hcall : s.calls[i]? = some call) (hadv : call.phase.Advances call.key s.cache p c) :
      Steps s (.advance i)
        { s.setCall i (call.into s.started p) with
          cache := c
          started := if p.isComputing then s.started + 1 else s.started }
  | finish {i : Nat} {call : Call α} {role : Role} (outcome : Option α)
      (hcall : s.calls[i]? = some call) (hrole : call.phase = .computing role) :
      Steps s (.finish i outcome)
        (s.setCall i { call with phase := Phase.afterCompute role outcome })
  | forget (container : ContainerId) :
      Steps s (.forget container) { s with cache := s.cache.forget container }
  | forgetAll : Steps s .forgetAll { s with cache := s.cache.forgetAll }

/-- The list is complete. -/
theorem steps (s : CallSystem α) (m : Move α) : s.Steps m (s.step m) := by
  cases m with
  | call key => exact .call key
  | forget container => exact .forget container
  | forgetAll => exact .forgetAll
  | advance i =>
    cases hcall : s.calls[i]? with
    | none =>
      rw [step, hcall]
      exact .idle
    | some call =>
      cases hadv : call.phase.advance? call.key s.cache with
      | none =>
        rw [step_advance_of_none hcall hadv]
        exact .idle
      | some next =>
        rw [step_advance_of_some hcall hadv]
        exact .advance hcall (Phase.advances_of_advance? hadv)
  | finish i outcome =>
    cases hcall : s.calls[i]? with
    | none =>
      rw [step, hcall]
      exact .idle
    | some call =>
      by_cases hrole : ∃ role, call.phase = .computing role
      · obtain ⟨role, hrole⟩ := hrole
        rw [step_finish_of_computing outcome hcall hrole]
        exact .finish outcome hcall hrole
      · rw [step_finish_of_ne outcome hcall fun role h => hrole ⟨role, h⟩]
        exact .idle

section OneCall

variable {s : CallSystem α} {m : Move α} {x : Nat}

/-- A call is after a move what it was before, or it is new, or it made the move. -/
theorem call_of_step {call' : Call α} (h : (s.step m).calls[x]? = some call') :
    s.calls[x]? = some call' ∨
    (s.calls.size ≤ x ∧ call'.phase = .start) ∨
    (∃ call p, m = .advance x ∧ s.calls[x]? = some call ∧ call' = call.into s.started p ∧
      call.phase.Advances call.key s.cache p (s.step m).cache) ∨
    (∃ call role outcome, m = .finish x outcome ∧ s.calls[x]? = some call ∧
      call.phase = .computing role ∧
      call' = { call with phase := Phase.afterCompute role outcome }) := by
  have hstep := steps s m
  generalize s.step m = s' at h hstep
  cases hstep with
  | idle => exact Or.inl h
  | forget => exact Or.inl h
  | forgetAll => exact Or.inl h
  | call key =>
    rw [Array.getElem?_push] at h
    split at h
    · rename_i hx
      cases h
      exact Or.inr (Or.inl ⟨Nat.le_of_eq hx.symm, rfl⟩)
    · exact Or.inl h
  | @advance i call p c hcall hadv =>
    have h' := h
    simp only [getElem?_setCall hcall] at h'
    split at h'
    · rename_i hix
      subst hix
      cases h'
      exact Or.inr (Or.inr (Or.inl ⟨call, p, rfl, hcall, rfl, hadv⟩))
    · exact Or.inl h'
  | @finish i call role outcome hcall hrole =>
    rw [getElem?_setCall hcall] at h
    split at h
    · rename_i hix
      subst hix
      cases h
      exact Or.inr (Or.inr (Or.inr ⟨call, role, outcome, rfl, hcall, hrole, rfl⟩))
    · exact Or.inl h

/-- The cache changes in a move only by the next step of a call or by a removal. -/
theorem cache_of_step (s : CallSystem α) (m : Move α) :
    (s.step m).cache = s.cache ∨
    (∃ i call p, m = .advance i ∧ s.calls[i]? = some call ∧
      (s.step m).calls[i]? = some (call.into s.started p) ∧
      call.phase.Advances call.key s.cache p (s.step m).cache) ∨
    (∃ container, m = .forget container ∧ (s.step m).cache = s.cache.forget container) ∨
    (m = .forgetAll ∧ (s.step m).cache = s.cache.forgetAll) := by
  have hstep := steps s m
  generalize s.step m = s' at hstep
  cases hstep with
  | idle => exact Or.inl rfl
  | call key => exact Or.inl rfl
  | finish => exact Or.inl rfl
  | @advance i call p c hcall hadv =>
    have hafter := getElem?_setCall_self hcall (call.into s.started p)
    exact Or.inr (Or.inl ⟨i, call, p, rfl, hcall, hafter, hadv⟩)
  | forget container => exact Or.inr (Or.inr (Or.inl ⟨container, rfl, rfl⟩))
  | forgetAll => exact Or.inr (Or.inr (Or.inr ⟨rfl, rfl⟩))

end OneCall

/-! ## Runs -/

/-- A system without calls whose callers may take `limit` permits to wait. -/
def ofLimit (limit : Nat) : CallSystem α := { cache := .ofLimit limit }

@[simp] theorem run_nil (s : CallSystem α) : s.run [] = s := rfl

theorem run_append (s : CallSystem α) (ms ms' : List (Move α)) :
    s.run (ms ++ ms') = (s.run ms).run ms' :=
  List.foldl_append

@[simp] theorem run_append_singleton (s : CallSystem α) (ms : List (Move α)) (m : Move α) :
    s.run (ms ++ [m]) = (s.run ms).step m := by
  rw [run_append]
  rfl

end CallSystem
end PathFacts
