import PathFacts.Proofs.Cache.Moves
import Mathlib.Data.List.Induction
import Mathlib.Logic.Function.Basic
import Mathlib.Order.Nat

/-!
# The key behind a shelf and behind a slot

Shelves and slots carry no key of their own, and calls go on working on them after the
container has forgotten them.  Still every shelf was put up for one container and every slot
was made for one key.  `Labels` writes that down beside the system, and `Labelled` says that
everything which leads to a shelf or a slot agrees with it: what the containers know, what
the shelves hold, and where the calls stand.

`Cache.Grows` is the other half: nothing that a call relies on is ever taken back.  Shelves
keep their generation, slots stay, and a result stays where it is.
-/

namespace PathFacts

variable {α : Type}

/-! ## What is never taken back -/

/-- Shelves, slots and results of `c` are in `c'` as well. -/
structure Cache.Grows (c c' : Cache α) : Prop where
  shelves : c.shelves.size ≤ c'.shelves.size
  generation : ∀ i < c.shelves.size, (c'.shelf i).generation = (c.shelf i).generation
  slots : c.slots.size ≤ c'.slots.size
  ready : ∀ j r, c.slot j = .ready r → c'.slot j = .ready r

namespace Cache.Grows

variable {c c' c'' : Cache α}

theorem refl (c : Cache α) : c.Grows c := ⟨le_rfl, fun _ _ => rfl, le_rfl, fun _ _ h => h⟩

theorem trans (h : c.Grows c') (h' : c'.Grows c'') : c.Grows c'' where
  shelves := h.shelves.trans h'.shelves
  generation i hi :=
    (h'.generation i (lt_of_lt_of_le hi h.shelves)).trans (h.generation i hi)
  slots := h.slots.trans h'.slots
  ready j r hr := h'.ready j r (h.ready j r hr)

theorem of_same_parts (hshelves : c'.shelves = c.shelves) (hslots : c'.slots = c.slots) :
    c.Grows c' where
  shelves := by rw [hshelves]
  generation i _ := by rw [shelf, hshelves]; rfl
  slots := by rw [hslots]
  ready j r hr := by rw [slot, hslots]; exact hr

theorem putShelf (c : Cache α) (container : ContainerId) (generation : UInt64) :
    c.Grows (c.putShelf container generation).2 where
  shelves := by rw [shelves_size_putShelf]; exact Nat.le_succ _
  generation i hi := by rw [shelf_putShelf, if_neg (Nat.ne_of_lt hi)]
  slots := le_rfl
  ready _ _ hr := hr

theorem makeSlot (c : Cache α) (i : Nat) (u : UnitId) : c.Grows (c.makeSlot i u) where
  shelves := Nat.le_of_eq (shelves_size_makeSlot c i u).symm
  generation := by simp
  slots := by rw [size_makeSlot]; exact Nat.le_succ _
  ready j r hr := by rwa [slot_makeSlot]

/-- A slot may change as long as it has no result. -/
theorem setSlot {j : Nat} (h : ∀ r, c.slot j ≠ .ready r) (s : Slot α) :
    c.Grows (c.setSlot j s) where
  shelves := le_rfl
  generation _ _ := rfl
  slots := Nat.le_of_eq (size_setSlot c j s).symm
  ready i r hr := by
    rw [slot_setSlot, if_neg]
    · exact hr
    · rintro ⟨rfl, -⟩
      exact h r hr

end Cache.Grows

theorem Phase.Advances.grows {k : Key} {c c' : Cache α} {p p' : Phase α}
    (h : p.Advances k c p' c') : c.Grows c' := by
  cases h with
  | putUp => exact .putShelf c _ _
  | make => exact .makeSlot c _ _
  | takeOver h => exact .setSlot (by simp [h]) _
  | inherit h => exact .setSlot (by simp [h]) _
  | publish hr => exact .setSlot hr _
  | giveUp h => exact .setSlot (by simp [h]) _
  | _ => exact .of_same_parts rfl rfl

namespace CallSystem

theorem grows_step (s : CallSystem α) (m : Move α) : s.cache.Grows (s.step m).cache := by
  rcases cache_of_step s m with h | ⟨i, call, p, -, -, -, h⟩ | ⟨container, -, h⟩ | ⟨-, h⟩
  · rw [h]
    exact .refl _
  · exact h.grows
  · rw [h]
    exact .of_same_parts rfl rfl
  · rw [h]
    exact .of_same_parts rfl rfl

theorem grows_run (s : CallSystem α) (ms : List (Move α)) : s.cache.Grows (s.run ms).cache := by
  induction ms using List.reverseRecOn with
  | nil => exact .refl _
  | append_singleton ms m ih =>
    rw [run_append_singleton]
    exact ih.trans (grows_step _ m)

end CallSystem

/-! ## How a step leads to shelves and slots -/

/-- A step puts a shelf up, makes a slot, or leaves containers and shelves alone; in the last
case it leads only to what was there. -/
theorem Phase.Advances.shape {k : Key} {c c' : Cache α} {p p' : Phase α}
    (h : p.Advances k c p' c') :
    (p = .start ∧ p' = .atShelf c.shelves.size ∧
      c' = (c.putShelf k.container k.generation).2) ∨
    (∃ i, p = .atShelf i ∧ p' = .computing (.owner c.slots.size) ∧ c' = c.makeSlot i k.unit) ∨
    (c'.containers = c.containers ∧ c'.shelves = c.shelves ∧ c'.slots.size = c.slots.size ∧
      (∀ i, p' = .atShelf i →
        c.containers[k.container]? = some i ∧ (c.shelf i).generation = k.generation) ∧
      ∀ j, p'.slot? = some j → p.slot? = some j ∨
        ∃ i, p = .atShelf i ∧ (c.shelf i).slots[k.unit]? = some j) := by
  cases h with
  | putUp => exact Or.inl ⟨rfl, rfl, rfl⟩
  | make => exact Or.inr (Or.inl ⟨_, rfl, rfl, rfl⟩)
  | join hi hsame =>
    refine Or.inr (Or.inr ⟨rfl, rfl, rfl, ?_, ?_⟩)
    · rintro i' ⟨⟩
      exact ⟨hi, hsame⟩
    · intro j hj
      cases hj
  | find hj =>
    refine Or.inr (Or.inr ⟨rfl, rfl, rfl, ?_, ?_⟩)
    · intro i' hi'
      cases hi'
    · rintro j' ⟨⟩
      exact Or.inr ⟨_, rfl, hj⟩
  | takeOver | inherit =>
    refine Or.inr (Or.inr ⟨rfl, rfl, Cache.size_setSlot _ _ _, ?_, fun j hj => Or.inl hj⟩)
    intro i hi
    cases hi
  | publish | giveUp =>
    refine Or.inr (Or.inr ⟨rfl, rfl, Cache.size_setSlot _ _ _, ?_, ?_⟩)
    · intro i hi
      cases hi
    · intro j hj
      cases hj
  | bypass | hit | serve | leave | converge | giveUpLate =>
    refine Or.inr (Or.inr ⟨rfl, rfl, rfl, ?_, ?_⟩)
    · intro i hi
      cases hi
    · intro j hj
      cases hj
  | _ =>
    refine Or.inr (Or.inr ⟨rfl, rfl, rfl, ?_, fun j hj => Or.inl hj⟩)
    intro i hi
    cases hi

/-- The end of a computation leads to no new shelf or slot. -/
theorem Phase.slot?_afterCompute {role : Role} {outcome : Option α} {j : Nat}
    (h : (afterCompute role outcome).slot? = some j) :
    (computing role : Phase α).slot? = some j := by
  cases role with
  | outsider => cases outcome <;> cases h
  | owner i => cases outcome <;> exact h
  | bystander i =>
    cases outcome with
    | some r => exact h
    | none => cases h

theorem Phase.afterCompute_ne_atShelf (role : Role) (outcome : Option α) (i : Nat) :
    afterCompute role outcome ≠ atShelf i := by
  cases role <;> cases outcome <;> simp [afterCompute]

namespace CallSystem

variable {s : CallSystem α} {m : Move α} {x i j : Nat} {call' : Call α}

/-- A container leads to the shelf that it led to before a move, or the call that moves has put
a new one up for it. -/
theorem container_of_step {c : ContainerId} (h : (s.step m).cache.containers[c]? = some i) :
    s.cache.containers[c]? = some i ∨
    ∃ x call, m = .advance x ∧ s.calls[x]? = some call ∧ call.key.container = c ∧
      i = s.cache.shelves.size ∧ i < (s.step m).cache.shelves.size := by
  rcases cache_of_step s m with hsame | ⟨x, call, p, hm, hcall, -, hadv⟩ | ⟨c', -, hsame⟩ |
    ⟨-, hsame⟩
  · rw [hsame] at h
    exact Or.inl h
  · rcases hadv.shape with ⟨-, -, hnew⟩ | ⟨i', -, -, hnew⟩ | ⟨hcontainers, -⟩
    · rw [hnew, Cache.containers_putShelf] at h
      split at h
      · rename_i hc
        cases h
        refine Or.inr ⟨x, call, hm, hcall, hc, rfl, ?_⟩
        rw [hnew, Cache.shelves_size_putShelf]
        exact Nat.lt_succ_self _
      · exact Or.inl h
    · rw [hnew] at h
      exact Or.inl h
    · rw [hcontainers] at h
      exact Or.inl h
  · rw [hsame, Cache.forget, Std.ExtTreeMap.getElem?_erase] at h
    split at h
    · cases h
    · exact Or.inl h
  · rw [hsame] at h
    simp [Cache.forgetAll] at h

/-- A shelf leads to the slot that it led to before a move, or the call that moves has made a
new one there. -/
theorem shelf_slot_of_step {u : UnitId} (h : ((s.step m).cache.shelf i).slots[u]? = some j) :
    (s.cache.shelf i).slots[u]? = some j ∨
    ∃ x call, m = .advance x ∧ s.calls[x]? = some call ∧ call.phase = .atShelf i ∧
      call.key.unit = u ∧ j = s.cache.slots.size ∧ j < (s.step m).cache.slots.size := by
  have hkept : (s.step m).cache.shelves = s.cache.shelves →
      (s.cache.shelf i).slots[u]? = some j := by
    intro hsame
    rw [Cache.shelf, hsame] at h
    exact h
  rcases cache_of_step s m with hsame | ⟨x, call, p, hm, hcall, -, hadv⟩ | ⟨c', -, hsame⟩ |
    ⟨-, hsame⟩
  · exact Or.inl (hkept (by rw [hsame]))
  · rcases hadv.shape with ⟨-, -, hnew⟩ | ⟨i', hi', -, hnew⟩ | ⟨-, hshelves, -⟩
    · rw [hnew, Cache.shelf_putShelf] at h
      split at h
      · exact absurd h (by simp)
      · exact Or.inl h
    · rw [hnew, Cache.slots_makeSlot] at h
      split at h
      · rename_i hmade
        obtain ⟨rfl, -, hu⟩ := hmade
        cases h
        refine Or.inr ⟨x, call, hm, hcall, hi', hu, rfl, ?_⟩
        rw [hnew, Cache.size_makeSlot]
        exact Nat.lt_succ_self _
      · exact Or.inl h
    · exact Or.inl (hkept hshelves)
  · exact Or.inl (hkept (by rw [hsame]; rfl))
  · exact Or.inl (hkept (by rw [hsame]; rfl))

/-- A call comes to a shelf that its container led to, or that it has put up itself. -/
theorem call_shelf_of_step (hcall' : (s.step m).calls[x]? = some call')
    (hi : call'.phase = .atShelf i) :
    s.calls[x]? = some call' ∨
    ∃ call, m = .advance x ∧ s.calls[x]? = some call ∧ call'.key = call.key ∧
      (s.cache.containers[call.key.container]? = some i ∧
          (s.cache.shelf i).generation = call.key.generation ∨
        i = s.cache.shelves.size ∧ i < (s.step m).cache.shelves.size ∧
          ((s.step m).cache.shelf i).generation = call.key.generation) := by
  rcases call_of_step hcall' with hsame | ⟨-, hstart⟩ |
    ⟨call, p, hm, hcall, rfl, hadv⟩ | ⟨call, role, outcome, -, -, -, rfl⟩
  · exact Or.inl hsame
  · rw [hstart] at hi
    cases hi
  · obtain rfl : p = .atShelf i := hi
    refine Or.inr ⟨call, hm, hcall, rfl, ?_⟩
    rcases hadv.shape with ⟨-, hput, hnew⟩ | ⟨i', -, hmade, -⟩ | ⟨-, -, -, hat, -⟩
    · cases hput
      refine Or.inr ⟨rfl, ?_, ?_⟩
      · rw [hnew, Cache.shelves_size_putShelf]
        exact Nat.lt_succ_self _
      · rw [hnew, Cache.shelf_putShelf, if_pos rfl]
    · cases hmade
    · exact Or.inl (hat i rfl)
  · exact absurd hi (Phase.afterCompute_ne_atShelf role outcome i)

/-- A call comes to a slot that its shelf led to, or that it has made itself. -/
theorem call_slot_of_step (hcall' : (s.step m).calls[x]? = some call')
    (hj : call'.phase.slot? = some j) :
    s.calls[x]? = some call' ∨ ∃ call, s.calls[x]? = some call ∧ call'.key = call.key ∧
      (call.phase.slot? = some j ∨
        (∃ i, call.phase = .atShelf i ∧ (s.cache.shelf i).slots[call.key.unit]? = some j) ∨
        m = .advance x ∧ j = s.cache.slots.size ∧ j < (s.step m).cache.slots.size) := by
  rcases call_of_step hcall' with hsame | ⟨-, hstart⟩ |
    ⟨call, p, hm, hcall, rfl, hadv⟩ | ⟨call, role, outcome, -, hcall, hrole, rfl⟩
  · exact Or.inl hsame
  · rw [hstart] at hj
    cases hj
  · refine Or.inr ⟨call, hcall, rfl, ?_⟩
    have hp : p.slot? = some j := hj
    rcases hadv.shape with ⟨-, rfl, -⟩ | ⟨i, -, rfl, hnew⟩ | ⟨-, -, -, -, hslot⟩
    · cases hp
    · cases hp
      refine Or.inr (Or.inr ⟨hm, rfl, ?_⟩)
      rw [hnew, Cache.size_makeSlot]
      exact Nat.lt_succ_self _
    · rcases hslot j hp with hold | hfound
      · exact Or.inl hold
      · exact Or.inr (Or.inl hfound)
  · refine Or.inr ⟨call, hcall, rfl, Or.inl ?_⟩
    rw [hrole]
    exact Phase.slot?_afterCompute hj

end CallSystem

/-! ## Labels -/

/-- The container of every shelf and the key of every slot. -/
structure Labels where
  container : Nat → ContainerId
  key : Nat → Key

/-- Everything that leads to a shelf or to a slot agrees with its label. -/
structure Labelled (l : Labels) (s : CallSystem α) : Prop where
  container_shelf : ∀ c i, s.cache.containers[c]? = some i →
    i < s.cache.shelves.size ∧ l.container i = c
  shelf_slot : ∀ (i : Nat) (u : UnitId) (j : Nat), (s.cache.shelf i).slots[u]? = some j →
    j < s.cache.slots.size ∧ l.key j = ⟨l.container i, (s.cache.shelf i).generation, u⟩
  call_shelf : ∀ (x : Nat) (call : Call α) (i : Nat), s.calls[x]? = some call →
    call.phase = .atShelf i →
      i < s.cache.shelves.size ∧ l.container i = call.key.container ∧
        (s.cache.shelf i).generation = call.key.generation
  call_slot : ∀ (x : Nat) (call : Call α) (j : Nat), s.calls[x]? = some call →
    call.phase.slot? = some j → j < s.cache.slots.size ∧ l.key j = call.key

/-- The labels of `l` are kept for all shelves and slots of `s`. -/
structure Labels.Extends (l l' : Labels) (s : CallSystem α) : Prop where
  container : ∀ i < s.cache.shelves.size, l'.container i = l.container i
  key : ∀ j < s.cache.slots.size, l'.key j = l.key j

theorem Labels.Extends.refl (l : Labels) (s : CallSystem α) : l.Extends l s :=
  ⟨fun _ _ => rfl, fun _ _ => rfl⟩

namespace Labelled

variable {l : Labels} {s : CallSystem α}

theorem ofLimit (l : Labels) (limit : Nat) : Labelled l (.ofLimit limit : CallSystem α) where
  container_shelf c i h := by simp [CallSystem.ofLimit, Cache.ofLimit] at h
  shelf_slot i u j h := by
    rw [Cache.shelf_of_size_le (Nat.zero_le i)] at h
    exact absurd h (by simp [default])
  call_shelf x call i h := by simp [CallSystem.ofLimit] at h
  call_slot x call j h := by simp [CallSystem.ofLimit] at h

/-- The labels of `l` with those for a shelf and for a slot that the next move may make. -/
theorem exists_next (l : Labels) (s : CallSystem α) (m : Move α) :
    ∃ l', l.Extends l' s ∧ ∀ x call, m = .advance x → s.calls[x]? = some call →
      l'.container s.cache.shelves.size = call.key.container ∧
      l'.key s.cache.slots.size = call.key := by
  by_cases h : ∃ x call, m = .advance x ∧ s.calls[x]? = some call
  · obtain ⟨x, call, rfl, hcall⟩ := h
    refine ⟨⟨Function.update l.container s.cache.shelves.size call.key.container,
      Function.update l.key s.cache.slots.size call.key⟩, ⟨?_, ?_⟩, ?_⟩
    · exact fun i hi => Function.update_of_ne (Nat.ne_of_lt hi) _ _
    · exact fun j hj => Function.update_of_ne (Nat.ne_of_lt hj) _ _
    · intro x' call' hm hcall'
      cases hm
      obtain rfl := Option.some.inj (hcall.symm.trans hcall')
      exact ⟨Function.update_self _ _ _, Function.update_self _ _ _⟩
  · exact ⟨l, .refl l s, fun x call hm hcall => absurd ⟨x, call, hm, hcall⟩ h⟩

/-- Every move keeps the labels, with new ones for what it makes. -/
theorem step (h : Labelled l s) (m : Move α) :
    ∃ l', Labelled l' (s.step m) ∧ l.Extends l' s := by
  obtain ⟨l', hextends, hnext⟩ := exists_next l s m
  have hgrows := CallSystem.grows_step s m
  refine ⟨l', ⟨?_, ?_, ?_, ?_⟩, hextends⟩
  · intro c i hi
    rcases CallSystem.container_of_step hi with hold | ⟨x, call, hm, hcall, hc, rfl, hlt⟩
    · obtain ⟨hlt, hlabel⟩ := h.container_shelf c i hold
      exact ⟨lt_of_lt_of_le hlt hgrows.shelves, by rw [hextends.container i hlt, hlabel]⟩
    · exact ⟨hlt, (hnext x call hm hcall).1.trans hc⟩
  · intro i u j hj
    rcases CallSystem.shelf_slot_of_step hj with hold | ⟨x, call, hm, hcall, hi, hu, rfl, hlt⟩
    · obtain ⟨hlt, hlabel⟩ := h.shelf_slot i u j hold
      have hi := Cache.lt_size_of_slots_eq_some hold
      refine ⟨lt_of_lt_of_le hlt hgrows.slots, ?_⟩
      rw [hextends.key j hlt, hextends.container i hi, hgrows.generation i hi, hlabel]
    · obtain ⟨hi, hcontainer, hgeneration⟩ := h.call_shelf x call i hcall hi
      refine ⟨hlt, (hnext x call hm hcall).2.trans ?_⟩
      rw [hextends.container i hi, hgrows.generation i hi, hcontainer, hgeneration, ← hu]
  · intro x call' i hcall' hi
    rcases CallSystem.call_shelf_of_step hcall' hi with hold | ⟨call, hm, hcall, hkey, hfound⟩
    · obtain ⟨hlt, hlabel, hgeneration⟩ := h.call_shelf x call' i hold hi
      refine ⟨lt_of_lt_of_le hlt hgrows.shelves, ?_, ?_⟩
      · rw [hextends.container i hlt, hlabel]
      · rw [hgrows.generation i hlt, hgeneration]
    · rw [hkey]
      rcases hfound with ⟨hcontainer, hgeneration⟩ | ⟨rfl, hlt, hgeneration⟩
      · obtain ⟨hlt, hlabel⟩ := h.container_shelf _ i hcontainer
        refine ⟨lt_of_lt_of_le hlt hgrows.shelves, ?_, ?_⟩
        · rw [hextends.container i hlt, hlabel]
        · rw [hgrows.generation i hlt, hgeneration]
      · exact ⟨hlt, (hnext x call hm hcall).1, hgeneration⟩
  · intro x call' j hcall' hj
    rcases CallSystem.call_slot_of_step hcall' hj with hold | ⟨call, hcall, hkey, hfound⟩
    · obtain ⟨hlt, hlabel⟩ := h.call_slot x call' j hold hj
      exact ⟨lt_of_lt_of_le hlt hgrows.slots, by rw [hextends.key j hlt, hlabel]⟩
    · rw [hkey]
      rcases hfound with hslot | ⟨i, hi, hslot⟩ | ⟨hm, rfl, hlt⟩
      · obtain ⟨hlt, hlabel⟩ := h.call_slot x call j hcall hslot
        exact ⟨lt_of_lt_of_le hlt hgrows.slots, by rw [hextends.key j hlt, hlabel]⟩
      · obtain ⟨hlt, hlabel⟩ := h.shelf_slot i _ j hslot
        obtain ⟨-, hcontainer, hgeneration⟩ := h.call_shelf x call i hcall hi
        refine ⟨lt_of_lt_of_le hlt hgrows.slots, ?_⟩
        rw [hextends.key j hlt, hlabel, hcontainer, hgeneration]
      · exact ⟨hlt, (hnext x call hm hcall).2⟩

/-- New labels for what is not there yet leave all as it is. -/
theorem of_extends {l' : Labels} (h : Labelled l s) (hl : l.Extends l' s) : Labelled l' s := by
  refine ⟨?_, ?_, ?_, ?_⟩
  · intro c i hi
    obtain ⟨hlt, hlabel⟩ := h.container_shelf c i hi
    exact ⟨hlt, by rw [hl.container i hlt, hlabel]⟩
  · intro i u j hj
    obtain ⟨hlt, hlabel⟩ := h.shelf_slot i u j hj
    have hi := Cache.lt_size_of_slots_eq_some hj
    exact ⟨hlt, by rw [hl.key j hlt, hl.container i hi, hlabel]⟩
  · intro x call i hcall hi
    obtain ⟨hlt, hlabel, hgeneration⟩ := h.call_shelf x call i hcall hi
    exact ⟨hlt, by rw [hl.container i hlt, hlabel], hgeneration⟩
  · intro x call j hcall hj
    obtain ⟨hlt, hlabel⟩ := h.call_slot x call j hcall hj
    exact ⟨hlt, by rw [hl.key j hlt, hlabel]⟩

/-- Labels can be chosen once for a whole run. -/
theorem exists_run (limit : Nat) (ms : List (Move α)) :
    ∃ l, ∀ before, before <+: ms → Labelled l ((CallSystem.ofLimit limit).run before) := by
  induction ms using List.reverseRecOn with
  | nil =>
    refine ⟨⟨fun _ => ⟨0⟩, fun _ => default⟩, fun before hbefore => ?_⟩
    obtain rfl := List.prefix_nil.1 hbefore
    exact ofLimit _ limit
  | append_singleton ms m ih =>
    obtain ⟨l, h⟩ := ih
    obtain ⟨l', h', hextends⟩ := (h ms List.prefix_rfl).step m
    refine ⟨l', fun before hbefore => ?_⟩
    rcases List.prefix_concat_iff.1 hbefore with rfl | hbefore
    · rw [CallSystem.run_append_singleton]
      exact h'
    · refine (h before hbefore).of_extends ?_
      obtain ⟨rest, rfl⟩ := hbefore
      have hgrows := CallSystem.grows_run ((CallSystem.ofLimit limit).run before) rest
      rw [CallSystem.run_append] at hextends
      exact ⟨fun i hi => hextends.container i (lt_of_lt_of_le hi hgrows.shelves),
        fun j hj => hextends.key j (lt_of_lt_of_le hj hgrows.slots)⟩

end Labelled

end PathFacts
