import PathFacts.Body.Basic
import PathFacts.Proofs.Evidence.Observations
import PathFacts.Proofs.Tree.Chains

/-!
# What recording one push changes

`Body.record` hands a push from conditional to conditional, each time as a push of its own
that may go through both views.  The same expression can therefore be observed many times
in one call.  This file shows that the call amounts to one observation at each expression
of a prefix of the chain, in each view that the push counts in, and to nothing else:
`Body.evidenceIn_record` for values, `Body.evidenceIn_record_failure` for broken contracts.

`Body.reached` is that prefix.  It ends at the first expression that is *saturated*, that is
top in every view that the push counts in.
-/

namespace PathFacts

open Relation (TransGen)

/-- Whether a push under `m` counts in a view.  A flag that is provably true keeps it out of
the primary view, one that is provably false out of the view with assertions disabled. -/
def Memory.countsIn (m : Memory) : View → Bool
  | .primary => m.assertionsDisabled != some true
  | .disabled => m.assertionsDisabled != some false

/-- A memory where the flag is known, and nothing else. -/
def Memory.knownFlag (isDisabled : Bool) : Memory :=
  (Memory.setAssertionsFlag {} ⟨"disabled"⟩).setType ⟨"disabled"⟩ (.constant (.bool isDisabled))

namespace Body

variable {b c : Body} {m : Memory} {value : Pushed} {e x : ExprId} {v w : View}

/-! ## Views -/

theorem evidenceIn_eq_of_shared (h : b.hasDiverged = false) (v w : View) (x : ExprId) :
    b.evidenceIn v x = b.evidenceIn w x := by
  have hd : b.disabled = none := by simpa [hasDiverged] using h
  cases v <;> cases w <;> simp [evidenceIn, view, hd]

@[simp] theorem evidenceIn_diverge (b : Body) (v : View) (x : ExprId) :
    b.diverge.evidenceIn v x = b.evidenceIn v x := by
  cases v <;> rfl

@[simp] theorem hasDiverged_diverge (b : Body) : b.diverge.hasDiverged = true := rfl

@[simp] theorem hasDiverged_update (b : Body) (v : View) (e : ExprId) (f : Evidence → Evidence) :
    (b.update v e f).hasDiverged = b.hasDiverged := by
  obtain ⟨primary, disabled, status⟩ := b
  cases v <;> cases disabled <;> rfl

/-- A change to one expression in one view is seen in the other view only while the two are
shared, and at no other expression. -/
theorem evidenceIn_update (b : Body) (v w : View) (e x : ExprId) (f : Evidence → Evidence) :
    (b.update v e f).evidenceIn w x =
      if e = x ∧ (v = w ∨ b.hasDiverged = false) then some (f ((b.evidenceIn w x).getD {}))
      else b.evidenceIn w x := by
  obtain ⟨primary, disabled, status⟩ := b
  by_cases h : e = x
  · subst h
    cases v <;> cases w <;> cases disabled <;>
      simp [update, setView, evidenceIn, view, hasDiverged]
  · cases v <;> cases w <;> cases disabled <;>
      simp [update, setView, evidenceIn, view, hasDiverged, Std.ExtTreeMap.getElem?_alter, h]

/-! ## The expressions that a push reaches -/

/-- What a view knows of `e`; bottom where it saw nothing. -/
def seenType (b : Body) (v : View) (e : ExprId) : ValueType :=
  ((b.evidenceIn v e).getD {}).type

/-- Whether nothing is known of `e` any more in a view. -/
def topIn (b : Body) (v : View) (e : ExprId) : Bool := (b.evidenceIn v e).any (·.type.isTop)

/-- Whether nothing is known of `e` any more in any view that a push under `m` counts in. -/
def saturated (b : Body) (m : Memory) (e : ExprId) : Bool :=
  (!m.countsIn .primary || b.topIn .primary e) && (!m.countsIn .disabled || b.topIn .disabled e)

/-- The expressions of a chain that a push under `m` reaches: all up to the first saturated
one, which still sees the push. -/
def reached (b : Body) (m : Memory) : List ExprId → List ExprId
  | [] => []
  | e :: rest => e :: if b.saturated m e then [] else b.reached m rest

theorem topIn_iff : b.topIn v e = true ↔ b.seenType v e = .top := by
  rw [topIn, seenType]
  cases b.evidenceIn v e <;> simp [ValueType.isTop]

theorem saturated_iff :
    b.saturated m e = true ↔ ∀ v, m.countsIn v = true → b.topIn v e = true := by
  simp only [saturated, Bool.and_eq_true, Bool.or_eq_true, Bool.not_eq_true']
  constructor
  · rintro ⟨hp, hd⟩ v hv
    cases v
    · exact hp.resolve_left (by simp [hv])
    · exact hd.resolve_left (by simp [hv])
  · intro h
    refine ⟨?_, ?_⟩
    · cases hp : m.countsIn .primary
      · exact Or.inl rfl
      · exact Or.inr (h .primary hp)
    · cases hd : m.countsIn .disabled
      · exact Or.inl rfl
      · exact Or.inr (h .disabled hd)

theorem mem_reached_cons {rest : List ExprId} :
    x ∈ b.reached m (e :: rest) ↔ e = x ∨ (b.saturated m e = false ∧ x ∈ b.reached m rest) := by
  rw [reached, List.mem_cons, eq_comm]
  cases b.saturated m e <;> simp

theorem mem_of_mem_reached {l : List ExprId} (h : x ∈ b.reached m l) : x ∈ l := by
  induction l with
  | nil => exact h
  | cons e rest ih =>
    rcases mem_reached_cons.1 h with rfl | ⟨-, h⟩
    · exact List.mem_cons_self
    · exact List.mem_cons_of_mem _ (ih h)

/-- The more is top, the less far a push reaches. -/
theorem reached_anti {l : List ExprId}
    (h : ∀ v, ∀ z ∈ l, b.topIn v z = true → c.topIn v z = true) (hx : x ∈ c.reached m l) :
    x ∈ b.reached m l := by
  induction l with
  | nil => exact hx
  | cons e rest ih =>
    rw [mem_reached_cons] at hx ⊢
    rcases hx with rfl | ⟨hopen, hx⟩
    · exact Or.inl rfl
    · have hsat : b.saturated m e = true → c.saturated m e = true := fun hb =>
        saturated_iff.2 fun v hv => h v e List.mem_cons_self (saturated_iff.1 hb v hv)
      refine Or.inr ⟨?_, ih (fun v z hz => h v z (List.mem_cons_of_mem _ hz)) hx⟩
      rw [← Bool.not_eq_true] at hopen ⊢
      exact mt hsat hopen

theorem mem_reached_congr {l : List ExprId} (h : ∀ v, ∀ z ∈ l, b.topIn v z = c.topIn v z) :
    x ∈ b.reached m l ↔ x ∈ c.reached m l :=
  ⟨reached_anti fun v z hz hc => (h v z hz).trans hc,
    reached_anti fun v z hz hb => (h v z hz).symm.trans hb⟩

/-- One pass takes nothing away that is top. -/
theorem topIn_mono (m : Memory) (value : Pushed) (h : c.evidenceIn v x = b.evidenceIn v x ∨
      c.evidenceIn v x = some (((b.evidenceIn v x).getD {}).observe m value))
    (hb : b.topIn v x = true) : c.topIn v x = true := by
  rw [topIn_iff] at hb ⊢
  rcases h with h | h
  · rwa [seenType, h]
  · rw [seenType, h, Option.getD_some, Evidence.type_observe]
    rw [seenType] at hb
    rw [hb, ValueType.top_join]

@[simp] theorem reached_diverge (b : Body) (m : Memory) (l : List ExprId) :
    b.diverge.reached m l = b.reached m l := by
  induction l with
  | nil => rfl
  | cons e rest ih =>
    have hsat : b.diverge.saturated m e = b.saturated m e := by simp [saturated, topIn]
    rw [reached, reached, hsat, ih]

/-! ## One pass through one view -/

/-- `passOn` observes a push once at each expression of `rest` that it reaches, in each view
that it counts in, and changes nothing else.  A provable flag asks for views that are kept
apart already. -/
def Delivers (m : Memory) (value : Pushed) (rest : List ExprId) (passOn : Body → Body) : Prop :=
  ∀ b : Body, (m.assertionsDisabled = none ∨ b.hasDiverged = true) →
    (passOn b).hasDiverged = b.hasDiverged ∧
    ∀ w x, (passOn b).evidenceIn w x =
      if m.countsIn w = true ∧ x ∈ b.reached m rest then
        some (((b.evidenceIn w x).getD {}).observe m value)
      else b.evidenceIn w x

theorem topIn_update_id (b : Body) (v w : View) (e x : ExprId) :
    (b.update v e id).topIn w x = b.topIn w x := by
  rw [topIn, evidenceIn_update, topIn]
  split
  · cases h : b.evidenceIn w x
    · rfl
    · simp
  · rfl

/-- What a pass does before it observes its first expression `e`: it makes an empty point for
`e` if there is none and, unless `e` is top, passes the push on. -/
def handOn (v : View) (e : ExprId) (passOn : Body → Body) (b : Body) : Body :=
  if b.topIn v e then b.update v e id else passOn (b.update v e id)

theorem observeIn_of_ne (hv : value ≠ .contractFailure) (v : View) (e : ExprId) (m : Memory)
    (passOn : Body → Body) (b : Body) :
    observeIn v e m value passOn b = (b.handOn v e passOn).update v e (·.observe m value) := by
  have htop : ((b.update v e id).evidenceIn v e).any (·.type.isTop) = b.topIn v e :=
    topIn_update_id b v v e e
  cases value with
  | contractFailure => exact absurd rfl hv
  | typed _ => simp only [observeIn, handOn, htop]
  | stored _ => simp only [observeIn, handOn, htop]
  | wrapped _ _ => simp only [observeIn, handOn, htop]

section OnePass

variable {rest : List ExprId} {passOn : Body → Body} (hv : value ≠ .contractFailure)
  (hpass : Delivers m value rest passOn) (he : e ∉ rest)
  (hb : m.assertionsDisabled = none ∨ b.hasDiverged = true)

include hpass hb in
theorem hasDiverged_handOn (v : View) (e : ExprId) :
    (b.handOn v e passOn).hasDiverged = b.hasDiverged := by
  unfold handOn
  split
  · exact hasDiverged_update b v e id
  · rw [(hpass _ (by rwa [hasDiverged_update])).1, hasDiverged_update]

include hpass he hb in
theorem evidenceIn_handOn (v w : View) (x : ExprId) :
    (b.handOn v e passOn).evidenceIn w x =
      if b.topIn v e = false ∧ m.countsIn w = true ∧ x ∈ b.reached m rest then
        some (((b.evidenceIn w x).getD {}).observe m value)
      else (b.update v e id).evidenceIn w x := by
  unfold handOn
  cases htop : b.topIn v e with
  | true => simp
  | false =>
    have hreach : x ∈ (b.update v e id).reached m rest ↔ x ∈ b.reached m rest :=
      mem_reached_congr fun u z _ => topIn_update_id b v u e z
    rw [if_neg Bool.false_ne_true, (hpass _ (by rwa [hasDiverged_update])).2]
    by_cases h : m.countsIn w = true ∧ x ∈ b.reached m rest
    · have hex : e ≠ x := fun hex => he (hex ▸ mem_of_mem_reached h.2)
      rw [if_pos ⟨h.1, hreach.2 h.2⟩, if_pos ⟨rfl, h⟩, evidenceIn_update,
        if_neg fun hx => hex hx.1]
    · rw [if_neg fun h' => h ⟨h'.1, hreach.1 h'.2⟩, if_neg fun h' => h h'.2]

include hv hpass hb in
theorem hasDiverged_observeIn (v : View) :
    (observeIn v e m value passOn b).hasDiverged = b.hasDiverged := by
  rw [observeIn_of_ne hv, hasDiverged_update, hasDiverged_handOn hpass hb]

include hv hpass he hb in
/-- In one pass the first expression of a chain is observed in the view of the pass, and the
push goes on to the rest of the chain unless that expression was top there. -/
theorem evidenceIn_observeIn (v w : View) (x : ExprId) :
    (observeIn v e m value passOn b).evidenceIn w x =
      if e = x then
        if v = w ∨ b.hasDiverged = false then
          some (((b.evidenceIn w x).getD {}).observe m value)
        else b.evidenceIn w x
      else if b.topIn v e = false ∧ m.countsIn w = true ∧ x ∈ b.reached m rest then
        some (((b.evidenceIn w x).getD {}).observe m value)
      else b.evidenceIn w x := by
  rw [observeIn_of_ne hv, evidenceIn_update, hasDiverged_handOn hpass hb,
    evidenceIn_handOn hpass he hb, evidenceIn_update]
  by_cases hex : e = x
  · subst hex
    have hself : e ∉ b.reached m rest := fun h => he (mem_of_mem_reached h)
    by_cases hvw : v = w ∨ b.hasDiverged = false
    · simp [hvw, hself]
    · simp [hvw, hself]
  · simp only [hex, false_and, if_false]

include hv hpass he hb in
/-- One pass is enough if it changes every view that the push counts in. -/
theorem evidenceIn_single_pass
    (hcounts : ∀ u, m.countsIn u = true ↔ v = u ∨ b.hasDiverged = false) (w : View) (x : ExprId) :
    (observeIn v e m value passOn b).evidenceIn w x =
      if m.countsIn w = true ∧ x ∈ b.reached m (e :: rest) then
        some (((b.evidenceIn w x).getD {}).observe m value)
      else b.evidenceIn w x := by
  have hsat : b.saturated m e = b.topIn v e := by
    rw [Bool.eq_iff_iff, saturated_iff]
    refine ⟨fun h => h v ((hcounts v).2 (Or.inl rfl)), fun h u hu => ?_⟩
    rcases (hcounts u).1 hu with rfl | hshared
    · exact h
    · rwa [topIn, evidenceIn_eq_of_shared hshared u v]
  rw [evidenceIn_observeIn hv hpass he hb]
  simp only [mem_reached_cons, hsat, ← hcounts w]
  by_cases hex : e = x
  · simp [hex]
  · simp only [hex, if_false, false_or]
    exact if_congr (by tauto) rfl rfl

section UnknownFlag

variable (hflag : m.assertionsDisabled = none) (hdiv : b.hasDiverged = true)

include hv hpass he hflag hdiv

/-- A pass through one of two separate views.  Only the first expression is special: further
up an unknown flag takes the push through both views. -/
theorem evidenceIn_observeIn_unknown (v w : View) (x : ExprId) :
    (observeIn v e m value passOn b).evidenceIn w x =
      if (e = x ∧ v = w) ∨ (e ≠ x ∧ b.topIn v e = false ∧ x ∈ b.reached m rest) then
        some (((b.evidenceIn w x).getD {}).observe m value)
      else b.evidenceIn w x := by
  have hcounts : m.countsIn w = true := by cases w <;> simp [Memory.countsIn, hflag]
  rw [evidenceIn_observeIn hv hpass he (Or.inl hflag)]
  by_cases hex : e = x
  · simp [hex, hdiv]
  · simp [hex, hcounts]

/-- A second pass reaches no further than the first. -/
theorem mem_reached_of_observeIn (h : x ∈ (observeIn v e m value passOn b).reached m rest) :
    x ∈ b.reached m rest := by
  refine reached_anti (fun u z _ => topIn_mono m value ?_) h
  rw [evidenceIn_observeIn_unknown hv hpass he hflag hdiv]
  split
  · exact Or.inr rfl
  · exact Or.inl rfl

/-- Where the first pass went no further than `e`, the second one finds the rest as it was. -/
theorem mem_reached_observeIn_of_top (htop : b.topIn v e = true) :
    x ∈ (observeIn v e m value passOn b).reached m rest ↔ x ∈ b.reached m rest := by
  refine mem_reached_congr fun u z hz => ?_
  have hez : e ≠ z := fun hez => he (hez ▸ hz)
  have hsame : (observeIn v e m value passOn b).evidenceIn u z = b.evidenceIn u z := by
    rw [evidenceIn_observeIn_unknown hv hpass he hflag hdiv, if_neg]
    simp [hez, htop]
  rw [topIn, hsame, topIn]

/-- Two passes, one through each view, come to one observation in both: what the second pass
delivers again changes nothing. -/
theorem evidenceIn_two_passes (w : View) (x : ExprId) :
    (observeIn .disabled e m value passOn (observeIn .primary e m value passOn b)).evidenceIn w x =
      if m.countsIn w = true ∧ x ∈ b.reached m (e :: rest) then
        some (((b.evidenceIn w x).getD {}).observe m value)
      else b.evidenceIn w x := by
  have hcounts : ∀ u, m.countsIn u = true := by
    intro u
    cases u <;> simp [Memory.countsIn, hflag]
  have hsat : b.saturated m e = (b.topIn .primary e && b.topIn .disabled e) := by
    simp [saturated, hcounts]
  set first := observeIn .primary e m value passOn b with hfirst
  have hfirstDiv : first.hasDiverged = true := by
    rw [hfirst, hasDiverged_observeIn hv hpass (Or.inl hflag), hdiv]
  have hev : ∀ u y, first.evidenceIn u y = _ :=
    evidenceIn_observeIn_unknown hv hpass he hflag hdiv .primary
  have htop : first.topIn .disabled e = b.topIn .disabled e := by
    rw [topIn, hev, if_neg (by simp), topIn]
  rw [evidenceIn_observeIn_unknown hv hpass he hflag hfirstDiv, htop, hev]
  simp only [mem_reached_cons, hsat, hcounts, true_and]
  by_cases hex : e = x
  · cases w <;> simp [hex]
  · cases hp : b.topIn .primary e with
    | true =>
      have hreach : x ∈ first.reached m rest ↔ x ∈ b.reached m rest :=
        mem_reached_observeIn_of_top hv hpass he hflag hdiv hp
      simp [hex, hreach]
    | false =>
      by_cases hx : x ∈ b.reached m rest
      · simp [hex, hx, Evidence.observe_observe]
      · have hx' : x ∉ first.reached m rest :=
          mt (mem_reached_of_observeIn hv hpass he hflag hdiv) hx
        simp [hex, hx, hx']

end UnknownFlag

end OnePass

/-! ## A whole chain -/

/-- Recording along a chain comes to one observation at each expression that is reached,
however often the push goes through it. -/
theorem delivers_recordChain (hv : value ≠ .contractFailure) {l : List ExprId} (hl : l.Nodup) :
    Delivers m value l (recordChain m value l) := by
  induction l with
  | nil => exact fun b _ => ⟨rfl, fun w x => by simp [recordChain, reached]⟩
  | cons e rest ih =>
    obtain ⟨he, hrest⟩ := List.nodup_cons.1 hl
    have hpass := ih hrest
    intro b hb
    cases hflag : m.assertionsDisabled with
    | some flag =>
      have hdiv : b.hasDiverged = true := hb.resolve_left (by simp [hflag])
      have hb' : m.assertionsDisabled = none ∨ b.diverge.hasDiverged = true := Or.inr rfl
      set only : View := if flag then .disabled else .primary with honly
      have hrec : recordChain m value (e :: rest) b =
          observeIn only e m value (recordChain m value rest) b.diverge := by
        cases flag <;> simp [recordChain, hflag, honly]
      have hcounts : ∀ u, m.countsIn u = true ↔ only = u ∨ b.diverge.hasDiverged = false := by
        intro u
        cases flag <;> cases u <;> simp [Memory.countsIn, hflag, honly]
      rw [hrec]
      refine ⟨by rw [hasDiverged_observeIn hv hpass hb', hasDiverged_diverge, hdiv], ?_⟩
      intro w x
      rw [evidenceIn_single_pass hv hpass he hb' hcounts]
      simp
    | none =>
      have hpassDiv : ∀ (u : View) (c : Body),
          (observeIn u e m value (recordChain m value rest) c).hasDiverged = c.hasDiverged :=
        fun u c => hasDiverged_observeIn hv hpass (Or.inl hflag) u
      cases hdiv : b.hasDiverged with
      | false =>
        have hrec : recordChain m value (e :: rest) b =
            observeIn .primary e m value (recordChain m value rest) b := by
          simp [recordChain, hflag, hpassDiv, hdiv]
        rw [hrec]
        refine ⟨by rw [hpassDiv, hdiv], evidenceIn_single_pass hv hpass he hb ?_⟩
        intro u
        cases u <;> simp [Memory.countsIn, hflag, hdiv]
      | true =>
        have hrec : recordChain m value (e :: rest) b =
            observeIn .disabled e m value (recordChain m value rest)
              (observeIn .primary e m value (recordChain m value rest) b) := by
          simp [recordChain, hflag, hpassDiv, hdiv]
        rw [hrec]
        exact ⟨by rw [hpassDiv, hpassDiv, hdiv],
          evidenceIn_two_passes hv hpass he hflag hdiv⟩

/-! ## A whole push -/

variable {t : Tree}

@[simp] theorem diverge_diverge (b : Body) : b.diverge.diverge = b.diverge := rfl

/-- A provable flag keeps the views apart before anything else happens. -/
theorem recordChain_diverge (h : m.assertionsDisabled ≠ none) (value : Pushed) (e : ExprId)
    (rest : List ExprId) (b : Body) :
    recordChain m value (e :: rest) b.diverge = recordChain m value (e :: rest) b := by
  cases hflag : m.assertionsDisabled with
  | none => exact absurd hflag h
  | some flag => cases flag <;> simp only [recordChain, hflag, diverge_diverge]

/-- A push reaches what takes over its values, unless something saturated stands between. -/
theorem mem_reached_feedChain_iff (ht : t.Acyclic) {b : Body} {m : Memory} {e x : ExprId} :
    x ∈ b.reached m (t.feedChain e) ↔
      t.Reaches e x ∧
        ∀ z, t.Reaches e z → TransGen t.Feeds z x → b.saturated m z = false := by
  generalize hl : t.feedChain e = l
  induction l generalizing e with
  | nil =>
    obtain ⟨rest, hrest⟩ := t.exists_feedChain_eq_cons e
    exact absurd (hrest.symm.trans hl) (List.cons_ne_nil e rest)
  | cons a rest ih =>
    cases hfeed : t.feedsInto? e with
    | none =>
      obtain ⟨rfl, rfl⟩ := List.cons.inj ((Tree.feedChain_of_none hfeed).symm.trans hl)
      have hself : x ∈ b.reached m [e] ↔ e = x :=
        mem_reached_cons.trans (or_iff_left fun h => List.not_mem_nil h.2)
      simp only [hself, Tree.reaches_iff_of_none hfeed]
      constructor
      · rintro rfl
        refine ⟨rfl, ?_⟩
        rintro z rfl hee
        exact absurd hee (ht.feeds e)
      · exact And.left
    | some p =>
      have hep : t.Feeds e p := hfeed
      obtain ⟨rfl, hrest⟩ := List.cons.inj ((Tree.feedChain_of_feeds ht hep).symm.trans hl)
      rw [mem_reached_cons, ih hrest, Tree.reaches_iff_of_feeds hep]
      constructor
      · rintro (rfl | ⟨he, hpx, hopen⟩)
        · exact ⟨Or.inl rfl, fun z hez hze =>
            absurd (TransGen.trans_right hez hze) (ht.feeds e)⟩
        · refine ⟨Or.inr hpx, fun z hez hzx => ?_⟩
          rcases (Tree.reaches_iff_of_feeds hep).1 hez with rfl | hpz
          · exact he
          · exact hopen z hpz hzx
      · rintro ⟨rfl | hpx, hopen⟩
        · exact Or.inl rfl
        · exact Or.inr ⟨hopen e .refl (TransGen.head' hep hpx), hpx,
            fun z hpz => hopen z (.head hep hpz)⟩

/-- A push is observed once at each expression that it reaches, in each view that it counts
in, and changes nothing else. -/
theorem evidenceIn_record (ht : t.Acyclic) (hv : value ≠ .contractFailure) (b : Body)
    (e : ExprId) (m : Memory) (w : View) (x : ExprId) :
    (b.record t e m value).evidenceIn w x =
      if m.countsIn w = true ∧ x ∈ b.reached m (t.feedChain e) then
        some (((b.evidenceIn w x).getD {}).observe m value)
      else b.evidenceIn w x := by
  have hchain := delivers_recordChain (m := m) hv (Tree.nodup_feedChain ht e)
  by_cases hflag : m.assertionsDisabled = none
  · exact (hchain b (Or.inl hflag)).2 w x
  · obtain ⟨rest, hrest⟩ := t.exists_feedChain_eq_cons e
    have hdiverge := (hchain b.diverge (Or.inr rfl)).2 w x
    rw [hrest, recordChain_diverge hflag] at hdiverge
    rw [record, hrest, hdiverge, evidenceIn_diverge, reached_diverge]

@[simp] theorem hasDiverged_observeIn_failure (v : View) (e : ExprId) (m : Memory)
    (passOn : Body → Body) (b : Body) :
    (observeIn v e m .contractFailure passOn b).hasDiverged = b.hasDiverged := by
  rw [observeIn, hasDiverged_update, hasDiverged_update]

theorem evidenceIn_observeIn_failure (v w : View) (e x : ExprId) (m : Memory)
    (passOn : Body → Body) (b : Body) :
    (observeIn v e m .contractFailure passOn b).evidenceIn w x =
      if e = x ∧ (v = w ∨ b.hasDiverged = false) then
        some ((b.evidenceIn w x).getD {}).markFailure
      else b.evidenceIn w x := by
  rw [observeIn, evidenceIn_update, evidenceIn_update, hasDiverged_update]
  split
  · simp
  · rfl

/-- A broken contract is marked at its own expression only. -/
theorem evidenceIn_record_failure (t : Tree) (b : Body) (e : ExprId) (m : Memory) (w : View)
    (x : ExprId) :
    (b.record t e m .contractFailure).evidenceIn w x =
      if m.countsIn w = true ∧ e = x then some ((b.evidenceIn w x).getD {}).markFailure
      else b.evidenceIn w x := by
  obtain ⟨rest, hrest⟩ := t.exists_feedChain_eq_cons e
  rw [record, hrest, recordChain]
  rcases hflag : m.assertionsDisabled with _ | _ | _ <;> cases hb : b.hasDiverged <;>
    cases w <;> by_cases hex : e = x <;>
    simp [evidenceIn_observeIn_failure, Memory.countsIn, hb, hex, hflag]

@[simp] theorem status_update (b : Body) (v : View) (e : ExprId) (f : Evidence → Evidence) :
    (b.update v e f).status = b.status := by
  obtain ⟨primary, disabled, status⟩ := b
  cases v <;> cases disabled <;> rfl

theorem status_observeIn {passOn : Body → Body} (hpass : ∀ c, (passOn c).status = c.status)
    (v : View) (e : ExprId) (m : Memory) (value : Pushed) (b : Body) :
    (observeIn v e m value passOn b).status = b.status := by
  by_cases hv : value = .contractFailure
  · rw [hv, observeIn, status_update, status_update]
  · rw [observeIn_of_ne hv, status_update, handOn]
    split
    · exact status_update b v e id
    · rw [hpass, status_update]

@[simp] theorem status_record (t : Tree) (e : ExprId) (m : Memory) (value : Pushed) (b : Body) :
    (b.record t e m value).status = b.status := by
  suffices h : ∀ l c, (recordChain m value l c).status = c.status from h _ b
  intro l
  induction l with
  | nil => exact fun c => rfl
  | cons e rest ih =>
    intro c
    rw [recordChain]
    split
    · rw [status_observeIn ih]
      rfl
    · rw [status_observeIn ih]
      rfl
    · dsimp only
      split
      · rw [status_observeIn ih, status_observeIn ih]
      · rw [status_observeIn ih]

/-- The views are kept apart from the first push under a provable flag on. -/
theorem hasDiverged_record (ht : t.Acyclic) (b : Body) (e : ExprId) (m : Memory)
    (value : Pushed) :
    (b.record t e m value).hasDiverged = (b.hasDiverged || m.assertionsDisabled.isSome) := by
  obtain ⟨rest, hrest⟩ := t.exists_feedChain_eq_cons e
  by_cases hv : value = .contractFailure
  · subst hv
    rw [record, hrest, recordChain]
    rcases hflag : m.assertionsDisabled with _ | _ | _ <;> cases hb : b.hasDiverged <;> simp [hb]
  · have hchain := delivers_recordChain (m := m) hv (Tree.nodup_feedChain ht e)
    by_cases hflag : m.assertionsDisabled = none
    · rw [record, (hchain b (Or.inl hflag)).1]
      simp [hflag]
    · have hdiverge := (hchain b.diverge (Or.inr rfl)).1
      rw [hrest, recordChain_diverge hflag] at hdiverge
      rw [record, hrest, hdiverge, hasDiverged_diverge, Option.isSome_iff_ne_none.2 hflag,
        Bool.or_true]

end Body
end PathFacts
