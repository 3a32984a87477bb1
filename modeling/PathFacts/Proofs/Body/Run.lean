import PathFacts.Proofs.Body.Delivery
import Mathlib.Data.List.Induction

/-!
# Runs of pushes

What a view knows of an expression after a run, constants aside, depends only on the pushes
that flow to the expression and count in the view.  This file proves it for every run
(`Body.summaryIn_recordAll`) and reads the queries off it (`Body.facts_recordAll`).

The invariant behind it is `Body.Ascending`: in each view a branch is below the conditional
that takes over its values.  A push that is held back at a branch that is top already could
therefore only have been joined to conditionals that are top as well.
-/

namespace PathFacts

open Relation (TransGen ReflTransGen)

/-- A value that is pushed for an expression. -/
structure Push where
  target : ExprId
  memory : Memory
  value : Pushed
deriving DecidableEq

namespace Push

variable {t : Tree} {p : Push} {x : ExprId} {v : View}

/-- Whether the push counts in a view. -/
def countsIn (p : Push) (v : View) : Bool := p.memory.countsIn v

/-- The refined type of the pushed value. -/
def type (p : Push) : ValueType := p.memory.refined p.value

/-- The constant that the pushed value has. -/
def constant? (p : Push) : Option Constant := (p.memory.typeOf p.value).constant?

/-- Whether no value is pushed because a contract was broken. -/
def isFailure (p : Push) : Bool := p.value == .contractFailure

/-- Whether a value is pushed for `x` or for an expression whose values `x` takes over. -/
def flowsTo (p : Push) (t : Tree) (x : ExprId) : Bool :=
  !p.isFailure && (t.feedChain p.target).contains x

/-- Whether the contract of `x` was broken. -/
def breaks (p : Push) (x : ExprId) : Bool := p.isFailure && p.target == x

/-- Whether the push tells anything about `x` in a view. -/
def touches (p : Push) (t : Tree) (v : View) (x : ExprId) : Bool :=
  p.countsIn v && (p.flowsTo t x || p.breaks x)

/-- What was seen of an expression, with what the push tells. -/
def addTo (p : Push) (s : Evidence) : Evidence :=
  if p.isFailure then s.markFailure else { s with type := s.type.join p.type }

/-- What a view knows of `x` after the push, constants aside. -/
def tally (t : Tree) (v : View) (x : ExprId) (s : Option Evidence) (p : Push) : Option Evidence :=
  if p.touches t v x then some (p.addTo (s.getD {})) else s

/-- Records the push. -/
def record (p : Push) (t : Tree) (b : Body) : Body := b.record t p.target p.memory p.value

theorem countsIn_primary_iff :
    p.countsIn .primary = true ↔ p.memory.assertionsDisabled ≠ some true := by
  rw [countsIn, Memory.countsIn, bne_iff_ne]

theorem countsIn_disabled_iff :
    p.countsIn .disabled = true ↔ p.memory.assertionsDisabled ≠ some false := by
  rw [countsIn, Memory.countsIn, bne_iff_ne]

theorem isFailure_iff : p.isFailure = true ↔ p.value = .contractFailure := by
  rw [isFailure, beq_iff_eq]

theorem flowsTo_iff (ht : t.Acyclic) :
    p.flowsTo t x = true ↔ p.value ≠ .contractFailure ∧ t.Reaches p.target x := by
  rw [flowsTo, Bool.and_eq_true, Bool.not_eq_true', ← Bool.not_eq_true, isFailure_iff,
    List.contains_iff_mem, Tree.mem_feedChain_iff ht]

theorem breaks_iff : p.breaks x = true ↔ p.value = .contractFailure ∧ p.target = x := by
  rw [breaks, Bool.and_eq_true, isFailure_iff, beq_iff_eq]

theorem touches_of_failure (h : p.isFailure = true) :
    p.touches t v x = (p.countsIn v && p.target == x) := by
  simp [touches, flowsTo, breaks, h]

theorem touches_of_value (h : p.isFailure = false) :
    p.touches t v x = (p.countsIn v && p.flowsTo t x) := by
  simp [touches, breaks, h]

theorem addTo_of_failure (h : p.isFailure = true) (s : Evidence) : p.addTo s = s.markFailure :=
  if_pos h

theorem addTo_of_value (h : p.isFailure = false) (s : Evidence) :
    p.addTo s = { s with type := s.type.join p.type } :=
  if_neg (by simp [h])

/-- Values flow on to whatever takes them over. -/
theorem flowsTo_of_feeds (ht : t.Acyclic) {y : ExprId} (h : p.flowsTo t x = true)
    (hxy : t.Feeds x y) : p.flowsTo t y = true := by
  rw [flowsTo_iff ht] at h ⊢
  exact ⟨h.1, h.2.tail hxy⟩

theorem flowsTo_of_transGen (ht : t.Acyclic) {y : ExprId} (h : p.flowsTo t x = true)
    (hxy : TransGen t.Feeds x y) : p.flowsTo t y = true := by
  induction hxy with
  | single hxy => exact flowsTo_of_feeds ht h hxy
  | tail _ hyz ih => exact flowsTo_of_feeds ht ih hyz

end Push

/-- The pushes of a run that flow to `x` and count in a view. -/
def flows (t : Tree) (v : View) (x : ExprId) (ps : List Push) : List Push :=
  ps.filter fun p => p.countsIn v && p.flowsTo t x

/-- The join of all that flows to `x` in a view. -/
def flowType (t : Tree) (v : View) (x : ExprId) (ps : List Push) : ValueType :=
  .joinAll ((flows t v x ps).map Push.type)

/-- Evidence without its constants. -/
def Evidence.forgetConstants (s : Evidence) : Evidence := { s with constants := .empty }

namespace Body

/-- Records a run of pushes. -/
def recordAll (t : Tree) (ps : List Push) (b : Body) : Body := ps.foldl (fun b p => p.record t b) b

/-- What a view knows of `x`, constants aside. -/
def summaryIn (b : Body) (v : View) (x : ExprId) : Option Evidence :=
  (b.evidenceIn v x).map Evidence.forgetConstants

/-- In each view a branch is below the conditional that takes over its values. -/
def Ascending (t : Tree) (b : Body) : Prop :=
  ∀ v x y, t.Feeds x y → b.seenType v x ≤ b.seenType v y

variable {t : Tree} {b : Body} {p : Push} {v : View} {x : ExprId}

@[simp] theorem recordAll_nil (t : Tree) (b : Body) : recordAll t [] b = b := rfl

@[simp] theorem recordAll_cons (t : Tree) (p : Push) (ps : List Push) (b : Body) :
    recordAll t (p :: ps) b = recordAll t ps (p.record t b) := rfl

theorem recordAll_append (t : Tree) (ps qs : List Push) (b : Body) :
    recordAll t (ps ++ qs) b = recordAll t qs (recordAll t ps b) :=
  List.foldl_append

/-! ## Summaries -/

theorem forgetConstants_getD (s : Option Evidence) :
    (s.map Evidence.forgetConstants).getD {} = (s.getD {}).forgetConstants := by
  cases s <;> rfl

theorem seenType_eq (b : Body) (v : View) (x : ExprId) :
    b.seenType v x = ((b.summaryIn v x).getD {}).type := by
  rw [summaryIn, forgetConstants_getD]
  rfl

/-- Bodies that agree on a summary also agree on its evidence if they do on the constants. -/
theorem evidenceIn_eq_iff {c : Body} (h : b.summaryIn v x = c.summaryIn v x) :
    b.evidenceIn v x = c.evidenceIn v x ↔
      ((b.evidenceIn v x).getD {}).constants = ((c.evidenceIn v x).getD {}).constants := by
  unfold summaryIn at h
  refine ⟨fun heq => by rw [heq], fun heq => ?_⟩
  rcases hb : b.evidenceIn v x with _ | p <;> rcases hc : c.evidenceIn v x with _ | q
  · rfl
  · simp [hb, hc] at h
  · simp [hb, hc] at h
  · rw [hb, hc, Option.map_some, Option.map_some, Option.some.injEq] at h
    rw [hb, hc, Option.getD_some, Option.getD_some] at heq
    have htype : p.forgetConstants.type = q.forgetConstants.type := by rw [h]
    have hfail : p.forgetConstants.mayFail = q.forgetConstants.mayFail := by rw [h]
    exact congrArg some (Evidence.eq_of_fields htype heq hfail)

/-- What the primary summary decides. -/
theorem queries_of_summaryIn_eq {c : Body} (h : b.summaryIn .primary x = c.summaryIn .primary x) :
    b.tracks x = c.tracks x ∧ b.type x = c.type x ∧ b.cannotFail x = c.cannotFail x := by
  have htracks : ∀ d : Body, d.tracks x = (d.summaryIn .primary x).isSome := by
    intro d
    rw [summaryIn, Option.isSome_map]
    rfl
  have htype : ∀ d : Body, d.type x = ((d.summaryIn .primary x).map (·.type)).getD .top := by
    intro d
    rw [summaryIn, Option.map_map]
    rfl
  have hfail : ∀ d : Body, d.cannotFail x = (d.summaryIn .primary x).any (!·.mayFail) := by
    intro d
    rw [summaryIn, Option.any_map]
    rfl
  exact ⟨by rw [htracks, htracks, h], by rw [htype, htype, h], by rw [hfail, hfail, h]⟩

/-- Types ascend along any number of steps. -/
theorem Ascending.seenType_le (h : b.Ascending t) {y : ExprId} (hxy : TransGen t.Feeds x y) :
    b.seenType v x ≤ b.seenType v y := by
  induction hxy with
  | single hxy => exact h v _ _ hxy
  | tail _ hyz ih => exact ih.trans (h v _ _ hyz)

/-- A value that is held back below `x` would have told nothing about the type of `x`. -/
theorem seenType_eq_top_of_held_back (ht : t.Acyclic) (hb : b.Ascending t)
    (hcounts : p.countsIn v = true) (hflow : p.flowsTo t x = true)
    (hheld : x ∉ b.reached p.memory (t.feedChain p.target)) : b.seenType v x = .top := by
  have hreach : t.Reaches p.target x := ((Push.flowsTo_iff ht).1 hflow).2
  rw [mem_reached_feedChain_iff ht] at hheld
  simp only [hreach, true_and, not_forall, Bool.not_eq_false] at hheld
  obtain ⟨z, -, hzx, hz⟩ := hheld
  have htop : b.seenType v z = .top := topIn_iff.1 (saturated_iff.1 hz v hcounts)
  exact ValueType.eq_top_of_le (hb.seenType_le hzx) htop

theorem summaryIn_record_failure (t : Tree) (b : Body) (hfail : p.isFailure = true) (v : View)
    (x : ExprId) : (p.record t b).summaryIn v x = p.tally t v x (b.summaryIn v x) := by
  rw [Push.tally, Push.touches_of_failure hfail, Push.addTo_of_failure hfail, summaryIn,
    Push.record, Push.isFailure_iff.1 hfail, evidenceIn_record_failure]
  by_cases h : p.memory.countsIn v = true ∧ p.target = x
  · have h' : (p.countsIn v && p.target == x) = true := by simpa [Push.countsIn] using h
    rw [if_pos h, if_pos h', summaryIn, forgetConstants_getD]
    rfl
  · have h' : ¬ (p.countsIn v && p.target == x) = true := by simpa [Push.countsIn] using h
    rw [if_neg h, if_neg h', summaryIn]

theorem summaryIn_record_value (ht : t.Acyclic) (hb : b.Ascending t)
    (hvalue : p.isFailure = false) (v : View) (x : ExprId) :
    (p.record t b).summaryIn v x = p.tally t v x (b.summaryIn v x) := by
  have hne : p.value ≠ .contractFailure := fun h => by simp [Push.isFailure_iff.2 h] at hvalue
  rw [Push.tally, Push.touches_of_value hvalue, Push.addTo_of_value hvalue, summaryIn,
    Push.record, evidenceIn_record ht hne]
  by_cases h : p.memory.countsIn v = true ∧ x ∈ b.reached p.memory (t.feedChain p.target)
  · have hflow : p.flowsTo t x = true :=
      (Push.flowsTo_iff ht).2 ⟨hne, ((mem_reached_feedChain_iff ht).1 h.2).1⟩
    have h' : (p.countsIn v && p.flowsTo t x) = true := Bool.and_eq_true_iff.2 ⟨h.1, hflow⟩
    rw [if_pos h, if_pos h', summaryIn, forgetConstants_getD]
    refine congrArg some (Evidence.eq_of_fields ?_ rfl ?_)
    · exact Evidence.type_observe _ _ _
    · exact Evidence.mayFail_observe _ _ _
  · rw [if_neg h, ← summaryIn]
    split
    · -- held back: `x` is top, so the push would not have shown
      rename_i hflow
      obtain ⟨hcounts, hflow⟩ := Bool.and_eq_true_iff.1 hflow
      have htop : b.seenType v x = .top :=
        seenType_eq_top_of_held_back ht hb hcounts hflow fun hx => h ⟨hcounts, hx⟩
      rw [seenType_eq] at htop
      cases hs : b.summaryIn v x with
      | none => simp [hs] at htop
      | some s =>
        rw [hs, Option.getD_some] at htop
        rw [Option.getD_some, htop, ValueType.top_join, ← htop]
    · rfl

/-- One push changes a summary exactly as it is tallied. -/
theorem summaryIn_record (ht : t.Acyclic) (hb : b.Ascending t) (p : Push) (v : View)
    (x : ExprId) : (p.record t b).summaryIn v x = p.tally t v x (b.summaryIn v x) := by
  cases hfail : p.isFailure with
  | true => exact summaryIn_record_failure t b hfail v x
  | false => exact summaryIn_record_value ht hb hfail v x

theorem seenType_record (ht : t.Acyclic) (hb : b.Ascending t) (p : Push) (v : View)
    (x : ExprId) :
    (p.record t b).seenType v x =
      if p.countsIn v && p.flowsTo t x then (b.seenType v x).join p.type
      else b.seenType v x := by
  rw [seenType_eq, summaryIn_record ht hb, seenType_eq, Push.tally]
  cases hfail : p.isFailure with
  | true =>
    rw [Push.addTo_of_failure hfail, Push.flowsTo, hfail]
    split <;> simp
  | false =>
    rw [Push.touches_of_value hfail, Push.addTo_of_value hfail]
    split <;> rfl

/-! ## The invariant -/

theorem ascending_ofStatus (t : Tree) (status : RunStatus) : (ofStatus status).Ascending t := by
  intro v x y _
  have hbottom : (ofStatus status).seenType v x = .bottom := by
    cases v <;> simp [seenType, evidenceIn, view, ofStatus]
  rw [hbottom]
  exact bot_le

/-- A push goes to a conditional whenever it goes to a branch, so the branch stays below. -/
theorem ascending_record (ht : t.Acyclic) (hb : b.Ascending t) (p : Push) :
    (p.record t b).Ascending t := by
  intro v x y hxy
  rw [seenType_record ht hb, seenType_record ht hb]
  by_cases hx : (p.countsIn v && p.flowsTo t x) = true
  · have hy : (p.countsIn v && p.flowsTo t y) = true := by
      rw [Bool.and_eq_true] at hx ⊢
      exact ⟨hx.1, Push.flowsTo_of_feeds ht hx.2 hxy⟩
    rw [if_pos hx, if_pos hy]
    exact ValueType.join_mono (hb v x y hxy) p.type
  · rw [if_neg hx]
    split
    · exact (hb v x y hxy).trans le_sup_left
    · exact hb v x y hxy

theorem ascending_recordAll (ht : t.Acyclic) (ps : List Push) (hb : b.Ascending t) :
    (recordAll t ps b).Ascending t := by
  induction ps generalizing b with
  | nil => exact hb
  | cons p ps ih => exact ih (ascending_record ht hb p)

/-! ## Whole runs -/

/-- After a run a summary is the tally of all its pushes. -/
theorem summaryIn_recordAll (ht : t.Acyclic) (hb : b.Ascending t) (ps : List Push) (v : View)
    (x : ExprId) :
    (recordAll t ps b).summaryIn v x = ps.foldl (Push.tally t v x) (b.summaryIn v x) := by
  induction ps generalizing b with
  | nil => rfl
  | cons p ps ih =>
    rw [recordAll_cons, ih (ascending_record ht hb p), summaryIn_record ht hb, List.foldl_cons]

theorem hasDiverged_recordAll (ht : t.Acyclic) (ps : List Push) (b : Body) :
    (recordAll t ps b).hasDiverged =
      (b.hasDiverged || ps.any fun p => p.memory.assertionsDisabled.isSome) := by
  induction ps generalizing b with
  | nil => simp
  | cons p ps ih =>
    rw [recordAll_cons, ih, Push.record, hasDiverged_record ht, List.any_cons, Bool.or_assoc]

@[simp] theorem status_recordAll (t : Tree) (ps : List Push) (b : Body) :
    (recordAll t ps b).status = b.status := by
  induction ps generalizing b with
  | nil => rfl
  | cons p ps ih => rw [recordAll_cons, ih, Push.record, status_record]

/-! ## What a tally comes to -/

theorem flowType_cons (t : Tree) (v : View) (x : ExprId) (p : Push) (ps : List Push) :
    flowType t v x (p :: ps) =
      if p.countsIn v && p.flowsTo t x then p.type.join (flowType t v x ps)
      else flowType t v x ps := by
  rw [flowType, flows, List.filter_cons]
  split
  · rw [List.map_cons, ValueType.joinAll_cons]
    rfl
  · rfl

theorem isSome_foldl_tally (t : Tree) (v : View) (x : ExprId) (ps : List Push)
    (s : Option Evidence) :
    (ps.foldl (Push.tally t v x) s).isSome = (s.isSome || ps.any (·.touches t v x)) := by
  induction ps generalizing s with
  | nil => simp
  | cons p ps ih =>
    rw [List.foldl_cons, ih, List.any_cons, Push.tally]
    by_cases h : p.touches t v x = true
    · simp [h]
    · simp [h]

theorem getD_foldl_tally (t : Tree) (v : View) (x : ExprId) (ps : List Push)
    (s : Option Evidence) :
    (ps.foldl (Push.tally t v x) s).getD {} =
      { s.getD {} with
        type := (s.getD {}).type.join (flowType t v x ps)
        mayFail := (s.getD {}).mayFail || ps.any fun p => p.countsIn v && p.breaks x } := by
  induction ps generalizing s with
  | nil => simp [flowType, flows]
  | cons p ps ih =>
    rw [List.foldl_cons, ih, flowType_cons, List.any_cons, Push.tally]
    by_cases hcounts : p.countsIn v = true
    · by_cases hfail : p.isFailure = true
      · by_cases hbreaks : (p.target == x) = true <;>
          simp [Push.touches, Push.flowsTo, Push.breaks, Push.addTo, Evidence.markFailure,
            hcounts, hfail, hbreaks]
      · by_cases hflow : p.flowsTo t x = true <;>
          simp [Push.touches, Push.breaks, Push.addTo, hcounts, hfail, hflow,
            ValueType.join_assoc]
    · simp [Push.touches, hcounts]

/-! ## What the queries answer -/

section Queries

variable (ht : t.Acyclic) (status : RunStatus) (ps : List Push) (v : View) (x : ExprId)

include ht

theorem summaryIn_run :
    (recordAll t ps (ofStatus status)).summaryIn v x = ps.foldl (Push.tally t v x) none := by
  rw [summaryIn_recordAll ht (ascending_ofStatus t status)]
  cases v <;> simp [summaryIn, evidenceIn, view, ofStatus]

/-- An expression is seen in a view exactly if some push that counts there touches it. -/
theorem isSome_evidenceIn_run :
    ((recordAll t ps (ofStatus status)).evidenceIn v x).isSome = ps.any (·.touches t v x) := by
  have h := congrArg Option.isSome (summaryIn_run ht status ps v x)
  rwa [summaryIn, Option.isSome_map, isSome_foldl_tally, Option.isSome_none, Bool.false_or] at h

/-- The type that is seen in a view is the join of all that flows there. -/
theorem seenType_run :
    (recordAll t ps (ofStatus status)).seenType v x = flowType t v x ps := by
  rw [seenType_eq, summaryIn_run ht, getD_foldl_tally]
  exact ValueType.bottom_join _

theorem mayFail_run :
    (((recordAll t ps (ofStatus status)).evidenceIn v x).getD {}).mayFail =
      ps.any fun p => p.countsIn v && p.breaks x := by
  have h := congrArg (fun s => (s.getD {}).mayFail) (summaryIn_run ht status ps v x)
  simp only [summaryIn, forgetConstants_getD, getD_foldl_tally] at h
  exact h

theorem typeIn_run (h : ((recordAll t ps (ofStatus status)).evidenceIn v x).isSome = true) :
    (recordAll t ps (ofStatus status)).typeIn v x = flowType t v x ps := by
  obtain ⟨s, hs⟩ := Option.isSome_iff_exists.1 h
  rw [← seenType_run ht status, typeIn, seenType, hs]
  rfl

end Queries

/-- What a run of pushes leaves of an expression `x`: the pushes that flow to `x` are those
for `x` and for whatever `x` takes over in any number of steps; in each view `x` is seen if
one of them counts there or its own contract was broken there, and then its type is the join
of all that flow to it there; and the views are kept apart once a flag was provable. -/
theorem facts_recordAll (ht : t.Acyclic) (status : RunStatus) (ps : List Push) (x : ExprId) :
    let b := recordAll t ps (ofStatus status)
    (∀ p : Push, p.flowsTo t x = true ↔
      p.value ≠ .contractFailure ∧
        ReflTransGen (fun y z => t.feedsInto? y = some z) p.target x) ∧
    (b.tracks x = true ↔ ∃ p ∈ ps, p.memory.assertionsDisabled ≠ some true ∧
      (p.flowsTo t x = true ∨ p.value = .contractFailure ∧ p.target = x)) ∧
    (b.tracks x = true → b.type x = .joinAll
      ((ps.filter fun p => p.memory.assertionsDisabled ≠ some true ∧ p.flowsTo t x = true).map
        fun p => p.memory.refined p.value)) ∧
    ((b.evidenceIn .disabled x).isSome = true ↔
      ∃ p ∈ ps, p.memory.assertionsDisabled ≠ some false ∧
        (p.flowsTo t x = true ∨ p.value = .contractFailure ∧ p.target = x)) ∧
    ((b.evidenceIn .disabled x).isSome = true → b.typeIgnoringAssertions x = .joinAll
      ((ps.filter fun p => p.memory.assertionsDisabled ≠ some false ∧ p.flowsTo t x = true).map
        fun p => p.memory.refined p.value)) ∧
    (b.cannotFail x = true ↔ b.tracks x = true ∧
      ¬ ∃ p ∈ ps, p.memory.assertionsDisabled ≠ some true ∧
        p.value = .contractFailure ∧ p.target = x) ∧
    (b.hasDiverged = true ↔ ∃ p ∈ ps, p.memory.assertionsDisabled ≠ none) := by
  intro b
  have hseen : ∀ v, (b.evidenceIn v x).isSome = true ↔ ∃ p ∈ ps, p.countsIn v = true ∧
      (p.flowsTo t x = true ∨ p.value = .contractFailure ∧ p.target = x) := by
    intro v
    rw [isSome_evidenceIn_run ht, List.any_eq_true]
    simp only [Push.touches, Bool.and_eq_true, Bool.or_eq_true, Push.breaks_iff]
  have htracks : b.tracks x = (b.evidenceIn .primary x).isSome := rfl
  refine ⟨fun p => Push.flowsTo_iff ht, ?_, ?_, ?_, ?_, ?_, ?_⟩
  · rw [htracks, hseen]
    simp only [Push.countsIn_primary_iff]
  · intro h
    rw [type, typeIn_run ht status ps .primary x h, flowType, flows]
    simp only [← Push.countsIn_primary_iff, Bool.decide_and, Bool.decide_eq_true]
    rfl
  · rw [hseen]
    simp only [Push.countsIn_disabled_iff]
  · intro h
    rw [typeIgnoringAssertions, typeIn_run ht status ps .disabled x h, flowType, flows]
    simp only [← Push.countsIn_disabled_iff, Bool.decide_and, Bool.decide_eq_true]
    rfl
  · have hfail : ((b.evidenceIn .primary x).getD {}).mayFail = true ↔
        ∃ p ∈ ps, p.memory.assertionsDisabled ≠ some true ∧
          p.value = .contractFailure ∧ p.target = x := by
      rw [mayFail_run ht, List.any_eq_true]
      simp only [Bool.and_eq_true, Push.breaks_iff, Push.countsIn_primary_iff]
    rw [← hfail, htracks, cannotFail, evidence?]
    cases b.evidenceIn .primary x <;> simp
  · have hdiv : b.hasDiverged = ps.any fun p => p.memory.assertionsDisabled.isSome := by
      rw [hasDiverged_recordAll ht]
      rfl
    simp [hdiv, Option.isSome_iff_ne_none]

/-- A run that says different things of a conditional in the two views. -/
theorem facts_of_ternary_run :
    let b := recordAll Tree.ternary
      [⟨⟨1⟩, .knownFlag true, .typed .top⟩, ⟨⟨1⟩, .knownFlag false, .typed .null⟩,
        ⟨⟨2⟩, {}, .contractFailure⟩] (.ofStatus .ok)
    Tree.ternary.Acyclic ∧ b.type ⟨3⟩ = .null ∧ b.typeIgnoringAssertions ⟨3⟩ = .top ∧
      b.hasDiverged = true := by
  intro b
  obtain ⟨-, htracks, htype, hdisabled, hignoring, -, hdiverged⟩ :=
    facts_recordAll Tree.ternary_acyclic .ok
      [⟨⟨1⟩, .knownFlag true, .typed .top⟩, ⟨⟨1⟩, .knownFlag false, .typed .null⟩,
        ⟨⟨2⟩, {}, .contractFailure⟩] ⟨3⟩
  refine ⟨Tree.ternary_acyclic, ?_, ?_, ?_⟩
  · rw [htype (htracks.2 (by decide))]
    decide
  · rw [hignoring (hdisabled.2 (by decide))]
    decide
  · exact hdiverged.2 (by decide)

end Body
end PathFacts
