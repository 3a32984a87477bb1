import PathFacts.Proofs.Analysis.Coverage
import PathFacts.Proofs.Session.Transparency
import PathFacts.Proofs.ValueType.Membership

/-!
# What a session proves of the numbers of an expression

A session may answer that an expression has one value, or that its values lie in an interval.
Both are proofs: whatever a completed run pushed for the expression, or for an expression whose
values it takes over, is that value or lies in that interval (`numeric_answers_sound`), at any
time in the life of the session.

Three facts make up the argument.  An answer that was not known when the program was compiled is
read off the type that an analysis found (`type_of_proved_constant`,
`type_of_proved_integers`); that type covers every push that flows to the expression
(`Analysis.type_le_of_delivered`); and a greater type admits more
(`ValueType.admits_of_le`).
-/

namespace PathFacts.Session

variable {i : Interpreter} {t : Tree} {settings : Settings} {s : Session} {e : ExprId}

/-- Facts come from the completed analysis of the unit that covers the expression. -/
theorem exists_unit_of_factsAt (hs : start? i t settings = .ok s) {b : Body}
    (hb : s.factsAt e = some b) :
    ∃ u, t.context? e = some u ∧ b.status = .ok ∧
      (Analysis.ofUnit? i t settings.analysis.stitching (some u)).body = b := by
  rw [(start?_spec hs).2.2] at hb
  obtain ⟨hmap, hstatus⟩ := Option.filter_eq_some_iff.1 hb
  obtain ⟨u, hu, rfl⟩ := Option.map_eq_some_iff.1 hmap
  exact ⟨u, hu, beq_iff_eq.1 hstatus, rfl⟩

/-! ## Answers that are read off types -/

variable (qs : List Query)

/-- A value that was not known when the program was compiled is the value of a type. -/
theorem type_of_proved_constant (hs : start? i t settings = .ok s) {c : Constant}
    (hnone : t.constant? (t.unwrap e) = none)
    (hc : ((performAll qs s).2.constant? e).1 = some c) :
    ∃ b, s.factsAt (t.unwrap e) = some b ∧ (b.type (t.unwrap e)).constant? = some c := by
  obtain ⟨hcoherent, rfl, -⟩ := start?_spec hs
  have hreply : Reply.constant ((performAll qs s).2.constant? e).1 =
      (Query.constant e).replyFrom s.tree s.factsAt :=
    reply_after_performAll hcoherent qs (.constant e)
  rw [hc, Query.replyFrom] at hreply
  rw [hnone] at hreply
  have hproved := (Option.filter_eq_some_iff.1 (Reply.constant.inj hreply).symm).1
  exact Option.bind_eq_some_iff.1 hproved

/-- An interval that was not known when the program was compiled is the interval of a type. -/
theorem type_of_proved_integers (hs : start? i t settings = .ok s) {r : Interval}
    (hnone : (t.constant? e).bind (·.integer?) = none)
    (hr : ((performAll qs s).2.integers? e).1 = some r) :
    ∃ b, s.factsAt (t.unwrap e) = some b ∧ (b.type (t.unwrap e)).integers? = some r := by
  obtain ⟨hcoherent, rfl, -⟩ := start?_spec hs
  have hreply : Reply.integers ((performAll qs s).2.integers? e).1 =
      (Query.integers e).replyFrom s.tree s.factsAt :=
    reply_after_performAll hcoherent qs (.integers e)
  rw [hr, Query.replyFrom, hnone, Query.replyFrom.typeOf] at hreply
  have hproved := (Reply.integers.inj hreply).symm
  cases hfacts : s.factsAt (s.tree.unwrap e) with
  | none =>
    -- nothing is known of the expression, so there is no interval
    rw [hfacts] at hproved
    cases hproved
  | some b =>
    rw [hfacts] at hproved
    exact ⟨b, rfl, hproved⟩

/-! ## Soundness -/

/-- The facts of an expression admit what a push that flows there admits. -/
theorem admits_of_delivered (hs : start? i t settings = .ok s) (ht : t.Acyclic) {x : ExprId}
    {u : UnitId} (hu : t.context? x = some u) {p : Push}
    (hp : p ∈ Analysis.delivered i t settings.analysis.stitching u)
    (hflag : p.memory.assertionsDisabled ≠ some true) (hflow : p.flowsTo t x = true) {b : Body}
    (hb : s.factsAt x = some b) {c : Constant} (hc : (p.memory.refined p.value).admits c = true) :
    (b.type x).admits c = true := by
  obtain ⟨u', hu', hstatus, rfl⟩ := exists_unit_of_factsAt hs hb
  obtain rfl : u = u' := Option.some.inj (hu.symm.trans hu')
  exact ValueType.admits_of_le (Analysis.type_le_of_delivered ht hstatus hp hflag hflow) hc

/-- What a session proves is true of every value that was pushed, whatever was asked and done
before.  Let a completed run behind the analysis of the unit around `e` push a value, under a
flag that is not provably true, for what stands inside the parentheses of `e` or for an
expression whose values that takes over.  If the session answers with one value that was not
known when the program was compiled, then the pushed value can be nothing else; if it answers
with an interval that was not known then, the pushed value is integral and lies in it. -/
theorem numeric_answers_sound (hs : start? i t settings = .ok s) (ht : t.Acyclic)
    {u : UnitId} (hu : t.context? (t.unwrap e) = some u) {p : Push}
    (hp : p ∈ Analysis.delivered i t settings.analysis.stitching u)
    (hvalue : p.value ≠ .contractFailure) (hflag : p.memory.assertionsDisabled ≠ some true)
    (hreach : t.Reaches p.target (t.unwrap e)) :
    (t.constant? (t.unwrap e) = none →
      ∀ c, ((performAll qs s).2.constant? e).1 = some c →
        ∀ c', (p.memory.refined p.value).admits c' = true → c' = c) ∧
    ((t.constant? e).bind (·.integer?) = none →
      ∀ r, ((performAll qs s).2.integers? e).1 = some r →
        ∀ c', (p.memory.refined p.value).admits c' = true →
          ∃ v, c'.integer? = some v ∧ r.contains v = true) := by
  have hflow : p.flowsTo t (t.unwrap e) = true := (Push.flowsTo_iff ht).2 ⟨hvalue, hreach⟩
  constructor
  · intro hnone c hc c' hc'
    obtain ⟨b, hb, htype⟩ := type_of_proved_constant qs hs hnone hc
    have hadmits := admits_of_delivered hs ht hu hp hflag hflow hb hc'
    exact (ValueType.admits_iff_of_constant? htype c').1 hadmits
  · intro hnone r hr c' hc'
    obtain ⟨b, hb, htype⟩ := type_of_proved_integers qs hs hnone hr
    have hadmits := admits_of_delivered hs ht hu hp hflag hflow hb hc'
    exact ValueType.exists_integer?_of_integers? htype hadmits

/-- The conditional `c ? a : b` in parentheses; the five expressions are numbered from the inside
out, the condition first. -/
def parenthesizedTernary : Tree :=
  .build [.container, .unit ⟨0⟩ .method, .expr ⟨0⟩, .expr ⟨0⟩, .expr ⟨0⟩,
    .conditional ⟨0⟩ ⟨1⟩ ⟨2⟩, .parenthesized ⟨3⟩]

/-- A run that takes both branches. -/
def bothBranches : Interpreter :=
  ({} : Interpreter).setScript ⟨0⟩
    [.push ⟨1⟩ (.typed (.constant (.int 5))) {} none,
      .push ⟨2⟩ (.typed (.constant (.int 7))) {} none]

/-- A session that has seen both branches answers with `5` for the first one and with the
interval from `5` to `7` for the parentheses, and the value of the first branch is in both. -/
theorem numeric_answers_sound_of_both_branches :
    let qs : List Query := [.resolve ⟨4⟩, .revise ⟨0⟩, .integers ⟨1⟩, .forget ⟨0⟩]
    ∃ s, start? bothBranches parenthesizedTernary (.standard 4) = .ok s ∧
      ((performAll qs s).2.constant? ⟨1⟩).1 = some (.int 5) ∧
      ((performAll qs s).2.integers? ⟨4⟩).1 = some ⟨5, 7⟩ ∧
      ∀ c', (ValueType.constant (.int 5)).admits c' = true →
        c' = .int 5 ∧ ∃ v, c'.integer? = some v ∧ (⟨5, 7⟩ : Interval).contains v = true := by
  intro qs
  have hstart : start? bothBranches parenthesizedTernary (.standard 4) = .ok _ := rfl
  have hacyclic : parenthesizedTernary.Acyclic := Tree.acyclic_of_parents_later (by decide)
  have hp : (⟨⟨1⟩, {}, .typed (.constant (.int 5))⟩ : Push) ∈
      Analysis.delivered bothBranches parenthesizedTernary true ⟨0⟩ := by decide
  have hfeeds : parenthesizedTernary.feedsInto? ⟨1⟩ = some ⟨3⟩ := by decide
  have hconstant := (numeric_answers_sound (e := ⟨1⟩) qs hstart hacyclic (u := ⟨0⟩) (by decide) hp
    (by decide) (by decide) .refl).1 (by decide)
  have hintegers := (numeric_answers_sound (e := ⟨4⟩) qs hstart hacyclic (u := ⟨0⟩) (by decide) hp
    (by decide) (by decide) (.single hfeeds)).2 (by decide)
  refine ⟨_, hstart, ?five, ?range,
    fun c' hc' => ⟨hconstant _ ?five c' hc', hintegers _ ?range c' hc'⟩⟩
  case five => decide +kernel
  case range => decide +kernel

end PathFacts.Session
