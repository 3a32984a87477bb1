import PathFacts.Proofs.Cache.Retention
import PathFacts.Proofs.Session.Modifications

/-!
# When a unit is analysed again

A session that keeps results analyses a unit when it is first asked about it, and again when it
is asked after the container of the unit was modified or forgotten, and at no other time
(`Session.renews_iff`).  What other units are asked about and what happens to other containers
makes no difference.  In between, the very same result is handed out, with its number, and the
session does not change at all.

A modification removes nothing from the cache.  It only makes the container one generation
older than its shelf, and the shelf goes when the next call finds it.  `Session.kept?` is
therefore what a look-up for the generation of now would find, and that does get lost at once
(`Session.kept?_revise`).  `Query.Retains` says the same of the history of queries, and
`Session.kept?_performAll_eq_some_iff` that the two agree after every run.
-/

namespace PathFacts

/-! ## Histories of queries -/

namespace Query

/-- The unit whose facts a query asks for; none where the answer is known without any. -/
def unit? (t : Tree) : Query → Option UnitId
  | resolve e => t.context? e
  | valueType e => t.context? (t.unwrap e)
  | integers e =>
    match (t.constant? e).bind (·.integer?) with
    | some _ => none
    | none => t.context? (t.unwrap e)
  | constant e =>
    match t.constant? (t.unwrap e) with
    | some _ => none
    | none => t.context? (t.unwrap e)
  | forget _ | revise _ => none

/-- Whether a query leaves the results of a container alone: it does not forget the container,
and does not modify it, if there is such a container. -/
def Spares (t : Tree) (c : ContainerId) (q : Query) : Prop :=
  q ≠ .forget c ∧ (c.index < t.containers.size → q ≠ .revise c)

instance (t : Tree) (c : ContainerId) (q : Query) : Decidable (q.Spares t c) :=
  inferInstanceAs (Decidable (_ ∧ _))

/-- Whether the query of `qs` that comes after `before` asks for `u`, and all queries since then
spare the results of `c`. -/
def Retains (t : Tree) (c : ContainerId) (u : UnitId) (before qs : List Query) : Prop :=
  ∃ q after, qs = before ++ q :: after ∧ q.unit? t = some u ∧ ∀ q' ∈ after, q'.Spares t c

/-- Whether the modifications that are noted in `qs` overflow no number.  What was modified before
counts as well, so this says that each container is modified fewer than `2 ^ 64` times in total. -/
def NoOverflow (t : Tree) (qs : List Query) : Prop :=
  ∀ c, (t.revision c).toNat + qs.count (.revise c) < UInt64.size

variable {t : Tree} {c : ContainerId} {u : UnitId} {before qs : List Query} {q : Query}

/-- The modifications of a container are those while the program is built and those in `qs`. -/
theorem noOverflow_build {steps : List Tree.Step}
    (h : ∀ c, steps.count (.revise c) + qs.count (.revise c) < UInt64.size) :
    NoOverflow (.build steps) qs := by
  intro c
  exact Nat.lt_of_le_of_lt (Nat.add_le_add_right (Tree.toNat_revision_build_le c steps) _) (h c)

theorem NoOverflow.of_append {qs' : List Query} (h : NoOverflow t (qs ++ qs')) :
    NoOverflow t qs := by
  intro c
  have hc := h c
  rw [List.count_append] at hc
  omega

theorem spares_of_unit? (h : q.unit? t = some u) (c : ContainerId) : q.Spares t c := by
  constructor
  · rintro rfl
    cases h
  · rintro - rfl
    cases h

theorem not_retains_nil : ¬ Retains t c u before [] := by
  rintro ⟨q, after, h, -⟩
  exact absurd h (by simp)

/-- The last query asks for the unit itself, or has to spare what was asked before. -/
theorem retains_append_singleton :
    Retains t c u before (qs ++ [q]) ↔
      (before = qs ∧ q.unit? t = some u) ∨ (Retains t c u before qs ∧ q.Spares t c) := by
  constructor
  · rintro ⟨q', after, h, hunit, hspares⟩
    rcases List.eq_nil_or_concat after with rfl | ⟨after, q'', rfl⟩
    · obtain ⟨rfl, hq⟩ := List.append_inj' h rfl
      obtain rfl := List.singleton_inj.1 hq
      exact Or.inl ⟨rfl, hunit⟩
    · have h' : qs ++ [q] = (before ++ q' :: after) ++ [q''] := by simpa using h
      obtain ⟨hqs, hq⟩ := List.append_inj' h' rfl
      obtain rfl := List.singleton_inj.1 hq
      exact Or.inr ⟨⟨q', after, hqs, hunit, fun r hr => hspares r (by simp [hr])⟩,
        hspares q (by simp)⟩
  · rintro (⟨rfl, hunit⟩ | ⟨⟨q', after, rfl, hunit, hspares⟩, hq⟩)
    · exact ⟨q, [], rfl, hunit, by simp⟩
    · refine ⟨q', after ++ [q], by simp, hunit, fun r hr => ?_⟩
      rcases List.mem_append.1 hr with hr | hr
      · exact hspares r hr
      · obtain rfl := List.mem_singleton.1 hr
        exact hq

end Query

namespace Session

variable {s : Session} {u : UnitId} {k : Key} {r : Result}

/-! ## What is kept of a unit -/

/-- The result that is kept of a unit, if one is. -/
def kept? (s : Session) (u : UnitId) : Option Result := (s.key? u).bind s.cache.lookup

theorem key?_eq_some_iff : s.key? u = some k ↔ s.settings.cache.enabled = true ∧
    ∃ c, s.tree.container? u = some c ∧ ⟨c, s.tree.revision c, u⟩ = k := by
  rw [key?]
  cases s.settings.cache.enabled with
  | false => simp
  | true =>
    rw [if_pos rfl, Option.map_eq_some_iff]
    simp only [true_and]

theorem resultOf_of_kept (h : s.kept? u = some r) : s.resultOf u = (r, s) := by
  obtain ⟨k, hk, hr⟩ := Option.bind_eq_some_iff.1 h
  exact resultOf_of_returned hk (Cache.begin_of_lookup hr)

/-- Where nothing is kept of a unit it is analysed.  The result is kept from then on, if it has a
key, and what is kept of other units stays. -/
theorem resultOf_of_kept_eq_none (hidle : s.cache.Idle s.tree.revision) (h : s.kept? u = none) :
    ∃ cache, s.resultOf u = ((s.analyse u).1, { (s.analyse u).2 with cache := cache }) ∧
      cache.Idle s.tree.revision ∧
      (∀ k, s.key? u = some k → cache.lookup k = some (s.analyse u).1) ∧
      ∀ u' k', u ≠ u' → s.key? u' = some k' → cache.lookup k' = s.cache.lookup k' := by
  cases hk : s.key? u with
  | none =>
    refine ⟨s.cache, ?_, hidle, ?_, fun _ _ _ _ => rfl⟩
    · rw [resultOf, hk]
      rfl
    · intro k hk'
      cases hk'
  | some k =>
    rw [kept?, hk] at h
    obtain ⟨-, c, -, rfl⟩ := key?_eq_some_iff.1 hk
    obtain ⟨role, c', hbegin, hconclude⟩ := hidle.begin_of_lookup_none rfl h
    obtain ⟨c'', hpublish, hidle', hself, hothers⟩ := hconclude (s.analyse u).1
    refine ⟨c'', resultOf_of_computing hk hbegin hpublish, hidle', ?_, ?_⟩
    · rintro k' hk'
      cases hk'
      exact hself
    · intro u' k' hne hk'
      obtain ⟨-, c, -, rfl⟩ := key?_eq_some_iff.1 hk'
      exact hothers _ rfl hne

/-- After the result of a unit was asked for, it is kept, and other units are left alone. -/
theorem kept?_resultOf (hidle : s.cache.Idle s.tree.revision) (u : UnitId) :
    (s.resultOf u).2.cache.Idle (s.resultOf u).2.tree.revision ∧
      ((s.key? u).isSome = true → (s.resultOf u).2.kept? u = some (s.resultOf u).1) ∧
      ∀ u', u ≠ u' → (s.resultOf u).2.kept? u' = s.kept? u' := by
  cases h : s.kept? u with
  | some r =>
    rw [resultOf_of_kept h]
    exact ⟨hidle, fun _ => h, fun _ _ => rfl⟩
  | none =>
    obtain ⟨cache, hresult, hidle', hself, hothers⟩ := resultOf_of_kept_eq_none hidle h
    rw [hresult]
    refine ⟨hidle', fun hkey => ?_, fun u' hne => ?_⟩
    · obtain ⟨k, hk⟩ := Option.isSome_iff_exists.1 hkey
      exact Option.bind_eq_some_iff.2 ⟨k, hk, hself k hk⟩
    · show (s.key? u').bind cache.lookup = (s.key? u').bind s.cache.lookup
      cases hk : s.key? u' with
      | none => rfl
      | some k => exact hothers u' k hne hk

theorem kept?_forget (s : Session) (c : ContainerId) (u : UnitId) :
    (s.forget c).kept? u = if s.tree.container? u = some c then none else s.kept? u := by
  show (s.key? u).bind (s.cache.forget c).lookup = _
  cases hk : s.key? u with
  | none => simp [kept?, hk]
  | some k =>
    obtain ⟨-, c', hc', rfl⟩ := key?_eq_some_iff.1 hk
    rw [Option.bind_some, Cache.lookup_forget, kept?, hk, Option.bind_some, hc']
    simp only [Option.some_inj, eq_comm]

/-- A modification loses what is kept of the units of the container, and nothing else. -/
theorem kept?_revise (hidle : s.cache.Idle s.tree.revision) {c : ContainerId}
    (hc : (s.tree.revision c).toNat + 1 < UInt64.size) (u : UnitId) :
    (s.revise c).kept? u =
      if s.tree.container? u = some c ∧ c.index < s.tree.containers.size then none
      else s.kept? u := by
  rw [kept?, kept?, key?, key?]
  show Option.bind (if s.settings.cache.enabled = true then
    (s.tree.container? u).map fun c' => ⟨c', (s.tree.revise c).revision c', u⟩ else none)
    s.cache.lookup = _
  cases s.settings.cache.enabled with
  | false => simp
  | true =>
    cases hu : s.tree.container? u with
    | none => simp
    | some c' =>
      simp only [if_true, Option.map_some, Option.bind_some, Option.some_inj]
      split
      · rename_i hsame
        obtain ⟨rfl, hsize⟩ := hsame
        exact hidle.lookup_of_later (s.tree.revision_lt_revise c' hc hsize)
      · rename_i hother
        rw [Tree.revision_revise, if_neg fun h => hother ⟨h.1.symm, h.2⟩]

theorem idle_revise (hidle : s.cache.Idle s.tree.revision) {c : ContainerId}
    (hc : (s.tree.revision c).toNat + 1 < UInt64.size) :
    (s.revise c).cache.Idle (s.revise c).tree.revision :=
  hidle.mono fun c' => s.tree.revision_le_revise c c' hc

/-! ## What a query does to a session -/

/-- The ways in which a query can change a session. -/
inductive Performs (s : Session) : Query → Session → Prop
  | asked {q : Query} {u : UnitId} (h : q.unit? s.tree = some u) : Performs s q (s.resultOf u).2
  | answered {q : Query} (h : q.unit? s.tree = none) (hspares : ∀ c, q.Spares s.tree c) :
    Performs s q s
  | forgot (c : ContainerId) : Performs s (.forget c) (s.forget c)
  | revised (c : ContainerId) : Performs s (.revise c) (s.revise c)

theorem snd_ask (s : Session) (e : ExprId) :
    (s.ask e).2 = ((s.tree.context? e).map fun u => (s.resultOf u).2).getD s := by
  rw [ask]
  cases s.tree.context? e with
  | none => rfl
  | some u => rfl

/-- A query that resolves an expression asks for its unit, if it has one. -/
theorem performs_of_snd_ask {q : Query} {e : ExprId} (hunit : q.unit? s.tree = s.tree.context? e)
    (hspares : ∀ c, q.Spares s.tree c) : s.Performs q (s.ask e).2 := by
  rw [snd_ask]
  cases hu : s.tree.context? e with
  | none => exact .answered (hunit.trans hu) hspares
  | some u => exact .asked (hunit.trans hu)

theorem performs (s : Session) (q : Query) : s.Performs q (s.perform q).2 := by
  cases q with
  | resolve e => exact performs_of_snd_ask rfl fun c => ⟨by simp, by simp⟩
  | valueType e => exact performs_of_snd_ask rfl fun c => ⟨by simp, by simp⟩
  | integers e =>
    have hspares : ∀ c, (Query.integers e).Spares s.tree c := fun c => ⟨by simp, by simp⟩
    show s.Performs _ (s.integers? e).2
    rw [integers?]
    cases hconst : (s.tree.constant? e).bind (·.integer?) with
    | some v => exact .answered (by rw [Query.unit?, hconst]) hspares
    | none => exact performs_of_snd_ask (by rw [Query.unit?, hconst]) hspares
  | constant e =>
    have hspares : ∀ c, (Query.constant e).Spares s.tree c := fun c => ⟨by simp, by simp⟩
    show s.Performs _ (s.constant? e).2
    rw [constant?]
    dsimp only
    cases hconst : s.tree.constant? (s.tree.unwrap e) with
    | some v => exact .answered (by rw [Query.unit?, hconst]) hspares
    | none => exact performs_of_snd_ask (by rw [Query.unit?, hconst]) hspares
  | forget c => exact .forgot c
  | revise c => exact .revised c

section Performs

variable {s' : Session} {q : Query} {c : ContainerId}

/-- No shelf is from a generation that is still to come, unless the numbers overflow. -/
theorem Performs.idle (h : s.Performs q s') (hidle : s.cache.Idle s.tree.revision)
    (hq : ∀ c, q = .revise c → (s.tree.revision c).toNat + 1 < UInt64.size) :
    s'.cache.Idle s'.tree.revision := by
  cases h with
  | asked _ => exact (kept?_resultOf hidle _).1
  | answered _ _ => exact hidle
  | forgot c => exact hidle.forget c
  | revised c => exact idle_revise hidle (hq c rfl)

/-- A query about a unit leaves its result behind, and any other query keeps what was kept if and
only if it spares the container. -/
theorem Performs.kept? (h : s.Performs q s') (hidle : s.cache.Idle s.tree.revision)
    (hq : ∀ c, q = .revise c → (s.tree.revision c).toNat + 1 < UInt64.size)
    (henabled : s.settings.cache.enabled = true) (hc : s.tree.container? u = some c) :
    s'.kept? u =
      if q.unit? s.tree = some u then some (s.resultOf u).1
      else if q.Spares s.tree c then s.kept? u else none := by
  cases h with
  | @asked _ v hunit =>
    obtain ⟨-, hself, hothers⟩ := kept?_resultOf hidle v
    by_cases hv : v = u
    · subst hv
      have hkey : s.key? v = some ⟨c, s.tree.revision c, v⟩ :=
        key?_eq_some_iff.2 ⟨henabled, c, hc, rfl⟩
      rw [if_pos hunit, hself (by rw [hkey]; rfl)]
    · rw [if_neg (by rw [hunit]; simpa using hv), if_pos (Query.spares_of_unit? hunit c),
        hothers u hv]
  | answered hunit hspares =>
    rw [if_neg (by rw [hunit]; simp), if_pos (hspares c)]
  | forgot c' =>
    rw [if_neg (by simp [Query.unit?]), kept?_forget, hc]
    by_cases hsame : c = c' <;> simp [Query.Spares, hsame, eq_comm]
  | revised c' =>
    rw [if_neg (by simp [Query.unit?]), kept?_revise hidle (hq c' rfl), hc]
    by_cases hsame : c = c'
    · by_cases hsize : c'.index < s.tree.containers.size <;>
        simp [Query.Spares, hsame, hsize]
    · simp [Query.Spares, hsame, eq_comm]

end Performs

/-! ## What is kept after a run of queries -/

section Run

variable {qs : List Query} {q : Query} {c : ContainerId}

theorem unit?_performAll (hcoherent : s.Coherent) (qs : List Query) (q : Query) :
    q.unit? (performAll qs s).2.tree = q.unit? s.tree := by
  rw [(parts_performAll hcoherent qs).2.2]
  refine Query.foldl_modify (fun t => q.unit? t) (fun t c => ?_) s.tree qs
  cases q <;> simp only [Query.unit?, Tree.unwrap_revise, Tree.constant?_revise] <;> rfl

theorem container?_performAll (hcoherent : s.Coherent) (qs : List Query) (u : UnitId) :
    (performAll qs s).2.tree.container? u = s.tree.container? u := by
  rw [(parts_performAll hcoherent qs).2.2]
  exact Query.foldl_modify (·.container? u) (fun _ _ => rfl) s.tree qs

theorem spares_performAll (hcoherent : s.Coherent) (qs : List Query) :
    q.Spares (performAll qs s).2.tree c ↔ q.Spares s.tree c := by
  rw [Query.Spares, Query.Spares, (parts_performAll hcoherent qs).2.2,
    Query.foldl_modify (·.containers.size) (fun _ _ => Array.size_modify) s.tree qs]

/-- A run that does not overflow does not overflow with its last query. -/
theorem toNat_revision_performAll_lt (hcoherent : s.Coherent)
    (hcounts : Query.NoOverflow s.tree (qs ++ [q])) (c : ContainerId) (hq : q = .revise c) :
    ((performAll qs s).2.tree.revision c).toNat + 1 < UInt64.size := by
  have hle := Query.toNat_revision_foldl_modify_le s.tree qs c
  have hlt := hcounts c
  rw [hq, List.count_append, List.count_singleton_self] at hlt
  rw [(parts_performAll hcoherent qs).2.2]
  omega

theorem idle_performAll (hcoherent : s.Coherent) (hidle : s.cache.Idle s.tree.revision)
    (hcounts : Query.NoOverflow s.tree qs) :
    (performAll qs s).2.cache.Idle (performAll qs s).2.tree.revision := by
  induction qs using List.reverseRecOn with
  | nil => exact hidle
  | append_singleton qs q ih =>
    rw [performAll_append_singleton]
    exact ((performAll qs s).2.performs q).idle (ih hcounts.of_append)
      (toNat_revision_performAll_lt hcoherent hcounts)

/-- What is kept of a unit is the result that a query asked for, if its container was spared
since then. -/
theorem kept?_performAll_eq_some_iff (hcoherent : s.Coherent)
    (hidle : s.cache.Idle s.tree.revision) (hcounts : Query.NoOverflow s.tree qs)
    (henabled : s.settings.cache.enabled = true) (hc : s.tree.container? u = some c)
    (hnone : s.kept? u = none) :
    (performAll qs s).2.kept? u = some r ↔
      ∃ before, Query.Retains s.tree c u before qs ∧
        ((performAll before s).2.resultOf u).1 = r := by
  induction qs using List.reverseRecOn generalizing r with
  | nil =>
    refine ⟨fun h => ?_, fun ⟨before, h, _⟩ => absurd h Query.not_retains_nil⟩
    rw [performAll, hnone] at h
    cases h
  | append_singleton qs q ih =>
    have hearlier := fun r => ih (r := r) hcounts.of_append
    have hstep := ((performAll qs s).2.performs q).kept?
      (idle_performAll hcoherent hidle hcounts.of_append)
      (toNat_revision_performAll_lt hcoherent hcounts)
      ((congrArg (·.cache.enabled) (parts_performAll hcoherent qs).2.1).trans henabled)
      ((container?_performAll hcoherent qs u).trans hc)
    rw [unit?_performAll hcoherent] at hstep
    simp only [spares_performAll hcoherent] at hstep
    rw [performAll_append_singleton]
    dsimp only
    rw [hstep]
    simp only [Query.retains_append_singleton]
    by_cases hunit : q.unit? s.tree = some u
    · rw [if_pos hunit, Option.some_inj]
      constructor
      · exact fun h => ⟨qs, Or.inl ⟨rfl, hunit⟩, h⟩
      · rintro ⟨before, ⟨rfl, -⟩ | ⟨hretains, -⟩, hr⟩
        · exact hr
        · -- the unit was not analysed again, since its result was there
          have hkept := (hearlier r).2 ⟨before, hretains, hr⟩
          rw [resultOf_of_kept hkept]
    · rw [if_neg hunit]
      by_cases hspares : q.Spares s.tree c
      · rw [if_pos hspares, hearlier]
        simp only [hunit, hspares, and_false, false_or, and_true]
      · rw [if_neg hspares]
        simp only [hunit, hspares, and_false, or_self, false_and, exists_false, reduceCtorEq]

end Run

/-! ## When a unit is analysed again -/

/-- Whether an expression was resolved by the analysis `a`, made anew: it is numbered next, its
runs come after all others, and its facts are handed out if it is completed. -/
structure Renews (s : Session) (a : Analysis) (answer : Option Result × Session) : Prop where
  analyses : answer.2.analyses = s.analyses + 1
  runs : answer.2.runs = s.runs ++ a.runs
  result : answer.1 = if a.body.status.isOk then some ⟨s.analyses, a.body⟩ else none

theorem ask_of_context? {e : ExprId} (hu : s.tree.context? e = some u) :
    s.ask e = (if (s.resultOf u).1.body.status.isOk then some (s.resultOf u).1 else none,
      (s.resultOf u).2) := by
  rw [ask, hu]

/-- Where nothing is kept of the unit, it is analysed again. -/
theorem renews_of_kept_eq_none (hidle : s.cache.Idle s.tree.revision) {e : ExprId}
    (hu : s.tree.context? e = some u) (hnone : s.kept? u = none) :
    s.Renews (Analysis.ofUnit s.interpreter s.tree s.settings.analysis.stitching u)
      (s.ask e) := by
  obtain ⟨cache, hresult, -⟩ := resultOf_of_kept_eq_none hidle hnone
  rw [ask_of_context? hu, hresult]
  exact ⟨rfl, rfl, rfl⟩

/-- Where a result is kept, it is handed out, and the session stays as it is. -/
theorem ask_of_kept {e : ExprId} (hu : s.tree.context? e = some u) (hr : s.kept? u = some r) :
    s.ask e = (if r.body.status.isOk then some r else none, s) := by
  rw [ask_of_context? hu, resultOf_of_kept hr]

theorem analysis_performAll (hcoherent : s.Coherent) (qs : List Query) (u : UnitId) :
    Analysis.ofUnit (performAll qs s).2.interpreter (performAll qs s).2.tree
      (performAll qs s).2.settings.analysis.stitching u =
      Analysis.ofUnit s.interpreter s.tree s.settings.analysis.stitching u := by
  obtain ⟨hinterpreter, hsettings, htree⟩ := parts_performAll hcoherent qs
  rw [hinterpreter, hsettings, htree]
  exact Query.foldl_modify (Analysis.ofUnit _ · _ u)
    (fun t c => Analysis.ofUnit_revise t c _ _ u) s.tree qs

theorem context?_performAll (hcoherent : s.Coherent) (qs : List Query) (e : ExprId) :
    (performAll qs s).2.tree.context? e = s.tree.context? e :=
  unit?_performAll hcoherent qs (.resolve e)

/-- A new session keeps nothing, and no shelf is from a generation that is still to come. -/
theorem idle_of_start? {i : Interpreter} {t : Tree} {settings : Settings}
    (hs : start? i t settings = .ok s) : s.interpreter = i ∧ s.tree = t ∧ s.settings = settings ∧
      s.cache.Idle s.tree.revision ∧ ∀ u, s.kept? u = none := by
  obtain rfl := eq_of_start? hs
  exact ⟨rfl, rfl, rfl, .ofLimit _ _, fun u => by simp [kept?]⟩

/-- When resolving an expression analyses its unit, in a session that keeps results.  Let `u` be
the unit and `c` its container.  The unit is analysed unless some query before asked for it and
all queries since then spared the container, that is, none of them forgot or modified it.  Then
nothing at all is run, the session stays as it is, and what is handed out is what resolving any
expression of the unit came to at that query, with its number.  A unit without a container is
analysed every time. -/
theorem renews_iff {i : Interpreter} {t : Tree} {settings : Settings}
    (hs : start? i t settings = .ok s) (henabled : settings.cache.enabled = true)
    {qs : List Query} (hcounts : Query.NoOverflow t qs) {e : ExprId}
    (hu : t.context? e = some u) :
    let now := (performAll qs s).2
    let analysis := Analysis.ofUnit i t settings.analysis.stitching u
    (∀ c, t.container? u = some c →
      (now.Renews analysis (now.ask e) ↔ ¬ ∃ before, Query.Retains t c u before qs) ∧
      ∀ before, Query.Retains t c u before qs → ∀ e', t.context? e' = some u →
        now.ask e = (((performAll before s).2.ask e').1, now)) ∧
    (t.container? u = none → now.Renews analysis (now.ask e)) := by
  intro now analysis
  have hcoherent := (start?_spec hs).1
  obtain ⟨rfl, rfl, rfl, hidle, hnew⟩ := idle_of_start? hs
  have hcontext := (context?_performAll hcoherent qs e).trans hu
  have hrenews : now.kept? u = none → now.Renews analysis (now.ask e) := by
    intro hnone
    have hnow := idle_performAll hcoherent hidle hcounts
    have h := renews_of_kept_eq_none hnow hcontext hnone
    rwa [analysis_performAll hcoherent] at h
  constructor
  · intro c hc
    have hkept := fun r => kept?_performAll_eq_some_iff (r := r) hcoherent hidle hcounts henabled
      hc (hnew u)
    have hsame : ∀ before, Query.Retains s.tree c u before qs →
        ∀ e', s.tree.context? e' = some u →
          now.ask e = (((performAll before s).2.ask e').1, now) := by
      intro before hretains e' hu'
      have hr := (hkept _).2 ⟨before, hretains, rfl⟩
      have hcontext' := (context?_performAll hcoherent before e').trans hu'
      rw [ask_of_kept hcontext hr, ask_of_context? hcontext']
    refine ⟨⟨?_, fun h => hrenews ?_⟩, hsame⟩
    · rintro h ⟨before, hretains⟩
      have hanalyses := h.analyses
      rw [hsame before hretains e hu] at hanalyses
      exact absurd hanalyses (Nat.ne_of_lt (Nat.lt_succ_self _))
    · refine Option.eq_none_iff_forall_ne_some.2 fun r hr => ?_
      obtain ⟨before, hretains, -⟩ := (hkept r).1 hr
      exact h ⟨before, hretains⟩
  · intro hc
    have hkey : now.key? u = none := by
      rw [key?, (container?_performAll hcoherent qs u).trans hc]
      split <;> rfl
    exact hrenews (by rw [kept?, hkey]; rfl)

/-- A class in one container, with an initializer and a constructor, and a method in another one;
each of the three has an expression. -/
def classAndMethod : Tree :=
  .build [.container, .container, .wholeClass ⟨0⟩, .initializer ⟨0⟩, .constructor ⟨0⟩ .base false,
    .unit ⟨1⟩ .method, .expr ⟨1⟩, .expr ⟨2⟩, .expr ⟨3⟩]

/-- The initializer gets the result that the constructor got, whatever happened to the other
container; the method is analysed again, because its container was forgotten. -/
theorem renews_iff_of_class_and_method :
    let qs : List Query := [.resolve ⟨1⟩, .revise ⟨1⟩, .resolve ⟨2⟩, .forget ⟨1⟩]
    ∃ s, start? {} classAndMethod (.standard 4) = .ok s ∧
      (performAll qs s).2.ask ⟨0⟩ = (some ⟨0, {}⟩, (performAll qs s).2) ∧
      (performAll qs s).2.Renews (Analysis.ofUnit {} classAndMethod true ⟨3⟩)
        ((performAll qs s).2.ask ⟨2⟩) := by
  intro qs
  have hstart : start? {} classAndMethod (.standard 4) = .ok _ := rfl
  have hcounts : Query.NoOverflow classAndMethod qs := by
    refine Query.noOverflow_build fun c => ?_
    exact Nat.lt_of_le_of_lt (Nat.add_le_add List.count_le_length List.count_le_length) (by decide)
  have hclass := ((renews_iff (e := ⟨0⟩) (u := ⟨0⟩) hstart rfl hcounts (by decide)).1 ⟨0⟩
    (by decide)).2
  have hmethod := ((renews_iff (e := ⟨2⟩) (u := ⟨3⟩) hstart rfl hcounts (by decide)).1 ⟨1⟩
    (by decide)).1
  refine ⟨_, hstart, ?_, hmethod.2 ?_⟩
  · have hretains : Query.Retains classAndMethod ⟨0⟩ ⟨0⟩ [] qs :=
      ⟨.resolve ⟨1⟩, [.revise ⟨1⟩, .resolve ⟨2⟩, .forget ⟨1⟩], rfl, by decide, by decide⟩
    exact hclass [] hretains ⟨1⟩ (by decide)
  · rintro ⟨before, hretains⟩
    have hlast : qs = [.resolve ⟨1⟩, .revise ⟨1⟩, .resolve ⟨2⟩] ++ [.forget ⟨1⟩] := rfl
    rw [hlast, Query.retains_append_singleton] at hretains
    rcases hretains with ⟨-, hunit⟩ | ⟨-, hspares⟩
    · cases hunit
    · exact absurd rfl hspares.1

end Session
end PathFacts
