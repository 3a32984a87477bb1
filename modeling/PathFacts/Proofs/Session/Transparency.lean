import PathFacts.Session
import PathFacts.Proofs.Analysis.Revision
import PathFacts.Proofs.Cache.Memo

/-!
# Keeping results does not change answers

A session may keep the facts of a unit or find them again for every query.  Which of the two
it does can be told by how often it analyses and by the numbers of its results, but not by its
answers: every answer is what an analysis of the unit comes to at that moment
(`answers_perform`), whatever was kept, forgotten or modified before.

The reason is that an analysis depends on nothing that changes: the interpreter and the
settings stay, and modifications of containers do not reach it (`Analysis.ofUnit_revise`).  So
what was found once is right for ever, and `Coherent` says that nothing else is kept.
-/

namespace PathFacts

/-! ## Queries and their replies -/

/-- What can be asked of a session, or done to it. -/
inductive Query where
  | resolve (e : ExprId)
  | valueType (e : ExprId)
  | integers (e : ExprId)
  | constant (e : ExprId)
  | forget (c : ContainerId)
  | revise (c : ContainerId)
deriving DecidableEq

/-- What comes back.  Of a result it is the facts, not the number. -/
inductive Reply where
  | facts (facts : Option Body)
  | valueType (type : ValueType)
  | integers (interval : Option Interval)
  | constant (value : Option Constant)
  | done
deriving DecidableEq

/-- The reply to a query where `facts` are the facts of the unit that covers an expression. -/
def Query.replyFrom (t : Tree) (facts : ExprId → Option Body) : Query → Reply
  | resolve e => .facts (facts e)
  | valueType e => .valueType (typeOf (t.unwrap e))
  | integers e =>
    match (t.constant? e).bind (·.integer?) with
    | some v => .integers (some (.singleton v))
    | none => .integers (typeOf (t.unwrap e)).integers?
  | constant e =>
    let e := t.unwrap e
    match t.constant? e with
    | some c => .constant (if c.isNull then none else some c)
    | none => .constant (((facts e).bind fun b => (b.type e).constant?).filter fun c => !c.isNull)
  | forget _ | revise _ => .done
where
  typeOf (e : ExprId) : ValueType := ((facts e).map (·.type e)).getD .top

namespace Session

/-- Answers one query. -/
def perform (s : Session) : Query → Reply × Session
  | .resolve e => let (r, s) := s.ask e; (.facts (r.map (·.body)), s)
  | .valueType e => let (t, s) := s.valueType e; (.valueType t, s)
  | .integers e => let (i, s) := s.integers? e; (.integers i, s)
  | .constant e => let (c, s) := s.constant? e; (.constant c, s)
  | .forget c => (.done, s.forget c)
  | .revise c => (.done, s.revise c)

/-- Answers queries one after the other. -/
def performAll : List Query → Session → List Reply × Session
  | [], s => ([], s)
  | q :: qs, s =>
    let (reply, s) := s.perform q
    let (replies, s) := performAll qs s
    (reply :: replies, s)

/-! ## What a session answers -/

/-- The facts of a unit, as an analysis finds them. -/
def factsOf (s : Session) (u : UnitId) : Body :=
  (Analysis.ofUnit s.interpreter s.tree s.settings.analysis.stitching u).body

/-- The facts of the unit that covers `e`, if there is one and its analysis is completed. -/
def factsAt (s : Session) (e : ExprId) : Option Body :=
  ((s.tree.context? e).map s.factsOf).filter (·.status.isOk)

/-- Only results of analyses are kept, each for its unit. -/
def Coherent (s : Session) : Prop := s.cache.Memoizes fun u r => r.body = s.factsOf u

/-- From `s` to `s'` the program and the settings stay, and so does coherence. -/
structure Keeps (s s' : Session) : Prop where
  interpreter : s'.interpreter = s.interpreter
  tree : s'.tree = s.tree
  settings : s'.settings = s.settings
  coherent : s'.Coherent

variable {s : Session}

theorem Keeps.factsAt {s' : Session} (h : s.Keeps s') : s'.factsAt = s.factsAt := by
  have hfacts : s'.factsOf = s.factsOf := by
    funext u
    rw [factsOf, factsOf, h.interpreter, h.tree, h.settings]
  funext e
  rw [Session.factsAt, Session.factsAt, hfacts, h.tree]

theorem resultOf_of_returned {u : UnitId} {k : Key} {r : Result} {c : Cache Result}
    (hk : s.key? u = some k) (hbegin : s.cache.begin k = (.returned r, c)) :
    s.resultOf u = (r, { s with cache := c }) := by
  rw [resultOf, hk]
  dsimp only
  rw [hbegin]

theorem resultOf_of_computing {u : UnitId} {k : Key} {role : Role} {r : Result}
    {c c' : Cache Result} (hk : s.key? u = some k)
    (hbegin : s.cache.begin k = (.computing role, c))
    (hconclude : c.conclude k role (some (s.analyse u).1) = (.returned r, c')) :
    s.resultOf u = (r, { (s.analyse u).2 with cache := c' }) := by
  rw [resultOf, hk]
  dsimp only
  rw [hbegin]
  dsimp only [analyse] at hconclude ⊢
  rw [hconclude]

/-- The facts of a unit come out right, whether they were kept or not. -/
theorem resultOf_spec (h : s.Coherent) (u : UnitId) :
    (s.resultOf u).1.body = s.factsOf u ∧ s.Keeps (s.resultOf u).2 := by
  cases hk : s.key? u with
  | none =>
    rw [resultOf, hk]
    exact ⟨rfl, rfl, rfl, rfl, h⟩
  | some k =>
    have hunit : k.unit = u := by
      rw [key?] at hk
      split at hk
      · obtain ⟨c, -, rfl⟩ := Option.map_eq_some_iff.1 hk
        rfl
      · cases hk
    rcases Cache.serves_begin h k with ⟨r, c, hbegin, hgood, hc⟩ | ⟨role, c, hbegin, hconclude⟩
    · rw [hunit] at hgood
      rw [resultOf_of_returned hk hbegin]
      exact ⟨hgood, rfl, rfl, rfl, hc⟩
    · rw [hunit] at hconclude
      -- what the call computes is what an analysis finds, so it may be published
      obtain ⟨c', hc', hmemo⟩ := hconclude (s.analyse u).1 rfl
      rw [resultOf_of_computing hk hbegin hc']
      exact ⟨rfl, rfl, rfl, rfl, hmemo⟩

theorem ask_spec (h : s.Coherent) (e : ExprId) :
    (s.ask e).1.map (·.body) = s.factsAt e ∧ s.Keeps (s.ask e).2 := by
  cases hu : s.tree.context? e with
  | none =>
    rw [ask, factsAt, hu]
    exact ⟨rfl, rfl, rfl, rfl, h⟩
  | some u =>
    obtain ⟨hbody, hkeeps⟩ := resultOf_spec h u
    rw [ask, factsAt, hu]
    refine ⟨?_, hkeeps⟩
    show Option.map Result.body
      (if (s.resultOf u).1.body.status.isOk then some (s.resultOf u).1 else none) = _
    rw [hbody, Option.map_some, Option.filter_some]
    split
    · rw [Option.map_some, hbody]
    · rfl

theorem valueType_spec (h : s.Coherent) (e : ExprId) :
    .valueType (s.valueType e).1 = (Query.valueType e).replyFrom s.tree s.factsAt ∧
      s.Keeps (s.valueType e).2 := by
  obtain ⟨hfacts, hkeeps⟩ := ask_spec h (s.tree.unwrap e)
  refine ⟨?_, hkeeps⟩
  rw [Query.replyFrom, Query.replyFrom.typeOf, ← hfacts, Option.map_map]
  rfl

theorem integers?_spec (h : s.Coherent) (e : ExprId) :
    .integers (s.integers? e).1 = (Query.integers e).replyFrom s.tree s.factsAt ∧
      s.Keeps (s.integers? e).2 := by
  rw [integers?, Query.replyFrom]
  cases (s.tree.constant? e).bind (·.integer?) with
  | some v => exact ⟨rfl, rfl, rfl, rfl, h⟩
  | none =>
    obtain ⟨htype, hkeeps⟩ := valueType_spec h e
    have htype' := Reply.valueType.inj htype
    exact ⟨congrArg (Reply.integers ∘ ValueType.integers?) htype', hkeeps⟩

theorem constant?_spec (h : s.Coherent) (e : ExprId) :
    .constant (s.constant? e).1 = (Query.constant e).replyFrom s.tree s.factsAt ∧
      s.Keeps (s.constant? e).2 := by
  rw [constant?, Query.replyFrom]
  dsimp only
  cases s.tree.constant? (s.tree.unwrap e) with
  | some c => exact ⟨rfl, rfl, rfl, rfl, h⟩
  | none =>
    obtain ⟨hfacts, hkeeps⟩ := ask_spec h (s.tree.unwrap e)
    refine ⟨?_, hkeeps⟩
    dsimp only
    rw [← hfacts, Option.bind_map]
    rfl

/-! ## Sessions over time -/

/-- Modifications change the trees, but not what is found there. -/
theorem factsAt_revise (s : Session) (c : ContainerId) : (s.revise c).factsAt = s.factsAt := by
  have hfacts : (s.revise c).factsOf = s.factsOf := by
    funext u
    exact congrArg Analysis.body (Analysis.ofUnit_revise s.tree c s.interpreter _ u)
  funext e
  rw [factsAt, factsAt, hfacts]
  rfl

theorem Coherent.revise (h : s.Coherent) (c : ContainerId) : (s.revise c).Coherent := by
  intro i u j hj
  obtain ⟨r, hr, hbody⟩ := h i u j hj
  refine ⟨r, hr, hbody.trans ?_⟩
  exact congrArg Analysis.body (Analysis.ofUnit_revise s.tree c s.interpreter _ u).symm

theorem replyFrom_revise (t : Tree) (c : ContainerId) (facts : ExprId → Option Body)
    (q : Query) : q.replyFrom (t.revise c) facts = q.replyFrom t facts := by
  cases q <;> simp only [Query.replyFrom, Tree.unwrap_revise, Tree.constant?_revise]

/-- A query is answered with what an analysis finds, and the next one will be as well. -/
theorem perform_spec (h : s.Coherent) (q : Query) :
    (s.perform q).1 = q.replyFrom s.tree s.factsAt ∧ (s.perform q).2.Coherent ∧
      (s.perform q).2.factsAt = s.factsAt ∧
      ∀ (q' : Query) facts, q'.replyFrom (s.perform q).2.tree facts =
        q'.replyFrom s.tree facts := by
  have hkept : ∀ {s' : Session}, s.Keeps s' → s'.Coherent ∧ s'.factsAt = s.factsAt ∧
      ∀ (q' : Query) facts, q'.replyFrom s'.tree facts = q'.replyFrom s.tree facts := by
    intro s' hkeeps
    exact ⟨hkeeps.coherent, hkeeps.factsAt, fun q' facts => by rw [hkeeps.tree]⟩
  cases q with
  | resolve e =>
    obtain ⟨hreply, hkeeps⟩ := ask_spec h e
    exact ⟨congrArg Reply.facts hreply, hkept hkeeps⟩
  | valueType e =>
    obtain ⟨hreply, hkeeps⟩ := valueType_spec h e
    exact ⟨hreply, hkept hkeeps⟩
  | integers e =>
    obtain ⟨hreply, hkeeps⟩ := integers?_spec h e
    exact ⟨hreply, hkept hkeeps⟩
  | constant e =>
    obtain ⟨hreply, hkeeps⟩ := constant?_spec h e
    exact ⟨hreply, hkept hkeeps⟩
  | forget c => exact ⟨rfl, hkept ⟨rfl, rfl, rfl, Cache.Memoizes.forget h c⟩⟩
  | revise c =>
    exact ⟨rfl, h.revise c, factsAt_revise s c, fun q' facts => replyFrom_revise s.tree c facts q'⟩

/-- All queries are answered with what analyses find. -/
theorem performAll_spec (h : s.Coherent) (qs : List Query) :
    (performAll qs s).1 = qs.map (·.replyFrom s.tree s.factsAt) ∧
      (performAll qs s).2.Coherent ∧ (performAll qs s).2.factsAt = s.factsAt := by
  induction qs generalizing s with
  | nil => exact ⟨rfl, h, rfl⟩
  | cons q qs ih =>
    obtain ⟨hreply, hcoherent, hfacts, htree⟩ := perform_spec h q
    obtain ⟨hreplies, hcoherent', hfacts'⟩ := ih hcoherent
    refine ⟨?_, hcoherent', hfacts'.trans hfacts⟩
    show (s.perform q).1 :: (performAll qs (s.perform q).2).1 = _
    rw [hreply, hreplies, hfacts, List.map_cons]
    simp only [htree]

theorem performAll_append_singleton (qs : List Query) (q : Query) (s : Session) :
    performAll (qs ++ [q]) s =
      ((performAll qs s).1 ++ [((performAll qs s).2.perform q).1],
        ((performAll qs s).2.perform q).2) := by
  induction qs generalizing s with
  | nil => rfl
  | cons q' qs ih =>
    rw [List.cons_append, performAll, performAll]
    dsimp only
    rw [ih, List.cons_append]

/-- Whatever was asked and done before, a query is answered from the program as it was first. -/
theorem reply_after_performAll (h : s.Coherent) (qs : List Query) (q : Query) :
    ((performAll qs s).2.perform q).1 = q.replyFrom s.tree s.factsAt := by
  have hall := (performAll_spec h (qs ++ [q])).1
  rw [performAll_append_singleton, List.map_append, (performAll_spec h qs).1] at hall
  exact List.singleton_inj.1 (List.append_cancel_left hall)

theorem eq_of_start? {i : Interpreter} {t : Tree} {settings : Settings}
    (hs : start? i t settings = .ok s) :
    s = { interpreter := i, tree := t, settings := settings,
          cache := .ofLimit settings.waiting.limit.toNat } := by
  rw [start?] at hs
  cases hcheck : settings.check.mapError Error.settings with
  | error error =>
    rw [hcheck] at hs
    cases hs
  | ok _ =>
    rw [hcheck] at hs
    cases hs
    rfl

/-- A new session keeps nothing yet, and answers from the program it was given. -/
theorem start?_spec {i : Interpreter} {t : Tree} {settings : Settings}
    (hs : start? i t settings = .ok s) :
    s.Coherent ∧ s.tree = t ∧ s.factsAt = fun e =>
      ((t.context? e).map fun u =>
        (Analysis.ofUnit i t settings.analysis.stitching u).body).filter (·.status.isOk) := by
  obtain rfl := eq_of_start? hs
  exact ⟨Cache.Memoizes.ofLimit _, rfl, rfl⟩

/-- Two sessions about one program that analyse in the same way give the same answers, whether
they keep results or not and however callers would wait.  An expression has no facts exactly
where no unit covers it or the analysis of that unit is not completed. -/
theorem answers_do_not_depend_on_cache {i : Interpreter} {t : Tree} {settings settings' : Settings}
    {s s' : Session} (hs : start? i t settings = .ok s) (hs' : start? i t settings' = .ok s')
    (hsame : settings'.analysis = settings.analysis) (qs : List Query) :
    (performAll qs s).1 = (performAll qs s').1 ∧
      ∀ e, ((performAll qs s).2.ask e).1 = none ↔
        t.context? e = none ∨ ∃ u, t.context? e = some u ∧
          (Analysis.ofUnit? i t settings.analysis.stitching (some u)).body.status ≠ .ok := by
  obtain ⟨hcoherent, htree, hfacts⟩ := start?_spec hs
  obtain ⟨hcoherent', htree', hfacts'⟩ := start?_spec hs'
  obtain ⟨hreplies, hafter, hkept⟩ := performAll_spec hcoherent qs
  constructor
  · rw [hreplies, (performAll_spec hcoherent' qs).1, htree, htree', hfacts, hfacts', hsame]
  · intro e
    have hnone : ((performAll qs s).2.ask e).1 = none ↔ s.factsAt e = none := by
      rw [← hkept, ← (ask_spec hafter e).1, Option.map_eq_none_iff]
    rw [hnone, hfacts]
    cases hu : t.context? e with
    | none => simp [hu]
    | some u => simp [hu, Analysis.ofUnit?, RunStatus.isOk]

/-- Two methods of one container, with an expression each. -/
def twoMethods : Tree :=
  .build [.container, .unit ⟨0⟩ .method, .unit ⟨0⟩ .method, .expr ⟨0⟩, .expr ⟨1⟩]

/-- The run of the first method is completed, the run of the second one is not. -/
def oneTooComplex : Interpreter :=
  (({} : Interpreter).setScript ⟨0⟩ [.push ⟨0⟩ (.typed (.constant (.int 5))) {} none]).setScript
    ⟨1⟩ [.push ⟨1⟩ (.typed (.constant (.int 6))) {} none, .stop .tooComplex]

/-- With and without a cache, a session about `twoMethods` answers in the same way before and
after a modification, and it has no facts of the second method. -/
theorem answers_do_not_depend_on_cache_of_two_methods :
    let qs : List Query := [.resolve ⟨0⟩, .resolve ⟨1⟩, .integers ⟨0⟩, .revise ⟨0⟩, .constant ⟨0⟩,
      .forget ⟨0⟩, .valueType ⟨1⟩]
    ∃ s s', start? oneTooComplex twoMethods (.standard 4) = .ok s ∧
      start? oneTooComplex twoMethods ((Settings.standard 4).setCaching false) = .ok s' ∧
      (performAll qs s).1 = (performAll qs s').1 ∧ ((performAll qs s).2.ask ⟨1⟩).1 = none := by
  intro qs
  have hstart : start? oneTooComplex twoMethods (.standard 4) = .ok _ := rfl
  have hstart' : start? oneTooComplex twoMethods ((Settings.standard 4).setCaching false) =
      .ok _ := rfl
  obtain ⟨hsame, hnone⟩ := answers_do_not_depend_on_cache hstart hstart' rfl qs
  have hcovered : twoMethods.context? ⟨1⟩ = some ⟨1⟩ := by decide
  have hstatus : (Analysis.ofUnit? oneTooComplex twoMethods true (some ⟨1⟩)).body.status ≠ .ok := by
    decide
  exact ⟨_, _, hstart, hstart', hsame, (hnone ⟨1⟩).2 (Or.inr ⟨⟨1⟩, hcovered, hstatus⟩)⟩

end Session
end PathFacts
