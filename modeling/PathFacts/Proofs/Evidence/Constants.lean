import PathFacts.Proofs.Evidence.Observations
import PathFacts.Proofs.ValueSet.Forms

/-!
# The constants of an expression

Each value that is observed for an expression adds its constant, or gives the constants up if it
has none.  `constants_exact_and_canonical` says all that can be known of the result: which
constants it keeps and how many, which form it has, and when two lists of observations lead to
the same one.
-/

namespace PathFacts.Evidence

/-- Adds the constants of a list of values, each under its own memory. -/
def observeConstants (p : Evidence) (seen : List (Memory × Pushed)) : Evidence :=
  seen.foldl (fun p s => p.observeConstant s.1 s.2) p

/-- The constant of each value, where it has one. -/
def constantsOf (seen : List (Memory × Pushed)) : List (Option Constant) :=
  seen.map fun s => (s.1.typeOf s.2).constant?

/-- From the empty point on, nothing but the constants of the values counts. -/
theorem constants_observeConstants (seen : List (Memory × Pushed)) :
    (observeConstants {} seen).constants = .ofObservations (constantsOf seen) := by
  induction seen using List.reverseRecOn with
  | nil => rfl
  | append_singleton seen s ih =>
    rw [observeConstants, List.foldl_append, constantsOf, List.map_append]
    show ((observeConstants {} seen).observeConstant s.1 s.2).constants =
      .ofObservations (constantsOf seen ++ [(s.1.typeOf s.2).constant?])
    rw [ValueSet.ofObservations_append, ← ih, observeConstant]

/-- The constants are exact and have one form only.  They are given up exactly if some value had
no constant.  Otherwise they are the constants that were observed, each counted once, and the
form tells whether there is none, one or several.  So only which constants were observed decides
the result, not their order and not how often each was observed. -/
theorem constants_exact_and_canonical (seen : List (Memory × Pushed)) :
    let s := (observeConstants {} seen).constants
    let found := constantsOf seen
    (s.isUnbounded = true ↔ none ∈ found) ∧
      (none ∉ found →
        (∀ c, c ∈ s.toSet ↔ some c ∈ found) ∧ s.size = ValueSet.distinct found ∧
          (s = .empty ↔ ValueSet.distinct found = 0) ∧
          ((∃ c, s = .one c) ↔ ValueSet.distinct found = 1) ∧
          ((∃ cs, s = .many cs) ↔ 2 ≤ ValueSet.distinct found)) ∧
      (∀ c, s.contains c = true ↔ c ∈ s.toSet) ∧
      ∀ seen', s = (observeConstants {} seen').constants ↔
        (none ∈ found ∧ none ∈ constantsOf seen') ∨
          (none ∉ found ∧ none ∉ constantsOf seen' ∧
            ∀ c, some c ∈ found ↔ some c ∈ constantsOf seen') := by
  intro s found
  have hs : s = .ofObservations found := constants_observeConstants seen
  refine ⟨?_, ?_, fun c => ValueSet.contains_iff_mem_toSet, ?_⟩
  · rw [ValueSet.isUnbounded_iff, hs, ValueSet.ofObservations_eq_unbounded_iff]
  · intro hall
    have hkept : s ≠ .unbounded := by
      rw [hs, Ne, ValueSet.ofObservations_eq_unbounded_iff]
      exact hall
    have hcanonical : s.Canonical := hs ▸ ValueSet.canonical_ofObservations found
    have hsize : s.size = ValueSet.distinct found := by
      rw [hs, ValueSet.size_ofObservations hall]
    have hforms := ValueSet.forms_of_canonical hcanonical hkept
    rw [hsize] at hforms
    refine ⟨fun c => ?_, hsize, hforms⟩
    rw [hs, ValueSet.mem_toSet_ofObservations hall]
  · intro seen'
    rw [hs, constants_observeConstants, ValueSet.ofObservations_eq_iff]

/-- A variable that is null, the interval from `7` to `7` and the variable again: two constants
are kept, null is one of them, and the number before null would have led to the same. -/
theorem constants_exact_and_canonical_of_null_first :
    let x : Variable := ⟨"x"⟩
    let m := Memory.setType {} x .null
    let seen : List (Memory × Pushed) :=
      [(m, .stored x), ({}, .typed (.range ⟨7, 7⟩)), (m, .stored x)]
    let seen' : List (Memory × Pushed) :=
      [({}, .typed (.constant (.int 7))), ({}, .typed .null)]
    let s := (observeConstants {} seen).constants
    none ∉ constantsOf seen ∧ .null ∈ s.toSet ∧ s.size = 2 ∧ (∃ cs, s = .many cs) ∧
      s = (observeConstants {} seen').constants := by
  intro x m seen seen' s
  have hfound : constantsOf seen = [some .null, some (.int 7), some .null] := by decide
  have hfound' : constantsOf seen' = [some (.int 7), some .null] := by decide
  obtain ⟨-, hexact, -, hsame⟩ := constants_exact_and_canonical seen
  rw [hfound] at hexact hsame ⊢
  have hall : none ∉ [some Constant.null, some (.int 7), some .null] := by simp
  obtain ⟨hmem, hsize, -, -, hmany⟩ := hexact hall
  refine ⟨hall, (hmem _).2 (by simp), hsize.trans (by decide), hmany.2 (by decide), ?_⟩
  rw [hsame, hfound']
  exact Or.inr ⟨hall, by simp, fun c => by simp [or_comm]⟩

end PathFacts.Evidence
