import PathFacts.Proofs.ValueType.Membership
import Mathlib.Order.Lattice

/-!
# The lattice of types

Joins are least upper bounds for all types.  Meets are greatest lower bounds among the types
whose bounds are in order (`ValueType.Ordered`), and joins and meets of such types are such
types again.  They form a bounded lattice, and the laws of meets are read off it
(`ValueType.lattice_laws`).

Bounds in the wrong order have to be left out.  Joins order such intervals like all others,
but a meet that would have bounds in the wrong order is `bottom`.

Meets also keep the order, where one side has its bounds in order (`ValueType.meet_mono`).

That a meet is greatest is proved by cases of the lower bound.  A constant is admitted by both
sides, so membership settles the case.  Above an interval and above a reference both sides are
of the same kind, and their parts meet because the lower bound has a part between them.
-/

namespace PathFacts

/-! ## Intervals -/

namespace Interval

variable {q r s m : Interval}

/-- An interval joins to another one that reaches at least as far on both sides. -/
theorem join_eq_right_iff : r.join s = s ↔ s.lower ≤ r.lower ∧ r.upper ≤ s.upper := by
  obtain ⟨lower, upper⟩ := s
  simp only [join, mk.injEq, min_eq_right_iff, max_eq_right_iff]

theorem meet?_eq_some_iff : r.meet? s = some m ↔
    m.Ordered ∧ m.lower = max r.lower s.lower ∧ m.upper = min r.upper s.upper := by
  obtain ⟨lower, upper⟩ := m
  rw [meet?, Ordered]
  constructor
  · intro h
    split at h
    · rename_i hle
      cases h
      exact ⟨hle, rfl, rfl⟩
    · cases h
  · rintro ⟨hle, rfl, rfl⟩
    exact if_pos hle

theorem join_of_meet? (h : r.meet? s = some m) : m.join r = r := by
  obtain ⟨-, hlower, hupper⟩ := meet?_eq_some_iff.1 h
  rw [join_eq_right_iff, hlower, hupper]
  exact ⟨le_max_left _ _, min_le_left _ _⟩

/-- Two intervals around a third one that has a member meet around it. -/
theorem exists_meet? (hq : q.Ordered) (hr : q.join r = r) (hs : q.join s = s) :
    ∃ m, r.meet? s = some m ∧ q.join m = m := by
  rw [join_eq_right_iff] at hr hs
  have hlower : max r.lower s.lower ≤ q.lower := max_le hr.1 hs.1
  have hupper : q.upper ≤ min r.upper s.upper := le_min hr.2 hs.2
  refine ⟨⟨_, _⟩, meet?_eq_some_iff.2 ⟨(hlower.trans hq).trans hupper, rfl, rfl⟩, ?_⟩
  rw [join_eq_right_iff]
  exact ⟨hlower, hupper⟩

theorem ordered_singleton (v : Int64) : (singleton v).Ordered := le_refl v

theorem ordered_join (hr : r.Ordered) (s : Interval) : (r.join s).Ordered :=
  ((min_le_left r.lower s.lower).trans hr).trans (le_max_left r.upper s.upper)

end Interval

/-! ## Facts about references -/

namespace Nullability

theorem eq_of_meet? {a b m : Nullability} (h : a.meet? b = some m) : a = .unknown ∨ a = m := by
  cases a <;> cases b <;> cases h <;> simp

theorem exists_meet? {a b c : Nullability} (ha : a = .unknown ∨ a = c)
    (hb : b = .unknown ∨ b = c) : ∃ m, a.meet? b = some m ∧ (m = .unknown ∨ m = c) := by
  rcases ha with rfl | rfl
  · exact ⟨b, rfl, hb⟩
  · rcases hb with rfl | rfl
    · exact ⟨a, by cases a <;> rfl, Or.inr rfl⟩
    · exact ⟨b, by cases b <;> rfl, Or.inr rfl⟩

end Nullability

namespace ReferenceInfo

variable {f g h m : ReferenceInfo}

/-- A reference joins to another one about which nothing is known that is not known of it. -/
theorem join_eq_right_iff : f.join g = g ↔
    (g.nullability = .unknown ∨ g.nullability = f.nullability) ∧
    (g.present = none ∨ g.present = f.present) ∧
    ∀ s, g.size = some s → ∃ r, f.size = some r ∧ r.join s = s := by
  obtain ⟨n, p, s⟩ := f
  obtain ⟨n', p', s'⟩ := g
  simp only [join, mk.injEq]
  refine and_congr ?_ (and_congr ?_ ?_)
  · cases n <;> cases n' <;> decide
  · by_cases hp : p = p'
    · simp [hp]
    · simp [hp, Ne.symm hp, eq_comm]
  · cases s <;> cases s' <;> simp

theorem meet?_eq_some_iff : f.meet? g = some m ↔
    f.nullability.meet? g.nullability = some m.nullability ∧
    meetPresent? f.present g.present = some m.present ∧
    meetSize? f.size g.size = some m.size := by
  obtain ⟨n, p, s⟩ := m
  rw [meet?]
  cases f.nullability.meet? g.nullability <;> cases meetPresent? f.present g.present <;>
    cases meetSize? f.size g.size <;> simp

theorem eq_of_meetPresent? {p q o : Option Bool} (h : meetPresent? p q = some o) :
    p = none ∨ p = o := by
  rcases p with _ | _ | _ <;> rcases q with _ | _ | _ <;> cases h <;> simp

theorem exists_meetPresent? {p q o : Option Bool} (hp : p = none ∨ p = o)
    (hq : q = none ∨ q = o) : ∃ m, meetPresent? p q = some m ∧ (m = none ∨ m = o) := by
  rcases hp with rfl | rfl
  · exact ⟨q, rfl, hq⟩
  · rcases hq with rfl | rfl
    · exact ⟨p, by rcases p with _ | _ | _ <;> rfl, Or.inr rfl⟩
    · exact ⟨q, by rcases q with _ | _ | _ <;> rfl, Or.inr rfl⟩

theorem join_of_meetSize? {s s' o : Option Interval} (h : meetSize? s s' = some o) :
    ∀ r, s = some r → ∃ q, o = some q ∧ q.join r = r := by
  rintro r rfl
  cases s' with
  | none =>
    cases h
    exact ⟨r, rfl, Interval.join_self r⟩
  | some r' =>
    obtain ⟨q, hq, rfl⟩ := Option.map_eq_some_iff.1 h
    exact ⟨q, rfl, Interval.join_of_meet? hq⟩

/-- Bounds in order are asked of the smaller size only where both sizes are known. -/
theorem exists_meetSize? {s s' o : Option Interval}
    (ho : ∀ r r' q, s = some r → s' = some r' → o = some q → q.Ordered)
    (hs : ∀ r, s = some r → ∃ q, o = some q ∧ q.join r = r)
    (hs' : ∀ r, s' = some r → ∃ q, o = some q ∧ q.join r = r) :
    ∃ m, meetSize? s s' = some m ∧ ∀ r, m = some r → ∃ q, o = some q ∧ q.join r = r := by
  cases s with
  | none => exact ⟨s', rfl, hs'⟩
  | some r =>
    cases s' with
    | none => exact ⟨some r, rfl, hs⟩
    | some r' =>
      obtain ⟨q, hq, hr⟩ := hs r rfl
      obtain ⟨q', hq', hr'⟩ := hs' r' rfl
      obtain rfl : q = q' := Option.some.inj (hq.symm.trans hq')
      obtain ⟨m, hm, hqm⟩ := Interval.exists_meet? (ho r r' q rfl rfl hq) hr hr'
      refine ⟨some m, Option.map_eq_some_iff.2 ⟨m, hm, rfl⟩, ?_⟩
      intro t ht
      cases ht
      exact ⟨q, hq, hqm⟩

theorem join_of_meet? (h : f.meet? g = some m) : m.join f = f := by
  obtain ⟨hn, hp, hs⟩ := meet?_eq_some_iff.1 h
  exact join_eq_right_iff.2
    ⟨Nullability.eq_of_meet? hn, eq_of_meetPresent? hp, join_of_meetSize? hs⟩

/-- Two references above a third one meet above it; if the sizes of both are known, the size of
the third one has to have a member. -/
theorem exists_meet?
    (hh : ∀ r s q, f.size = some r → g.size = some s → h.size = some q → q.Ordered)
    (hf : h.join f = f) (hg : h.join g = g) : ∃ m, f.meet? g = some m ∧ h.join m = m := by
  obtain ⟨hfn, hfp, hfs⟩ := join_eq_right_iff.1 hf
  obtain ⟨hgn, hgp, hgs⟩ := join_eq_right_iff.1 hg
  obtain ⟨n, hn, hn'⟩ := Nullability.exists_meet? hfn hgn
  obtain ⟨p, hp, hp'⟩ := exists_meetPresent? hfp hgp
  obtain ⟨s, hs, hs'⟩ := exists_meetSize? hh hfs hgs
  exact ⟨⟨n, p, s⟩, meet?_eq_some_iff.2 ⟨hn, hp, hs⟩, join_eq_right_iff.2 ⟨hn', hp', hs'⟩⟩

/-- A size met from two sizes has its bounds in order, whatever theirs were. -/
theorem ordered_of_meet?_sizes (hm : f.meet? g = some m) {r s q : Interval}
    (hf : f.size = some r) (hg : g.size = some s) (hq : m.size = some q) : q.Ordered := by
  obtain ⟨-, -, hsize⟩ := meet?_eq_some_iff.1 hm
  rw [hf, hg, hq] at hsize
  obtain ⟨q', hq', heq⟩ := Option.map_eq_some_iff.1 hsize
  cases heq
  exact (Interval.meet?_eq_some_iff.1 hq').1

theorem ordered_of_meet? (hf : ∀ r, f.size = some r → r.Ordered)
    (hg : ∀ r, g.size = some r → r.Ordered) (hm : f.meet? g = some m) :
    ∀ r, m.size = some r → r.Ordered := by
  obtain ⟨-, -, hs⟩ := meet?_eq_some_iff.1 hm
  cases hfs : f.size with
  | none =>
    rw [hfs, meetSize?, Option.some.injEq] at hs
    rwa [← hs]
  | some r =>
    cases hgs : g.size with
    | none =>
      rw [hfs, hgs, meetSize?, Option.some.injEq, ← hfs] at hs
      · rwa [← hs]
      · simp
    | some s => exact fun q hq => ordered_of_meet?_sizes hm hfs hgs hq

/-- Null is below every reference that admits it. -/
theorem join_eq_right_of_admits_null (hf : f.admits .null = true) :
    (ofNullability .isNull).join f = f := by
  obtain ⟨hn, hp, hs⟩ := admits_null_iff.1 hf
  refine join_eq_right_iff.2 ⟨?_, Or.inl hp, ?_⟩
  · cases hn' : f.nullability <;> simp_all [ofNullability]
  · intro s hs'
    rw [hs] at hs'
    cases hs'

/-- A text is below every reference that admits it. -/
theorem join_eq_right_of_admits_str {t : String} (hf : f.admits (.str t) = true) :
    join ⟨.notNull, none, some (.singleton (charCount t))⟩ f = f := by
  obtain ⟨hn, hp, hs⟩ := admits_str_iff.1 hf
  refine join_eq_right_iff.2 ⟨?_, Or.inl hp, ?_⟩
  · cases hn' : f.nullability <;> simp_all
  · intro s hs'
    exact ⟨_, rfl, Interval.join_eq_right_iff.2 (Interval.contains_iff.1 (hs s hs'))⟩

end ReferenceInfo

namespace ValueType

variable {a b c : ValueType}

/-! ## Types whose bounds are in order -/

/-- Whether the bounds of the interval or of the size are in order, if the type has any. -/
def Ordered : ValueType → Prop
  | range r => r.Ordered
  | reference f => ∀ r, f.size = some r → r.Ordered
  | bottom | constant _ | top => True

theorem ordered_widened (h : a.Ordered) : a.widened.Ordered := by
  cases a with
  | constant own =>
    cases own with
    | int v => exact Interval.ordered_singleton v
    | str t =>
      intro r hr
      cases hr
      exact Interval.ordered_singleton (charCount t)
    | null =>
      intro r hr
      cases hr
    | float _ | bool _ | char _ => trivial
  | bottom | top => trivial
  | range _ | reference _ => exact h

theorem ordered_joinWidened (ha : a.Ordered) (b : ValueType) : (joinWidened a b).Ordered := by
  cases a with
  | range r =>
    cases b with
    | range s => exact Interval.ordered_join ha s
    | bottom | constant _ | reference _ | top => trivial
  | reference f =>
    cases b with
    | reference g =>
      intro r hr
      rw [ReferenceInfo.join] at hr
      dsimp only at hr
      split at hr
      · rename_i q s hq _
        cases hr
        exact Interval.ordered_join (ha q hq) s
      · cases hr
    | bottom | constant _ | range _ | top => trivial
  | bottom | constant _ | top => trivial

theorem ordered_join (ha : a.Ordered) (hb : b.Ordered) : (a.join b).Ordered := by
  by_cases ha' : a = bottom
  · rwa [ha', bottom_join]
  by_cases hb' : b = bottom
  · rwa [hb', join_bottom]
  by_cases hab : a = b
  · rwa [← hab, join_self]
  · rw [join_of_ne ha' hb' hab]
    exact ordered_joinWidened (ordered_widened ha) b.widened

theorem ordered_meet (ha : a.Ordered) (hb : b.Ordered) : (a.meet b).Ordered := by
  induction a, b using meet_cases with
  | symm h => exact h hb ha
  | self a => exact ha
  | withTop a => exact hb
  | withBottom a => trivial
  | withConstant own a => split <;> trivial
  | ranges r s =>
    cases hm : r.meet? s with
    | none => trivial
    | some m => exact (Interval.meet?_eq_some_iff.1 hm).1
  | references f g =>
    cases hm : f.meet? g with
    | none => trivial
    | some m => exact ReferenceInfo.ordered_of_meet? ha hb hm
  | mixed r f => trivial

/-! ## The order -/

theorem bottom_le (a : ValueType) : bottom ≤ a := bottom_join a

/-- Between different types the order only sees what is left of them without constants. -/
theorem le_iff_of_ne (ha : a ≠ bottom) (h : a ≠ b) :
    a ≤ b ↔ joinWidened a.widened b.widened = b := by
  show a.join b = b ↔ _
  by_cases hb : b = bottom
  · rw [hb, join_bottom]
    exact iff_of_false ha (joinWidened_ne_bottom _ _)
  · rw [join_of_ne ha hb h]

theorem range_le_iff {r s : Interval} : range r ≤ range s ↔ r.join s = s := by
  by_cases h : r = s
  · rw [h]
    exact iff_of_true (le_refl _) (Interval.join_self s)
  · rw [le_iff_of_ne (by simp) (by simpa using h)]
    show range (r.join s) = range s ↔ _
    rw [range.injEq]

theorem reference_le_iff {f g : ReferenceInfo} : reference f ≤ reference g ↔ f.join g = g := by
  by_cases h : f = g
  · rw [h]
    exact iff_of_true (le_refl _) (ReferenceInfo.join_self g)
  · rw [le_iff_of_ne (by simp) (by simpa using h)]
    show reference (f.join g) = reference g ↔ _
    rw [reference.injEq]

/-- Nothing but the constant itself and `bottom` is below a constant. -/
theorem eq_of_le_constant {own : Constant} (ha : a ≠ bottom) (h : a ≤ constant own) :
    a = constant own := by
  by_contra hne
  rw [le_iff_of_ne ha hne] at h
  have hwidened : (constant own).widened = constant own := by
    rw [← h, widened_joinWidened]
  cases own <;> simp [widened, interval?, reference?] at hwidened

/-- Above an interval there are only intervals around it, and `top`. -/
theorem eq_top_or_range_of_range_le {r : Interval} (h : range r ≤ a) :
    a = top ∨ ∃ s, a = range s ∧ r.join s = s := by
  cases a with
  | top => exact Or.inl rfl
  | range s => exact Or.inr ⟨s, rfl, range_le_iff.1 h⟩
  | constant own => cases eq_of_le_constant (by simp) h
  | bottom | reference f =>
    rw [le_iff_of_ne (by simp) (by simp)] at h
    cases h

/-- Above a reference there are only references of which no more is known, and `top`. -/
theorem eq_top_or_reference_of_reference_le {f : ReferenceInfo} (h : reference f ≤ a) :
    a = top ∨ ∃ g, a = reference g ∧ f.join g = g := by
  cases a with
  | top => exact Or.inl rfl
  | reference g => exact Or.inr ⟨g, rfl, reference_le_iff.1 h⟩
  | constant own => cases eq_of_le_constant (by simp) h
  | bottom | range r =>
    rw [le_iff_of_ne (by simp) (by simp)] at h
    cases h

/-- A constant is below exactly the types that admit it. -/
theorem constant_le_iff {own : Constant} : constant own ≤ a ↔ a.admits own = true := by
  refine ⟨fun h => admits_of_le h (admits_constant_iff.2 rfl), fun h => ?_⟩
  cases a with
  | bottom => cases h
  | top => exact join_top _
  | constant other =>
    rw [admits_constant_iff.1 h]
  | range r =>
    rw [le_iff_of_ne (by simp) (by simp)]
    cases own with
    | int v => exact congrArg range (Interval.join_eq_right_iff.2 (Interval.contains_iff.1 h))
    | float _ | bool _ | char _ | str _ | null => cases h
  | reference f =>
    rw [le_iff_of_ne (by simp) (by simp)]
    cases own with
    | null => exact congrArg reference (ReferenceInfo.join_eq_right_of_admits_null h)
    | str t => exact congrArg reference (ReferenceInfo.join_eq_right_of_admits_str h)
    | int _ | float _ | bool _ | char _ => cases h

/-! ## Meets -/

theorem meet_le (a b : ValueType) : a.meet b ≤ a ∧ a.meet b ≤ b := by
  induction a, b using meet_cases with
  | symm h => exact h.symm
  | self a => exact ⟨le_refl a, le_refl a⟩
  | withTop a => exact ⟨join_top a, le_refl a⟩
  | withBottom a => exact ⟨le_refl bottom, bottom_le a⟩
  | withConstant own a =>
    split
    · rename_i h
      exact ⟨le_refl _, constant_le_iff.2 h⟩
    · exact ⟨bottom_le _, bottom_le _⟩
  | ranges r s =>
    cases hm : r.meet? s with
    | none => exact ⟨bottom_le _, bottom_le _⟩
    | some m =>
      have hm' : s.meet? r = some m := by rwa [Interval.meet?_comm]
      exact ⟨range_le_iff.2 (Interval.join_of_meet? hm),
        range_le_iff.2 (Interval.join_of_meet? hm')⟩
  | references f g =>
    cases hm : f.meet? g with
    | none => exact ⟨bottom_le _, bottom_le _⟩
    | some m =>
      have hm' : g.meet? f = some m := by rwa [ReferenceInfo.meet?_comm]
      exact ⟨reference_le_iff.2 (ReferenceInfo.join_of_meet? hm),
        reference_le_iff.2 (ReferenceInfo.join_of_meet? hm')⟩
  | mixed r f => exact ⟨bottom_le _, bottom_le _⟩

theorem reference_le_meet {f g h : ReferenceInfo}
    (hh : ∀ r s q, f.size = some r → g.size = some s → h.size = some q → q.Ordered)
    (hf : h.join f = f) (hg : h.join g = g) :
    reference h ≤ (reference f).meet (reference g) := by
  by_cases hfg : f = g
  · rw [hfg, meet_self]
    exact reference_le_iff.2 hg
  · obtain ⟨m, hm, hhm⟩ := ReferenceInfo.exists_meet? hh hf hg
    rw [reference_meet_reference hfg, hm]
    exact reference_le_iff.2 hhm

/-- A meet is the greatest lower bound whose own bounds are in order. -/
theorem le_meet (hc : c.Ordered) (ha : c ≤ a) (hb : c ≤ b) : c ≤ a.meet b := by
  cases c with
  | bottom => exact bottom_le _
  | top =>
    rw [eq_top_of_le ha rfl, top_meet]
    exact hb
  | constant own =>
    rw [constant_le_iff] at ha hb ⊢
    rw [admits_meet, ha, hb, Bool.and_self]
  | range q =>
    obtain rfl | ⟨r, rfl, hr⟩ := eq_top_or_range_of_range_le ha
    · rwa [top_meet]
    obtain rfl | ⟨s, rfl, hs⟩ := eq_top_or_range_of_range_le hb
    · rwa [meet_top]
    by_cases hrs : r = s
    · rwa [hrs, meet_self]
    obtain ⟨m, hm, hqm⟩ := Interval.exists_meet? hc hr hs
    rw [range_meet_range hrs, hm]
    exact range_le_iff.2 hqm
  | reference h =>
    obtain rfl | ⟨f, rfl, hf⟩ := eq_top_or_reference_of_reference_le ha
    · rwa [top_meet]
    obtain rfl | ⟨g, rfl, hg⟩ := eq_top_or_reference_of_reference_le hb
    · rwa [meet_top]
    exact reference_le_meet (fun _ _ q _ _ hq => hc q hq) hf hg

/-- Meets keep the order.  One of the two smaller types is asked to have its bounds in order,
because a type meets with itself in itself even if they are not. -/
theorem meet_mono {a' b' : ValueType} (h : a.Ordered ∨ b.Ordered) (ha : a ≤ a') (hb : b ≤ b') :
    a.meet b ≤ a'.meet b' := by
  induction a, b using meet_cases generalizing a' b' with
  | symm ih =>
    rw [meet_comm a' b']
    exact ih h.symm hb ha
  | self a => exact le_meet (h.elim id id) ha hb
  | withTop a =>
    rw [eq_top_of_le ha rfl, top_meet]
    exact hb
  | withBottom a => exact bottom_le _
  | withConstant own a =>
    split
    · rename_i hown
      rw [constant_le_iff, admits_meet, constant_le_iff.1 ha, admits_of_le hb hown,
        Bool.and_self]
    · exact bottom_le _
  | ranges r s =>
    cases hm : r.meet? s with
    | none => exact bottom_le _
    | some m =>
      have hm' : s.meet? r = some m := by rwa [Interval.meet?_comm]
      have hord : (range m).Ordered := (Interval.meet?_eq_some_iff.1 hm).1
      exact le_meet hord ((range_le_iff.2 (Interval.join_of_meet? hm)).trans ha)
        ((range_le_iff.2 (Interval.join_of_meet? hm')).trans hb)
  | references f g =>
    cases hm : f.meet? g with
    | none => exact bottom_le _
    | some m =>
      have hm' : g.meet? f = some m := by rwa [ReferenceInfo.meet?_comm]
      have hmf := ReferenceInfo.join_of_meet? hm
      have hmg := ReferenceInfo.join_of_meet? hm'
      obtain rfl | ⟨f', rfl, hf⟩ := eq_top_or_reference_of_reference_le ha
      · rw [top_meet]
        exact (reference_le_iff.2 hmg).trans hb
      obtain rfl | ⟨g', rfl, hg⟩ := eq_top_or_reference_of_reference_le hb
      · rw [meet_top]
        exact (reference_le_iff.2 hmf).trans ha
      refine reference_le_meet ?_ (reference_le_iff.1 ((reference_le_iff.2 hmf).trans ha))
        (reference_le_iff.1 ((reference_le_iff.2 hmg).trans hb))
      -- where both larger sizes are known, so are both smaller ones
      intro r s q hr hs hq
      obtain ⟨r', hr', -⟩ := (ReferenceInfo.join_eq_right_iff.1 hf).2.2 r hr
      obtain ⟨s', hs', -⟩ := (ReferenceInfo.join_eq_right_iff.1 hg).2.2 s hs
      exact ReferenceInfo.ordered_of_meet?_sizes hm hr' hs' hq
  | mixed r f => exact bottom_le _

/-- Bounds in the wrong order: such an interval can be below two others that meet in
`bottom`. -/
example : range ⟨5, 2⟩ ≤ range ⟨1, 2⟩ ∧ range ⟨5, 2⟩ ≤ range ⟨5, 6⟩ ∧
    (range ⟨1, 2⟩).meet (range ⟨5, 6⟩) = bottom := by
  decide

/-! ## The lattice -/

/-- Types whose bounds are in order, with joins and meets as bounds. -/
instance : Lattice {t : ValueType // t.Ordered} where
  __ := Subtype.semilatticeSup fun _ _ => ordered_join
  inf a b := ⟨a.1.meet b.1, ordered_meet a.2 b.2⟩
  inf_le_left a b := (meet_le a.1 b.1).1
  inf_le_right a b := (meet_le a.1 b.1).2
  le_inf c _ _ ha hb := le_meet c.2 ha hb

instance : BoundedOrder {t : ValueType // t.Ordered} where
  bot := ⟨bottom, trivial⟩
  bot_le a := bottom_le a.1
  top := ⟨top, trivial⟩
  le_top a := join_top a.1

/-- Joins and meets are those of a bounded lattice among the types whose bounds are in order,
and joins are those of a bounded semilattice among all types. -/
theorem lattice_laws (a b c : ValueType) :
    ((a.join b).join c = a.join (b.join c) ∧ a.join b = b.join a ∧ a.join a = a ∧
      bottom.join a = a ∧ top.join a = top) ∧
    (a.Ordered → b.Ordered → c.Ordered →
      ((a.meet b).meet c = a.meet (b.meet c) ∧ a.meet b = b.meet a ∧ a.meet a = a ∧
        bottom.meet a = bottom ∧ top.meet a = a) ∧
      a.join (a.meet b) = a ∧ a.meet (a.join b) = a ∧
      (a.join b).Ordered ∧ (a.meet b).Ordered) := by
  refine ⟨⟨join_assoc a b c, join_comm a b, join_self a, bottom_join a, top_join a⟩, ?_⟩
  intro ha hb hc
  let a' : {t : ValueType // t.Ordered} := ⟨a, ha⟩
  let b' : {t : ValueType // t.Ordered} := ⟨b, hb⟩
  let c' : {t : ValueType // t.Ordered} := ⟨c, hc⟩
  refine ⟨⟨?_, meet_comm a b, meet_self a, bottom_meet a, top_meet a⟩, ?_, ?_,
    ordered_join ha hb, ordered_meet ha hb⟩
  · exact congrArg Subtype.val (inf_assoc a' b' c')
  · exact congrArg Subtype.val (sup_inf_self : a' ⊔ a' ⊓ b' = a')
  · exact congrArg Subtype.val (inf_sup_self : a' ⊓ (a' ⊔ b') = a')

/-- A text and two references with sizes: the sizes overlap, and the text has a length that
both allow. -/
theorem lattice_laws_of_overlapping_sizes :
    let text := constant (.str "ab")
    let short := reference ⟨.unknown, none, some ⟨0, 5⟩⟩
    let long := reference ⟨.notNull, none, some ⟨2, 9⟩⟩
    text.Ordered ∧ short.Ordered ∧ long.Ordered ∧
      (text.meet short).meet long = text.meet (reference ⟨.notNull, none, some ⟨2, 5⟩⟩) ∧
      short.join (short.meet text) = short ∧ (short.meet long).Ordered := by
  intro text short long
  have hshort : short.Ordered := by
    intro r hr
    cases hr
    decide
  have hlong : long.Ordered := by
    intro r hr
    cases hr
    decide
  have hmeet : short.meet long = reference ⟨.notNull, none, some ⟨2, 5⟩⟩ := by decide
  obtain ⟨⟨hassoc, -⟩, -⟩ := (lattice_laws text short long).2 trivial hshort hlong
  obtain ⟨-, habsorb, -⟩ := (lattice_laws short text long).2 hshort trivial hlong
  obtain ⟨-, -, -, -, hordered⟩ := (lattice_laws short long text).2 hshort hlong trivial
  exact ⟨trivial, hshort, hlong, hmeet ▸ hassoc, habsorb, hordered⟩

end ValueType
end PathFacts
