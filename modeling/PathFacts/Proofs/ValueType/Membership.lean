import PathFacts.Proofs.ValueType.Join

/-!
# What the operations on types mean

A type stands for the constants that it admits.  A join admits whatever one of its sides
admits (`ValueType.admits_join_left`), a meet admits exactly what both sides admit
(`ValueType.admits_meet`), and what the views read off a type holds of every constant that it
admits.  Bounds may be in the wrong order: an interval with such bounds contains nothing, and
every statement still holds.

Null and strings are references by rules of their own, but each rule asks one question about
nullability, one about presence and one about size.  `ReferenceInfo.any_meet?` answers the
three apart.
-/

namespace PathFacts

/-! ## Intervals -/

namespace Interval

theorem contains_join {r : Interval} {v : Int64} (h : r.contains v = true) (s : Interval) :
    (r.join s).contains v = true := by
  rw [contains_iff] at h ⊢
  exact ⟨(min_le_left r.lower s.lower).trans h.1, h.2.trans (le_max_left r.upper s.upper)⟩

theorem meet?_comm (r s : Interval) : r.meet? s = s.meet? r := by
  rw [meet?, meet?, max_comm r.lower s.lower, min_comm r.upper s.upper]

/-- The common part contains what both contain; where there is none, that is nothing. -/
theorem any_meet? (r s : Interval) (v : Int64) :
    (r.meet? s).any (·.contains v) = (r.contains v && s.contains v) := by
  rw [Bool.eq_iff_iff, Bool.and_eq_true, contains_iff, contains_iff, Option.any_eq_true, meet?]
  constructor
  · rintro ⟨t, ht, hv⟩
    split at ht
    · cases ht
      rw [contains_iff] at hv
      exact ⟨⟨(le_max_left _ _).trans hv.1, hv.2.trans (min_le_left _ _)⟩,
        (le_max_right _ _).trans hv.1, hv.2.trans (min_le_right _ _)⟩
    · cases ht
  · rintro ⟨hr, hs⟩
    have hlower : max r.lower s.lower ≤ v := max_le hr.1 hs.1
    have hupper : v ≤ min r.upper s.upper := le_min hr.2 hs.2
    exact ⟨_, if_pos (hlower.trans hupper), contains_iff.2 ⟨hlower, hupper⟩⟩

/-- The only member is the one that is contained. -/
theorem contains_iff_of_single? {r : Interval} {v w : Int64} (h : r.single? = some v) :
    r.contains w = true ↔ w = v := by
  rw [single?] at h
  split at h
  · rename_i hbounds
    cases h
    rw [contains_iff, ← hbounds]
    exact ⟨fun hw => le_antisymm hw.2 hw.1, fun hw => hw ▸ ⟨le_refl w, le_refl w⟩⟩
  · cases h

theorem eq_singleton_of_single? {r : Interval} {v : Int64} (h : r.single? = some v) :
    r = .singleton v := by
  rw [single?] at h
  split at h
  · rename_i hbounds
    cases h
    cases r
    cases hbounds
    rfl
  · cases h

end Interval

/-! ## Facts about references -/

theorem Nullability.meet?_comm (a b : Nullability) : a.meet? b = b.meet? a := by
  cases a <;> cases b <;> rfl

namespace ReferenceInfo

theorem admits_null_iff {f : ReferenceInfo} : f.admits .null = true ↔
    f.nullability ≠ .notNull ∧ f.present = none ∧ f.size = none := by
  simp [admits, and_assoc]

theorem admits_str_iff {f : ReferenceInfo} {t : String} : f.admits (.str t) = true ↔
    f.nullability ≠ .isNull ∧ f.present = none ∧
      ∀ r, f.size = some r → r.contains (charCount t) = true := by
  simp [admits, and_assoc, Option.all_eq_true]

theorem admits_join {f : ReferenceInfo} {c : Constant} (h : f.admits c = true)
    (g : ReferenceInfo) : (f.join g).admits c = true := by
  have hnull : ∀ n, n ≠ .unknown → f.nullability ≠ n → (f.join g).nullability ≠ n := by
    intro n hn hf
    rw [join, Nullability.join]
    split
    · exact hf
    · exact Ne.symm hn
  have hpresent : f.present = none → (f.join g).present = none := by
    intro hf
    rw [join, hf, ite_self]
  cases c with
  | null =>
    obtain ⟨hn, hp, hs⟩ := admits_null_iff.1 h
    refine admits_null_iff.2 ⟨hnull _ (by decide) hn, hpresent hp, ?_⟩
    rw [join, hs]
  | str t =>
    obtain ⟨hn, hp, hs⟩ := admits_str_iff.1 h
    refine admits_str_iff.2 ⟨hnull _ (by decide) hn, hpresent hp, ?_⟩
    intro r hr
    rw [join] at hr
    dsimp only at hr
    split at hr
    · rename_i q s hq hs'
      cases hr
      exact Interval.contains_join (hs q hq) s
    · cases hr
  | int v | float b | bool b | char x => cases h

theorem meetPresent?_comm (p q : Option Bool) : meetPresent? p q = meetPresent? q p := by
  rcases p with _ | _ | _ <;> rcases q with _ | _ | _ <;> rfl

theorem meetSize?_comm (r s : Option Interval) : meetSize? r s = meetSize? s r := by
  rcases r with _ | r <;> rcases s with _ | s
  · rfl
  · rfl
  · rfl
  · rw [meetSize?, meetSize?, Interval.meet?_comm]

theorem meet?_comm (f g : ReferenceInfo) : f.meet? g = g.meet? f := by
  rw [meet?, meet?, Nullability.meet?_comm, meetPresent?_comm, meetSize?_comm]

/-- Three questions, one for each fact, are answered apart by a meet. -/
theorem any_meet? (f g : ReferenceInfo) (p : Nullability → Bool) (q : Option Bool → Bool)
    (r : Option Interval → Bool) :
    (f.meet? g).any (fun h => p h.nullability && q h.present && r h.size) =
      ((f.nullability.meet? g.nullability).any p && (meetPresent? f.present g.present).any q &&
        (meetSize? f.size g.size).any r) := by
  rw [meet?]
  cases f.nullability.meet? g.nullability <;> cases meetPresent? f.present g.present <;>
    cases meetSize? f.size g.size <;> simp

theorem any_meetPresent? (p q : Option Bool) :
    (meetPresent? p q).any (·.isNone) = (p.isNone && q.isNone) := by
  rcases p with _ | _ | _ <;> rcases q with _ | _ | _ <;> rfl

theorem any_isNone_meetSize? (r s : Option Interval) :
    (meetSize? r s).any (·.isNone) = (r.isNone && s.isNone) := by
  rcases r with _ | r <;> rcases s with _ | s
  · rfl
  · rfl
  · rfl
  · rw [meetSize?]
    cases r.meet? s <;> rfl

theorem any_contains_meetSize? (r s : Option Interval) (v : Int64) :
    (meetSize? r s).any (·.all (·.contains v)) =
      (r.all (·.contains v) && s.all (·.contains v)) := by
  rcases r with _ | r <;> rcases s with _ | s
  · rfl
  · rfl
  · exact (Bool.and_true _).symm
  · rw [meetSize?, Option.any_map]
    exact Interval.any_meet? r s v

theorem admits_meet? (f g : ReferenceInfo) (c : Constant) :
    (f.meet? g).any (·.admits c) = (f.admits c && g.admits c) := by
  cases c with
  | null =>
    have hnull : (f.nullability.meet? g.nullability).any (· != .notNull) =
        (f.nullability != .notNull && g.nullability != .notNull) := by
      cases f.nullability <;> cases g.nullability <;> rfl
    calc (f.meet? g).any (·.admits .null)
      _ = _ := any_meet? f g (· != .notNull) (·.isNone) (·.isNone)
      _ = _ := by
        rw [hnull, any_meetPresent?, any_isNone_meetSize?, admits, admits]
        ac_rfl
  | str t =>
    have hnull : (f.nullability.meet? g.nullability).any (· != .isNull) =
        (f.nullability != .isNull && g.nullability != .isNull) := by
      cases f.nullability <;> cases g.nullability <;> rfl
    calc (f.meet? g).any (·.admits (.str t))
      _ = _ := any_meet? f g (· != .isNull) (·.isNone) (Option.all (·.contains (charCount t)))
      _ = _ := by
        rw [hnull, any_meetPresent?, any_contains_meetSize?, admits, admits]
        ac_rfl
  | int v | float b | bool b | char x => simp [admits]

end ReferenceInfo

/-! ## Types -/

namespace ValueType

variable {a b : ValueType} {c : Constant}

@[simp] theorem admits_top (c : Constant) : top.admits c = true := rfl

@[simp] theorem admits_bottom (c : Constant) : bottom.admits c = false := rfl

theorem admits_constant_iff {own : Constant} : (constant own).admits c = true ↔ c = own := by
  rw [admits, beq_iff_eq]
  exact eq_comm

/-- Reading a constant as an interval or as facts about a reference loses no constant. -/
theorem admits_widened (h : a.admits c = true) : a.widened.admits c = true := by
  cases a with
  | constant own =>
    rw [admits_constant_iff] at h
    subst h
    cases c <;> simp [widened, interval?, reference?, admits, ReferenceInfo.admits,
      ReferenceInfo.ofNullability]
  | bottom => cases h
  | range r | reference f | top => exact h

theorem admits_joinWidened (h : a.admits c = true) (b : ValueType) :
    (joinWidened a b).admits c = true := by
  cases a with
  | range r =>
    cases b with
    | range s =>
      cases c with
      | int v => exact Interval.contains_join h s
      | float _ | bool _ | char _ | str _ | null => cases h
    | bottom | constant _ | reference _ | top => rfl
  | reference f =>
    cases b with
    | reference g => exact ReferenceInfo.admits_join h g
    | bottom | constant _ | range _ | top => rfl
  | bottom | constant _ | top => rfl

theorem admits_join_left (h : a.admits c = true) (b : ValueType) :
    (a.join b).admits c = true := by
  by_cases ha : a = bottom
  · rw [ha] at h
    cases h
  by_cases hb : b = bottom
  · rwa [hb, join_bottom]
  by_cases hab : a = b
  · rwa [← hab, join_self]
  · rw [join_of_ne ha hb hab]
    exact admits_joinWidened (admits_widened h) b.widened

/-- A larger type admits more. -/
theorem admits_of_le (h : a ≤ b) (hc : a.admits c = true) : b.admits c = true := by
  have hjoin : a.join b = b := h
  rw [← hjoin]
  exact admits_join_left hc b

/-! ### Meets -/

@[simp] theorem meet_self (a : ValueType) : a.meet a = a := if_pos rfl

@[simp] theorem top_meet (a : ValueType) : top.meet a = a := by cases a <;> rfl

@[simp] theorem meet_top (a : ValueType) : a.meet top = a := by cases a <;> rfl

@[simp] theorem bottom_meet (a : ValueType) : bottom.meet a = bottom := by cases a <;> rfl

@[simp] theorem meet_bottom (a : ValueType) : a.meet bottom = bottom := by cases a <;> rfl

/-- A constant is left of a meet exactly if the other side admits it. -/
theorem constant_meet (own : Constant) (a : ValueType) :
    (constant own).meet a = if a.admits own = true then constant own else bottom := by
  by_cases h : constant own = a
  · rw [← h, meet_self, if_pos (admits_constant_iff.2 rfl)]
  · cases a <;> exact if_neg h

theorem meet_constant (a : ValueType) (own : Constant) :
    a.meet (constant own) = if a.admits own = true then constant own else bottom := by
  by_cases h : a = constant own
  · rw [h, meet_self, if_pos (admits_constant_iff.2 rfl)]
  cases a with
  | constant other =>
    have hne : other ≠ own := fun heq => h (congrArg constant heq)
    rw [constant_meet, if_neg (by rwa [admits_constant_iff]),
      if_neg (by rwa [admits_constant_iff, eq_comm])]
  | bottom | range _ | reference _ | top => exact if_neg h

theorem range_meet_range {r s : Interval} (h : r ≠ s) :
    (range r).meet (range s) = ((r.meet? s).map range).getD bottom :=
  if_neg fun heq => h (range.inj heq)

theorem reference_meet_reference {f g : ReferenceInfo} (h : f ≠ g) :
    (reference f).meet (reference g) = ((f.meet? g).map reference).getD bottom :=
  if_neg fun heq => h (reference.inj heq)

theorem range_meet_reference (r : Interval) (f : ReferenceInfo) :
    (range r).meet (reference f) = bottom := rfl

theorem meet_comm (a b : ValueType) : a.meet b = b.meet a := by
  by_cases h : a = b
  · rw [h]
  cases a with
  | bottom => rw [bottom_meet, meet_bottom]
  | top => rw [top_meet, meet_top]
  | constant own => rw [constant_meet, meet_constant]
  | range r =>
    cases b with
    | bottom => rw [bottom_meet, meet_bottom]
    | top => rw [top_meet, meet_top]
    | constant own => rw [constant_meet, meet_constant]
    | range s =>
      have hrs : r ≠ s := fun heq => h (congrArg range heq)
      rw [range_meet_range hrs, range_meet_range hrs.symm, Interval.meet?_comm]
    | reference f => rfl
  | reference f =>
    cases b with
    | bottom => rw [bottom_meet, meet_bottom]
    | top => rw [top_meet, meet_top]
    | constant own => rw [constant_meet, meet_constant]
    | range r => rfl
    | reference g =>
      have hfg : f ≠ g := fun heq => h (congrArg reference heq)
      rw [reference_meet_reference hfg, reference_meet_reference hfg.symm,
        ReferenceInfo.meet?_comm]

/-- What a meet can be.  A statement about two types and their meet that does not depend on
their order holds if it holds in these cases. -/
theorem meet_cases {motive : ValueType → ValueType → ValueType → Prop}
    (symm : ∀ {a b m}, motive a b m → motive b a m)
    (self : ∀ a, motive a a a)
    (withTop : ∀ a, motive top a a)
    (withBottom : ∀ a, motive bottom a bottom)
    (withConstant : ∀ own a, motive (constant own) a
      (if a.admits own = true then constant own else bottom))
    (ranges : ∀ r s, motive (range r) (range s) (((r.meet? s).map range).getD bottom))
    (references : ∀ f g, motive (reference f) (reference g)
      (((f.meet? g).map reference).getD bottom))
    (mixed : ∀ r f, motive (range r) (reference f) bottom)
    (a b : ValueType) : motive a b (a.meet b) := by
  by_cases h : a = b
  · rw [h, meet_self]
    exact self b
  cases a with
  | bottom => rw [bottom_meet]; exact withBottom b
  | top => rw [top_meet]; exact withTop b
  | constant own => rw [constant_meet]; exact withConstant own b
  | range r =>
    cases b with
    | bottom => rw [meet_bottom]; exact symm (withBottom _)
    | top => rw [meet_top]; exact symm (withTop _)
    | constant own => rw [meet_constant]; exact symm (withConstant own _)
    | range s =>
      rw [range_meet_range fun heq => h (congrArg range heq)]
      exact ranges r s
    | reference f => rw [range_meet_reference]; exact mixed r f
  | reference f =>
    cases b with
    | bottom => rw [meet_bottom]; exact symm (withBottom _)
    | top => rw [meet_top]; exact symm (withTop _)
    | constant own => rw [meet_constant]; exact symm (withConstant own _)
    | range r => rw [meet_comm, range_meet_reference]; exact symm (mixed r f)
    | reference g =>
      rw [reference_meet_reference fun heq => h (congrArg reference heq)]
      exact references f g

theorem admits_getD_bottom {α : Type} (o : Option α) (f : α → ValueType) (c : Constant) :
    ((o.map f).getD bottom).admits c = o.any fun x => (f x).admits c := by
  cases o <;> rfl

/-- A meet admits exactly what both sides admit. -/
theorem admits_meet (a b : ValueType) (c : Constant) :
    (a.meet b).admits c = (a.admits c && b.admits c) := by
  induction a, b using meet_cases with
  | symm h => rw [h, Bool.and_comm]
  | self a => rw [Bool.and_self]
  | withTop a => rfl
  | withBottom a => rfl
  | withConstant own a =>
    by_cases hc : c = own
    · subst hc
      rw [admits_constant_iff.2 rfl, Bool.true_and]
      split
      · rename_i h
        rw [admits_constant_iff.2 rfl, h]
      · rename_i h
        rw [admits_bottom, Bool.eq_false_of_not_eq_true h]
    · have hown : (constant own).admits c = false := by
        rwa [← Bool.not_eq_true, admits_constant_iff]
      split
      · rw [hown, Bool.false_and]
      · rw [hown, Bool.false_and, admits_bottom]
  | ranges r s =>
    rw [admits_getD_bottom]
    cases c with
    | int v => exact Interval.any_meet? r s v
    | float _ | bool _ | char _ | str _ | null => simp [admits]
  | references f g =>
    rw [admits_getD_bottom]
    exact ReferenceInfo.admits_meet? f g c
  | mixed r f => cases c <;> simp [admits, ReferenceInfo.admits]

/-! ### What the views tell -/

/-- The constant described is the only one that is admitted. -/
theorem admits_iff_of_constant? (h : a.constant? = some c) (c' : Constant) :
    a.admits c' = true ↔ c' = c := by
  cases a with
  | constant own =>
    cases h
    exact admits_constant_iff
  | range r =>
    obtain ⟨v, hv, rfl⟩ := Option.map_eq_some_iff.1 h
    cases c' with
    | int w => rw [admits, Interval.contains_iff_of_single? hv, Constant.int.injEq]
    | float _ | bool _ | char _ | str _ | null => simp [admits]
  | bottom | reference _ | top => cases h

/-- Every constant that is admitted has an integral value in the interval described. -/
theorem exists_integer?_of_integers? {r : Interval} (h : a.integers? = some r)
    (hc : a.admits c = true) : ∃ v, c.integer? = some v ∧ r.contains v = true := by
  cases a with
  | constant own =>
    rw [admits_constant_iff] at hc
    subst hc
    obtain ⟨v, hv, rfl⟩ := Option.map_eq_some_iff.1 h
    exact ⟨v, hv, Interval.contains_singleton.2 rfl⟩
  | range s =>
    cases h
    cases c with
    | int v => exact ⟨v, rfl, hc⟩
    | float _ | bool _ | char _ | str _ | null => cases hc
  | bottom | reference _ | top => cases h

/-- The only value of a type is its interval, if it is integral. -/
theorem integers?_of_constant? (h : a.constant? = some c) {v : Int64} (hv : c.integer? = some v) :
    a.integers? = some (.singleton v) := by
  cases a with
  | constant own =>
    cases h
    rw [integers?, hv, Option.map_some]
  | range r =>
    obtain ⟨w, hw, rfl⟩ := Option.map_eq_some_iff.1 h
    cases hv
    rw [integers?, Interval.eq_singleton_of_single? hw]
  | bottom | reference _ | top => cases h

/-- What the operations and the views of two types mean for the constants that the types
admit, whatever the order of their bounds. -/
theorem operations_mean_admitted (a b : ValueType) :
    (∀ c, a.admits c = true ∨ b.admits c = true → (a.join b).admits c = true) ∧
    (∀ c, (a.meet b).admits c = true ↔ a.admits c = true ∧ b.admits c = true) ∧
    (a.join b = b → ∀ c, a.admits c = true → b.admits c = true) ∧
    (∀ c, a.constant? = some c → ∀ c', a.admits c' = true ↔ c' = c) ∧
    (∀ r, a.integers? = some r → ∀ c, a.admits c = true →
      ∃ v, c.integer? = some v ∧ r.contains v = true) := by
  refine ⟨?_, ?_, ?_, ?_, ?_⟩
  · rintro c (h | h)
    · exact admits_join_left h b
    · rw [join_comm]
      exact admits_join_left h a
  · intro c
    rw [admits_meet, Bool.and_eq_true]
  · intro h c hc
    exact admits_of_le h hc
  · intro c h c'
    exact admits_iff_of_constant? h c'
  · intro r h c hc
    exact exists_integer?_of_integers? h hc

/-- A text of two characters and a reference whose size has its bounds in the wrong order: the
size contains nothing, yet the join admits the text and the meet does not. -/
theorem operations_mean_admitted_of_crossed_size :
    let text := constant (.str "ab")
    let sized := reference ⟨.notNull, none, some ⟨3, 1⟩⟩
    text.constant? = some (.str "ab") ∧ (text.join sized).admits (.str "ab") = true ∧
      ¬ (text.meet sized).admits (.str "ab") = true ∧ ¬ text.join sized = sized := by
  intro text sized
  obtain ⟨hjoin, hmeet, hle, hconstant, -⟩ := operations_mean_admitted text sized
  have htext : text.admits (.str "ab") = true := (hconstant _ rfl _).2 rfl
  have hsized : ¬ sized.admits (.str "ab") = true := by decide
  refine ⟨rfl, hjoin _ (Or.inl htext), ?_, ?_⟩
  · rw [hmeet]
    exact fun h => hsized h.2
  · exact fun h => hsized (hle h _ htext)

end ValueType
end PathFacts
