import PathFacts.Yaml.Outline

/-!
# Entries of an outline, in any order

`Outline.Rearranged` gives the entries of mappings another order, on any level.  A key stands for
the same thing afterwards, up to the order of its own entries
(`Outline.Rearranged.value?_eq_some`), and a document stays one
(`Outline.Rearranged.isDocument`).
-/

namespace PathFacts.Yaml

variable {o p : Outline} {key : String} {v w : Content}

/-! ## Entries -/

namespace Outline

theorem entries_eq_nil : o.entries = [] ↔ o = done := by
  cases o <;> simp [entries]

@[simp]
theorem entries_entry (key : String) (v : Content) (o : Outline) :
    (entry key v o).entries = (key, v) :: o.entries := by
  cases v <;> rfl

theorem keys_entry (key : String) (v : Content) (o : Outline) :
    (entry key v o).keys = key :: o.keys := by
  rw [keys, entries_entry]
  rfl

theorem value?_entry_self (key : String) (v : Content) (o : Outline) :
    (entry key v o).value? key = some v := by
  rw [value?, entries_entry, List.lookup_cons_self]

theorem value?_entry_of_ne {k : String} (h : k ≠ key) (v : Content) (o : Outline) :
    (entry k v o).value? key = o.value? key := by
  have hother : (key == k) = false := beq_eq_false_iff_ne.2 (Ne.symm h)
  rw [value?, entries_entry, List.lookup_cons, hother]
  rfl

theorem value?_eq_none_iff : o.value? key = none ↔ key ∉ o.keys := by
  rw [value?, List.lookup_eq_none_iff, keys, List.mem_map, not_exists]
  refine forall_congr' fun e => ?_
  rw [bne_iff_ne, not_and]
  exact ⟨fun h he heq => h he heq.symm, fun h he heq => h he heq.symm⟩

theorem mem_entries_of_value? (h : o.value? key = some v) : (key, v) ∈ o.entries := by
  obtain ⟨front, back, heq, -⟩ := List.lookup_eq_some_iff.1 h
  simp [heq]

/-- Where no key is given twice, each entry is found by its key. -/
theorem value?_eq_some_iff (hkeys : o.keys.Nodup) :
    o.value? key = some v ↔ (key, v) ∈ o.entries := by
  refine ⟨mem_entries_of_value?, fun hmem => ?_⟩
  obtain ⟨front, back, heq⟩ := List.append_of_mem hmem
  refine List.lookup_eq_some_iff.2 ⟨front, back, heq, fun e he => ?_⟩
  rw [bne_iff_ne]
  rintro rfl
  rw [keys, heq, List.map_append, List.nodup_append] at hkeys
  exact hkeys.2.2 e.1 (List.mem_map_of_mem he) e.1 (by simp) rfl

end Outline

/-! ## Documents -/

/-- How many levels are nested in one another; a word has none. -/
def Content.depth : Content → Nat
  | .inl _ => 0
  | .inr o => o.depth + 1

namespace Outline

/-- An entry that can be laid out in lines. -/
def IsPlainEntry : String × Content → Prop
  | (key, .inl text) => IsKey key ∧ IsWord text
  | (key, .inr inner) => IsKey key ∧ inner ≠ done ∧ inner.IsPlain

theorem isPlain_iff (o : Outline) : o.IsPlain ↔ ∀ e ∈ o.entries, IsPlainEntry e := by
  induction o with
  | done => simp [IsPlain, entries]
  | word key text next ih => simp [IsPlain, entries, IsPlainEntry, ih, and_assoc]
  | block key inner next _ ih => simp [IsPlain, entries, IsPlainEntry, ih, and_assoc]

theorem depth_le_iff (o : Outline) (n : Nat) :
    o.depth ≤ n ↔ ∀ e ∈ o.entries, Content.depth e.2 ≤ n := by
  induction o with
  | done => simp [depth, entries]
  | word key text next ih =>
    rw [depth, ih, entries, List.forall_mem_cons]
    exact (and_iff_right (Nat.zero_le n)).symm
  | block key inner next _ ih =>
    rw [depth, Nat.max_le, ih, entries, List.forall_mem_cons]
    rfl

theorem depth_le_of_mem (h : (key, v) ∈ o.entries) : v.depth ≤ o.depth :=
  (depth_le_iff o o.depth).1 (Nat.le_refl _) _ h

/-! ## Order -/

/-- The second outline says what the first one does, with the entries of mappings in another
order. -/
inductive Rearranged : Outline → Outline → Prop
  | entries {o p : Outline} (h : o.entries.Perm p.entries) : Rearranged o p
  | inner {key : String} {i j next : Outline} (h : Rearranged i j) :
    Rearranged (block key i next) (block key j next)
  | trans {o p q : Outline} (h : Rearranged o p) (h' : Rearranged p q) : Rearranged o q

end Outline

/-- The second content says what the first one does. -/
inductive Content.Rearranged : Content → Content → Prop
  | word (text : String) : Rearranged (.inl text) (.inl text)
  | mapping {o p : Outline} (h : o.Rearranged p) : Rearranged (.inr o) (.inr p)

namespace Content.Rearranged

theorem refl (v : Content) : v.Rearranged v := by
  cases v with
  | inl text => exact .word text
  | inr o => exact .mapping (.entries (.refl _))

theorem trans {u : Content} (h : u.Rearranged v) (h' : v.Rearranged w) : u.Rearranged w := by
  cases h with
  | word => exact h'
  | mapping h =>
    cases h' with
    | mapping h' => exact .mapping (h.trans h')

theorem eq_inl {text : String} (h : v.Rearranged w) (hv : v = .inl text) : w = .inl text := by
  cases h with
  | word => exact hv
  | mapping => cases hv

theorem isNull_iff (h : v.Rearranged w) : v.IsNull ↔ w.IsNull := by
  cases h with
  | word => exact Iff.rfl
  | mapping h => simp [Content.IsNull]

end Content.Rearranged

namespace Outline.Rearranged

theorem keys_perm (h : Rearranged o p) : o.keys.Perm p.keys := by
  induction h with
  | entries h => exact h.map Prod.fst
  | inner => exact .refl _
  | trans _ _ ih ih' => exact ih.trans ih'

theorem exists_mem_entries (h : Rearranged o p) (he : (key, v) ∈ o.entries) :
    ∃ w, (key, w) ∈ p.entries ∧ v.Rearranged w := by
  induction h generalizing v with
  | entries h => exact ⟨v, h.mem_iff.1 he, .refl v⟩
  | inner h =>
    rcases List.mem_cons.1 he with heq | he
    · obtain ⟨rfl, rfl⟩ := Prod.mk.inj heq
      exact ⟨_, .head _, .mapping h⟩
    · exact ⟨v, .tail _ he, .refl v⟩
  | trans _ _ ih ih' =>
    obtain ⟨u, hu, hrest⟩ := ih he
    obtain ⟨w, hw, hlast⟩ := ih' hu
    exact ⟨w, hw, hrest.trans hlast⟩

theorem value?_eq_none (h : Rearranged o p) (hkey : o.value? key = none) :
    p.value? key = none := by
  rw [value?_eq_none_iff] at hkey ⊢
  rwa [← h.keys_perm.mem_iff]

/-- A key stands for the same thing, if no key is given twice. -/
theorem value?_eq_some (h : Rearranged o p) (hkeys : o.keys.Nodup)
    (hkey : o.value? key = some v) : ∃ w, p.value? key = some w ∧ v.Rearranged w := by
  obtain ⟨w, hw, hsame⟩ := h.exists_mem_entries (mem_entries_of_value? hkey)
  exact ⟨w, (value?_eq_some_iff (h.keys_perm.nodup_iff.1 hkeys)).2 hw, hsame⟩

theorem depth_le (h : Rearranged o p) : p.depth ≤ o.depth := by
  induction h with
  | @entries o p h =>
    exact (depth_le_iff p _).2 fun e he => depth_le_of_mem (h.mem_iff.2 he)
  | @inner key i j next _ ih =>
    have hinner : j.depth + 1 ≤ i.depth + 1 := Nat.succ_le_succ ih
    exact Nat.max_le.2 ⟨Nat.le_trans hinner (Nat.le_max_left _ _), Nat.le_max_right _ _⟩
  | trans _ _ ih ih' => exact Nat.le_trans ih' ih

theorem eq_done_iff (h : Rearranged o p) : o = done ↔ p = done := by
  induction h with
  | entries h =>
    rw [← entries_eq_nil, ← entries_eq_nil]
    exact ⟨fun ho => List.nil_perm.1 (ho ▸ h), fun hp => List.perm_nil.1 (hp ▸ h)⟩
  | inner h => simp
  | trans _ _ ih ih' => exact ih.trans ih'

/-- In another order an outline can still be laid out. -/
theorem isPlain (h : Rearranged o p) (ho : o.IsPlain) : p.IsPlain := by
  induction h with
  | entries h =>
    rw [isPlain_iff] at ho ⊢
    exact fun e he => ho e (h.mem_iff.2 he)
  | inner h ih => exact ⟨ho.1, fun hj => ho.2.1 (h.eq_done_iff.2 hj), ih ho.2.2.1, ho.2.2.2⟩
  | trans _ _ ih ih' => exact ih' (ih ho)

theorem isDocument (h : Rearranged o p) (ho : o.IsDocument) : p.IsDocument where
  nonempty hp := ho.nonempty (h.eq_done_iff.2 hp)
  plain := h.isPlain ho.plain
  shallow := Nat.lt_of_le_of_lt h.depth_le ho.shallow

end Outline.Rearranged
end PathFacts.Yaml
