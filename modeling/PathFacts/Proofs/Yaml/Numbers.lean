import PathFacts.Proofs.Yaml.Words
import PathFacts.Yaml.Node.Basic

/-!
# Numbers in decimal

A number that is written in decimal is a word (`isWord_decimal`), and the number it is read as is
the one that was written (`Node.unsigned?_decimal`).  A text of digits would be read as a text if it
began with a needless zero, but none that writes a number does.
-/

namespace PathFacts.Yaml

theorem toList_decimal (n : Nat) : (toString n).toList = Nat.toDigits 10 n := by
  rw [Nat.toString_eq_ofList_toDigits, String.toList_ofList]

theorem isDigit_of_mem_decimal {n : Nat} {c : Char} (hc : c ∈ Nat.toDigits 10 n) :
    c.isDigit = true :=
  Nat.isDigit_of_mem_toDigits (by decide) (by decide) hc

theorem isWord_decimal (n : Nat) : IsWord (toString n) where
  nonempty := by
    rw [toList_decimal]
    exact Nat.toDigits_ne_nil
  plain := by
    intro c hc
    rw [toList_decimal] at hc
    simp [isWordChar, Char.isAlphanum, isDigit_of_mem_decimal hc]

namespace Node

theorem digit?_of_isDigit {c : Char} (hc : c.isDigit = true) :
    digit? 10 c = some (c.toNat - 48) := by
  have hrange : '0' ≤ c ∧ c ≤ '9' := by simpa [Char.isDigit, Char.le_def] using hc
  have hupper : c.toNat ≤ 57 := UInt32.le_iff_toNat_le.1 hrange.2
  have hvalue : c.toNat - 48 < 10 := by omega
  simp [digit?, hrange.1, hrange.2, hvalue]

theorem foldlM_digits {cs : List Char} (h : ∀ c ∈ cs, c.isDigit = true) (start : Nat) :
    cs.foldlM (fun n c => (digit? 10 c).map (10 * n + ·)) start
      = some (Nat.ofDigitChars 10 cs start) := by
  induction cs generalizing start with
  | nil => rfl
  | cons c cs ih =>
    rw [List.foldlM_cons, digit?_of_isDigit (h c List.mem_cons_self)]
    simp [ih (fun d hd => h d (List.mem_cons_of_mem c hd)), Nat.ofDigitChars_cons]

theorem head_toDigits_ne_zero {n : Nat} (h : 0 < n) : (Nat.toDigits 10 n).head? ≠ some '0' := by
  induction n using Nat.strongRecOn with
  | ind n ih =>
    rcases Nat.lt_or_ge n 10 with hn | hn
    · simp only [Nat.toDigits_of_lt_base hn, List.head?_cons, ne_eq, Option.some.injEq,
        Nat.digitChar_eq_zero]
      omega
    · have hhead : (Nat.toDigits 10 n).head? = (Nat.toDigits 10 (n / 10)).head? := by
        obtain ⟨c, cs, hcons⟩ := List.exists_cons_of_ne_nil (Nat.toDigits_ne_nil (n := n / 10))
        rw [Nat.toDigits_of_base_le (by decide) hn, hcons]
        rfl
      rw [hhead]
      exact ih (n / 10) (by omega) (by omega)

theorem hasLeadingZero_decimal (n : Nat) : hasLeadingZero (Nat.toDigits 10 n) = false := by
  rcases Nat.eq_zero_or_pos n with rfl | hn
  · decide
  · have hhead := head_toDigits_ne_zero hn
    cases h : Nat.toDigits 10 n with
    | nil => rfl
    | cons c cs =>
      rw [h] at hhead
      unfold hasLeadingZero
      split
      · simp_all
      · rfl

/-- Digits without a needless zero in front are read in decimal. -/
theorem unsignedOfWord?_of_isDigit {cs : List Char} (h : ∀ c ∈ cs, c.isDigit = true)
    (hzero : hasLeadingZero cs = false) : unsignedOfWord? cs = digits? 10 cs := by
  unfold unsignedOfWord?
  split
  · exact absurd (h '+' (by simp)) (by decide)
  · dsimp only
    split
    · exact absurd (h 'x' (by simp)) (by decide)
    · exact absurd (h 'o' (by simp)) (by decide)
    · exact absurd (h 'b' (by simp)) (by decide)
    · rw [hzero, if_neg Bool.false_ne_true]

theorem unsignedOfWord?_decimal (n : Nat) : unsignedOfWord? (toString n).toList = some n := by
  rw [toList_decimal, unsignedOfWord?_of_isDigit (fun c => isDigit_of_mem_decimal)
    (hasLeadingZero_decimal n), digits?]
  · rw [foldlM_digits fun c => isDigit_of_mem_decimal, Nat.ofDigitChars_ten_toDigits]
  · exact Nat.toDigits_ne_nil

/-- A number in decimal is read as it was written. -/
theorem unsigned?_decimal {n bound : Nat} (h : n < bound) :
    (scalar (toString n) .plain none).unsigned? bound = some n := by
  rw [unsigned?, valueText?, Option.bind_some, unsignedOfWord?_decimal]
  simp [h]

end Node
end PathFacts.Yaml
