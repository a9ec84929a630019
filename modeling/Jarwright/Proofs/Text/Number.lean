import Jarwright.Text.Number
import Mathlib.Tactic.Common

/-!
# What is read as a number

Digits are read from the left, and at each of them the value so far is compared with the bound. Since
the value never shrinks, this is the same as comparing the whole number (`unsigned_eq_ok_iff`).
-/

namespace Jarwright.Text

variable {bound n m : Nat} {cs : List Char}

/-- The text is the number in decimal digits, at least one of them, behind a plus sign or not. -/
def IsNumeral (cs : List Char) (n : Nat) : Prop :=
  ∃ digits, (cs = digits ∨ cs = '+' :: digits) ∧ digits ≠ []
    ∧ (∀ c ∈ digits, c.isDigit = true) ∧ Nat.ofDigitChars 10 digits 0 = n

theorem le_ofDigitChars (n : Nat) (cs : List Char) : n ≤ Nat.ofDigitChars 10 cs n := by
  induction cs generalizing n with
  | nil => exact Nat.le_refl n
  | cons c cs ih =>
    rw [Nat.ofDigitChars_cons]
    have := ih (10 * n + (c.toNat - '0'.toNat))
    omega

theorem digitsFrom_eq_ok_iff :
    digitsFrom bound n cs = .ok m ↔ (∀ c ∈ cs, c.isDigit = true)
      ∧ Nat.ofDigitChars 10 cs n = m ∧ (cs = [] ∨ m < bound) := by
  induction cs generalizing n with
  | nil => simp [digitsFrom, Nat.ofDigitChars]
  | cons c cs ih =>
    have hdigit : ('0' ≤ c ∧ c ≤ '9') ↔ c.isDigit = true := by
      simp only [Char.isDigit, Bool.and_eq_true, decide_eq_true_eq, Char.le_def, ge_iff_le]
    have hvalue : n * 10 + (c.toNat - 48) = 10 * n + (c.toNat - '0'.toNat) := by
      rw [Nat.mul_comm]
      rfl
    rw [digitsFrom, List.forall_mem_cons, Nat.ofDigitChars_cons]
    simp only [hdigit, hvalue, List.cons_ne_nil, false_or]
    have hle := le_ofDigitChars (10 * n + (c.toNat - '0'.toNat)) cs
    by_cases hc : c.isDigit = true
    · rw [if_pos hc]
      split
      · rename_i hbound
        rw [ih]
        constructor
        · rintro ⟨hall, rfl, rfl | hm⟩
          · exact ⟨⟨hc, hall⟩, rfl, hbound⟩
          · exact ⟨⟨hc, hall⟩, rfl, hm⟩
        · rintro ⟨⟨-, hall⟩, rfl, hm⟩
          exact ⟨hall, rfl, .inr hm⟩
      · rename_i hbound
        refine iff_of_false (by simp) ?_
        rintro ⟨-, rfl, hm⟩
        omega
    · rw [if_neg hc]
      exact iff_of_false (by simp) fun h => hc h.1.1

theorem unsigned_eq_ok_iff : unsigned bound cs = .ok n ↔ IsNumeral cs n ∧ n < bound := by
  have hplus : ¬ '+'.isDigit = true := by decide
  unfold unsigned
  split
  · refine iff_of_false (by simp) ?_
    rintro ⟨⟨digits, rfl | h, hne, -⟩, -⟩
    · exact hne rfl
    · cases h
  · refine iff_of_false (by simp) ?_
    rintro ⟨⟨digits, rfl | h, hne, hall, -⟩, -⟩
    · exact hplus (hall '+' List.mem_cons_self)
    · cases h
      exact hne rfl
  · rename_i digits hdigits
    rw [digitsFrom_eq_ok_iff]
    constructor
    · rintro ⟨hall, hvalue, rfl | hbound⟩
      · exact absurd rfl hdigits
      · exact ⟨⟨digits, .inr rfl, fun h => hdigits (by rw [h]), hall, hvalue⟩, hbound⟩
    · rintro ⟨⟨found, rfl | h, -, hall, hvalue⟩, hbound⟩
      · exact absurd (hall '+' List.mem_cons_self) hplus
      · cases h
        exact ⟨hall, hvalue, .inr hbound⟩
  · rename_i hempty _ hsigned
    rw [digitsFrom_eq_ok_iff]
    constructor
    · rintro ⟨hall, hvalue, rfl | hbound⟩
      · exact absurd rfl hempty
      · exact ⟨⟨cs, .inl rfl, hempty, hall, hvalue⟩, hbound⟩
    · rintro ⟨⟨found, rfl | h, -, hall, hvalue⟩, hbound⟩
      · exact ⟨hall, hvalue, .inr hbound⟩
      · exact absurd h (hsigned found)

end Jarwright.Text
