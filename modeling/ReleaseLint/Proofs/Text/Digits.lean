/-
# Decimal digits

An integer is written by decimal digits, with no zero in front unless it is zero
(`eq_zero_of_head?_toDigits`).  So such digits are those of their own value
(`toDigits_ofDigitChars`), and every integer has one text.
-/

import Mathlib.Data.List.Basic

namespace ReleaseLint

variable {c : Char} {digits : List Char} {n : Nat}

theorem isDigit_of_mem_toDigits (h : c ∈ Nat.toDigits 10 n) : c.isDigit = true :=
  Nat.isDigit_of_mem_toDigits (by decide) (by decide) h

theorem exists_cons_toDigits (n : Nat) :
    ∃ c u, Nat.toDigits 10 n = c :: u ∧ c.isDigit = true := by
  obtain ⟨c, u, hcu⟩ := List.exists_cons_of_ne_nil (Nat.toDigits_ne_nil (n := n) (b := 10))
  exact ⟨c, u, hcu, isDigit_of_mem_toDigits (hcu ▸ List.mem_cons_self)⟩

theorem eq_zero_of_head?_toDigits (h : (Nat.toDigits 10 n).head? = some '0') : n = 0 := by
  induction n using Nat.strongRecOn with
  | ind n ih =>
    rw [Nat.toDigits_eq_if (by decide)] at h
    split at h
    · simpa using h
    · rename_i hn
      rw [List.head?_append, Option.or_of_isSome (by simp [Nat.toDigits_ne_nil])] at h
      have := ih (n / 10) (by omega) h
      omega

/-- The value of a digit is written by the digit. -/
theorem toDigits_of_isDigit (h : c.isDigit = true) :
    c.toNat - '0'.toNat < 10 ∧ Nat.toDigits 10 (c.toNat - '0'.toNat) = [c] := by
  have hzero : '0'.toNat = 48 := rfl
  have hnine : '9'.toNat = 57 := rfl
  rw [Char.isDigit_iff_toNat, hzero, hnine] at h
  rw [hzero]
  have hlt : c.toNat - 48 < 10 := by omega
  refine ⟨hlt, ?_⟩
  rw [Nat.toDigits_of_lt_base hlt, List.singleton_inj, ← Char.toNat_inj,
    Nat.toNat_digitChar_of_lt_ten hlt]
  omega

/-- More digits behind those of a positive integer are written behind them. -/
theorem toDigits_ofDigitChars_of_pos (hn : 0 < n) (hdigits : ∀ c ∈ digits, c.isDigit = true) :
    Nat.toDigits 10 (Nat.ofDigitChars 10 digits n) = Nat.toDigits 10 n ++ digits := by
  induction digits generalizing n with
  | nil => rw [Nat.ofDigitChars_nil, List.append_nil]
  | cons c digits ih =>
    obtain ⟨hlt, hc⟩ := toDigits_of_isDigit (hdigits c List.mem_cons_self)
    rw [Nat.ofDigitChars_cons, ih (by omega) fun d hd => hdigits d (List.mem_cons_of_mem c hd),
      ← Nat.toDigits_append_toDigits (by decide) hn hlt, hc, List.append_assoc]
    rfl

/-- **Digits without a zero in front are those of their value.** -/
theorem toDigits_ofDigitChars (hdigits : ∀ c ∈ digits, c.isDigit = true) (hne : digits ≠ [])
    (hzero : digits.head? = some '0' → digits.length = 1) :
    Nat.toDigits 10 (Nat.ofDigitChars 10 digits 0) = digits := by
  obtain ⟨c, digits, rfl⟩ := List.exists_cons_of_ne_nil hne
  obtain ⟨hlt, hc⟩ := toDigits_of_isDigit (hdigits c List.mem_cons_self)
  rw [Nat.ofDigitChars_cons, Nat.mul_zero, Nat.zero_add]
  by_cases hpos : 0 < c.toNat - '0'.toNat
  · rw [toDigits_ofDigitChars_of_pos hpos fun d hd => hdigits d (List.mem_cons_of_mem c hd), hc]
    rfl
  · -- a zero in front stands alone
    have hvalue : c.toNat - '0'.toNat = 0 := by omega
    rw [hvalue, Nat.toDigits_zero, List.singleton_inj] at hc
    subst hc
    obtain rfl : digits = [] := by simpa using hzero rfl
    rfl

end ReleaseLint
