/-
# Rounding stays in range

A quotient whose numerator has at most 250 binary digits is rounded to a number: the
exponent is at most that number of digits (`exists_ofRatio`).  So an integer of 64 bits
is finite, however it is signed (`isFinite_of_lt`): its digits are rounded, the power of ten
is one, and the product of the two has few enough digits again.
-/

import ReleaseLint.Json.Basic
import Mathlib.Algebra.Group.Nat.Defs
import Mathlib.Tactic.SplitIfs

namespace ReleaseLint
namespace Decimal

variable {num den : Nat} {q : Int}

theorem roundDiv_le (num den : Nat) : roundDiv num den ≤ num + 1 := by
  have hdiv : num / den ≤ num := Nat.div_le_self num den
  unfold roundDiv
  simp only
  split_ifs <;> omega

theorem scaleTwo_fst_le {k : Nat} (hq : -(k : Int) ≤ q) (num den : Nat) :
    (scaleTwo num den q).1 ≤ num * 2 ^ k := by
  unfold scaleTwo
  split_ifs with h
  · exact Nat.le_mul_of_pos_right num (Nat.two_pow_pos k)
  · rw [Nat.shiftLeft_eq]
    exact Nat.mul_le_mul_left num (Nat.pow_le_pow_right (by decide) (by omega))

namespace Binary64

/-- The nearest number to a quotient, unless its numerator is very long. -/
theorem exists_ofRatio (negative : Bool) (hnum : num.log2 ≤ 250) (den : Nat) :
    ∃ x, ofRatio negative num den = some x ∧ x.exponent ≤ num.log2 ∧
      x.mantissa ≤ num * 2 ^ (53 + den.log2) + 2 ^ 53 := by
  unfold ofRatio
  extract_lets guess fits q q'
  have hq : -((53 + den.log2 : Nat) : Int) ≤ q' ∧ q' < num.log2 := by
    have hq : guess ≤ q ∧ q ≤ guess + 2 := by
      simp only [q]
      split_ifs <;> omega
    simp only [guess] at hq
    simp only [q', minExponent]
    omega
  have hm : roundDiv (scaleTwo num den q').1 (scaleTwo num den q').2 ≤
      num * 2 ^ (53 + den.log2) + 1 :=
    Nat.le_trans (roundDiv_le _ _) (Nat.add_le_add_right (scaleTwo_fst_le hq.1 num den) 1)
  have hmax : maxExponent = 971 := rfl
  simp only
  generalize roundDiv (scaleTwo num den q').1 (scaleTwo num den q').2 = m at hm ⊢
  by_cases h : m = topMantissa
  · simp only [if_pos h]
    refine ⟨_, if_neg (by omega), Int.add_one_le_of_lt hq.2, ?_⟩
    exact Nat.le_trans (Nat.div_le_self topMantissa 2) (Nat.le_add_left _ _)
  · simp only [if_neg h]
    exact ⟨_, if_neg (by omega), Int.le_of_lt hq.2,
      Nat.le_trans hm (Nat.add_le_add_left Nat.one_le_two_pow _)⟩

theorem log2_le_of_lt {n k : Nat} (h : n < 2 ^ (k + 1)) : n.log2 ≤ k := by
  by_cases hn : n = 0
  · rw [hn]
    exact Nat.zero_le k
  · exact Nat.le_of_lt_succ ((Nat.log2_lt hn).2 h)

/-- The numerator of a number of 64 bits is not long. -/
theorem ratio_fst_lt {x : Binary64} (hm : x.mantissa < 2 ^ 120) (he : x.exponent ≤ 64) :
    x.ratio.1 < 2 ^ 184 := by
  unfold ratio
  split_ifs with h
  · have hpow : x.exponent.toNat ≤ 64 := by omega
    rw [Nat.shiftLeft_eq, show (184 : Nat) = 120 + 64 from rfl, Nat.pow_add]
    exact Nat.mul_lt_mul_of_lt_of_le hm (Nat.pow_le_pow_right (by decide) hpow)
      (Nat.two_pow_pos 64)
  · exact Nat.lt_trans hm (Nat.pow_lt_pow_right (by decide) (by decide))

/-- The power of ten of an integer. -/
def one : Binary64 := ⟨false, 2 ^ 52, -52⟩

theorem ofDecimal_one : ofDecimal false 1 0 = some one := rfl

theorem exists_ofDecimal {n : Nat} (h : n < UInt64.size) :
    ∃ x, ofDecimal false n 0 = some x ∧ x.ratio.1 < 2 ^ 184 := by
  have hlog : (n * powerOfTen 0).log2 ≤ 63 := by
    rw [show n * powerOfTen 0 = n from Nat.mul_one n]
    exact log2_le_of_lt h
  have hlength : (Nat.toDigits 10 n).length ≤ 20 :=
    Nat.length_toDigits_le_iff (by decide) (by decide) |>.2 (Nat.lt_trans h (by decide))
  unfold ofDecimal
  simp only
  split_ifs with hzero hlarge
  · exact ⟨_, rfl, by decide⟩
  · omega
  · obtain ⟨x, hx, he, hm⟩ := exists_ofRatio false (Nat.le_trans hlog (by decide)) 1
    have hbound : n * powerOfTen 0 * 2 ^ (53 + Nat.log2 1) + 2 ^ 53 < 2 ^ 120 := by
      rw [show n * powerOfTen 0 = n from Nat.mul_one n]
      have : n * 2 ^ (53 + Nat.log2 1) < UInt64.size * 2 ^ 53 :=
        Nat.mul_lt_mul_of_pos_right h (Nat.two_pow_pos 53)
      exact Nat.lt_of_lt_of_le (Nat.add_lt_add_right this _) (by decide)
    exact ⟨x, hx, ratio_fst_lt (Nat.lt_of_le_of_lt hm hbound) (by omega)⟩
  · omega

theorem isSome_mul?_one {x : Binary64} (h : x.ratio.1 < 2 ^ 184) : (x.mul? one).isSome = true := by
  have hone : one.ratio.1 = 2 ^ 52 := rfl
  have hlog : (x.ratio.1 * one.ratio.1).log2 ≤ 250 := by
    rw [hone]
    refine log2_le_of_lt
      (Nat.lt_of_lt_of_le (Nat.mul_lt_mul_of_pos_right h (Nat.two_pow_pos 52)) ?_)
    rw [← Nat.pow_add]
    exact Nat.pow_le_pow_right (by decide) (by decide)
  obtain ⟨y, hy, -⟩ := exists_ofRatio (x.negative != one.negative) hlog (x.ratio.2 * one.ratio.2)
  unfold mul?
  simp only [hy]
  split_ifs <;> rfl

end Binary64
end Decimal

namespace Json
namespace Number

open Decimal Binary64

/-- **An integer of 64 bits is finite,** with either sign. -/
theorem isFinite_of_lt (negative : Bool) {n : Nat} (h : n < UInt64.size) :
    isFinite ⟨negative, n, 0, true⟩ = true := by
  obtain ⟨x, hx, hratio⟩ := exists_ofDecimal h
  -- for any power, since the kernel would go on to multiply by this one
  have hmul : ∀ {a b : Option Binary64} {y : Binary64}, a = some x → b = some y →
      (do let digits ← a; let power ← b; digits.mul? power) = x.mul? y := by
    rintro _ _ y rfl rfl
    rfl
  unfold isFinite
  rw [hmul hx ofDecimal_one, isSome_mul?_one hratio, Bool.and_true, Bool.or_eq_true]
  exact .inr rfl

end Number
end Json
end ReleaseLint
