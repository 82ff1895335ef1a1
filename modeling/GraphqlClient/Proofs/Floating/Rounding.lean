import GraphqlClient.Floating.Rounding
import Mathlib.Algebra.Order.Floor.Semifield
import Mathlib.Data.Int.Log
import Mathlib.Data.Rat.Floor

/-!
# Rounding depends on the quotient only

`Format.nearestRank` computes with numerators and denominators. Here it is shown to depend on the
rational number that they stand for (`nearestRank_congr`), and to give back the rank of a value that
needs no rounding (`nearestRank_value`).
-/

namespace GraphqlClient.Floating

/-! ## Powers with integer exponents -/

/-- A power of either sign scales a fraction through its numerator or its denominator. -/
theorem div_mul_zpow {b : ℕ} (hb : 0 < b) (num den : ℕ) (e : ℤ) :
    (num : ℚ) / den * (b : ℚ) ^ e
      = ((num * Nat.pow b e.toNat : ℕ) : ℚ) / (den * Nat.pow b (-e).toNat : ℕ) := by
  have hb' : (b : ℚ) ≠ 0 := Nat.cast_ne_zero.2 hb.ne'
  have hpow : ∀ k : ℕ, ((Nat.pow b k : ℕ) : ℚ) = (b : ℚ) ^ k := fun k => Nat.cast_pow b k
  rw [Nat.cast_mul, Nat.cast_mul, hpow, hpow]
  obtain he | he := le_total 0 e
  · lift e to ℕ using he
    simp [mul_div_right_comm]
  · obtain ⟨k, hk⟩ := Int.eq_ofNat_of_zero_le (neg_nonneg.2 he)
    obtain rfl : e = -k := by omega
    rw [neg_neg, Int.toNat_natCast, Int.toNat_neg_natCast, pow_zero, mul_one, zpow_neg,
      zpow_natCast, ← div_eq_mul_inv, div_div]

theorem powLe_iff {den : ℕ} (hden : 0 < den) (e : ℤ) (num : ℕ) :
    powLe e num den = true ↔ (2 : ℚ) ^ e ≤ (num : ℚ) / den := by
  have hpow : (0 : ℚ) < (2 : ℚ) ^ (-e) := zpow_pos two_pos _
  have hscale := div_mul_zpow two_pos num den (-e)
  have hpos : (0 : ℚ) < ((den * Nat.pow 2 e.toNat : ℕ) : ℚ) :=
    Nat.cast_pos.2 (Nat.mul_pos hden (Nat.pow_pos two_pos))
  rw [neg_neg, Nat.cast_ofNat] at hscale
  calc powLe e num den = true ↔ den * Nat.pow 2 e.toNat ≤ num * Nat.pow 2 (-e).toNat := by
        rw [powLe, decide_eq_true_eq]
    _ ↔ 1 ≤ (num : ℚ) / den * (2 : ℚ) ^ (-e) := by
        rw [hscale, one_le_div hpos, Nat.cast_le]
    _ ↔ (2 : ℚ) ^ e ≤ (num : ℚ) / den := by
        rw [zpow_neg, ← div_eq_mul_inv, one_le_div (zpow_pos two_pos e)]

/-! ## The binary logarithm -/

/-- The logarithm of a fraction is the greatest exponent of a power that is not above it. -/
theorem binaryLog_eq {num den : ℕ} (hnum : 0 < num) (hden : 0 < den) :
    binaryLog num den = Int.log 2 ((num : ℚ) / den) := by
  have hden' : (0 : ℚ) < den := Nat.cast_pos.2 hden
  have hpos : (0 : ℚ) < (num : ℚ) / den := div_pos (Nat.cast_pos.2 hnum) hden'
  have hle : ∀ n : ℕ, 0 < n → (2 : ℚ) ^ (n.log2 : ℤ) ≤ n := fun n hn => by
    exact_mod_cast Nat.log2_self_le hn.ne'
  have hlt : ∀ n : ℕ, (n : ℚ) < (2 : ℚ) ^ (n.log2 + 1 : ℤ) := fun n => by
    exact_mod_cast Nat.lt_log2_self
  have hlower : (2 : ℚ) ^ ((num.log2 : ℤ) - den.log2 - 1) ≤ (num : ℚ) / den := by
    rw [sub_sub, zpow_sub₀ two_ne_zero]
    exact div_le_div₀ (Nat.cast_nonneg num) (hle num hnum) hden' (hlt den).le
  have hupper : (num : ℚ) / den < (2 : ℚ) ^ ((num.log2 : ℤ) - den.log2 + 1) := by
    rw [sub_add_eq_add_sub, zpow_sub₀ two_ne_zero]
    exact div_lt_div₀ (hlt num) (hle den hden) (zpow_nonneg zero_le_two _) (zpow_pos two_pos _)
  have hge := (Int.zpow_le_iff_le_log one_lt_two hpos).1 hlower
  have hlt := (Int.lt_zpow_iff_log_lt one_lt_two hpos).1 hupper
  have hpow := (powLe_iff hden ((num.log2 : ℤ) - den.log2) num).trans
    (Int.zpow_le_iff_le_log one_lt_two hpos)
  unfold binaryLog
  dsimp only
  split
  · rename_i h
    have := hpow.1 h
    omega
  · rename_i h
    have := mt hpow.2 h
    omega

/-! ## Rounding a quotient -/

theorem roundDiv_mul {k : ℕ} (hk : 0 < k) (num den : ℕ) :
    roundDiv (num * k) (den * k) = roundDiv num den := by
  unfold roundDiv
  rw [Nat.mul_mod_mul_right, Nat.mul_div_mul_right _ _ hk, ← mul_assoc]
  simp only [Nat.mul_lt_mul_right hk, Nat.mul_left_inj hk.ne']

theorem roundDiv_congr {num den num' den' : ℕ} (hden : 0 < den) (hden' : 0 < den')
    (h : (num : ℚ) / den = num' / den') : roundDiv num den = roundDiv num' den' := by
  have hcross : num * den' = num' * den := by
    rw [div_eq_div_iff (Nat.cast_ne_zero.2 hden.ne') (Nat.cast_ne_zero.2 hden'.ne')] at h
    exact_mod_cast h
  rw [← roundDiv_mul hden', hcross, mul_comm den den', roundDiv_mul hden]

/-- Fractions that stand for one number still do when a power of two scales them. -/
theorem roundDiv_scale {num den num' den' : ℕ} (hden : 0 < den) (hden' : 0 < den')
    (h : (num : ℚ) / den = num' / den') (e : ℤ) :
    roundDiv (num * Nat.pow 2 e.toNat) (den * Nat.pow 2 (-e).toNat)
      = roundDiv (num' * Nat.pow 2 e.toNat) (den' * Nat.pow 2 (-e).toNat) := by
  refine roundDiv_congr (Nat.mul_pos hden (Nat.pow_pos two_pos))
    (Nat.mul_pos hden' (Nat.pow_pos two_pos)) ?_
  rw [← div_mul_zpow two_pos, ← div_mul_zpow two_pos, h]

theorem roundDiv_one (n : ℕ) : roundDiv n 1 = n := by
  unfold roundDiv
  rw [Nat.mod_one, Nat.div_one, if_pos (.inl one_pos)]

namespace Format

variable (F : Format)

/-- The nearest rank is the same for fractions that stand for one number. -/
theorem nearestRank_congr {num den num' den' : ℕ} (hden : 0 < den) (hden' : 0 < den')
    (h : (num : ℚ) / den = num' / den') : F.nearestRank num den = F.nearestRank num' den' := by
  have hcast : ∀ n : ℕ, 0 < n → (n : ℚ) ≠ 0 := fun n hn => Nat.cast_ne_zero.2 hn.ne'
  have hzero : num = 0 ↔ num' = 0 := by
    have hiff : (num : ℚ) / den = 0 ↔ (num' : ℚ) / den' = 0 := by rw [h]
    simpa [hcast den hden, hcast den' hden', hden.ne', hden'.ne'] using hiff
  unfold nearestRank
  by_cases hnum : num = 0
  · rw [if_pos hnum, if_pos (hzero.1 hnum)]
  · have hnum' := mt hzero.2 hnum
    rw [if_neg hnum, if_neg hnum']
    have hunit : F.unitExponent num den = F.unitExponent num' den' := by
      unfold unitExponent
      rw [binaryLog_eq (Nat.pos_of_ne_zero hnum) hden,
        binaryLog_eq (Nat.pos_of_ne_zero hnum') hden', h]
    unfold unboundedRank
    rw [hunit]
    have hround := roundDiv_scale hden hden' h (-F.unitExponent num' den')
    rw [neg_neg] at hround
    dsimp only
    rw [hround]

/-! ## Values that need no rounding -/

theorem leading_pos : 0 < F.leading := Nat.pow_pos two_pos

/-- The significand of a positive rank has full length or the least exponent. -/
theorem significand_lt (r : ℕ) : F.significand r < 2 * F.leading := by
  unfold significand
  have hmod := Nat.mod_lt r F.leading_pos
  split <;> omega

theorem denominator_pos (r : ℕ) : 0 < F.denominator r := Nat.pow_pos two_pos

/-- The value of a rank is its significand, scaled. -/
theorem numerator_div_denominator (r : ℕ) :
    (F.numerator r : ℚ) / F.denominator r = F.significand r * (2 : ℚ) ^ F.exponent r := by
  have hscale := div_mul_zpow two_pos (F.significand r) 1 (F.exponent r)
  rw [Nat.cast_one, div_one, one_mul, Nat.cast_ofNat] at hscale
  exact hscale.symm

theorem significand_pos {r : ℕ} (hr : 0 < r) : 0 < F.significand r := by
  have hleading := F.leading_pos
  unfold significand
  split <;> omega

/-- A value is rounded in units of its own exponent. -/
theorem unitExponent_value {r : ℕ} (hr : 0 < r) :
    F.unitExponent (F.numerator r) (F.denominator r) = F.exponent r := by
  have hsig := F.significand_pos hr
  have hnum : 0 < F.numerator r := Nat.mul_pos hsig (Nat.pow_pos two_pos)
  have hpos : (0 : ℚ) < (F.numerator r : ℚ) / F.denominator r :=
    div_pos (Nat.cast_pos.2 hnum) (Nat.cast_pos.2 (F.denominator_pos r))
  have hscaled : (0 : ℚ) < (2 : ℚ) ^ F.exponent r := zpow_pos two_pos _
  have hleading : (F.leading : ℚ) = (2 : ℚ) ^ ((F.precision - 1 : ℕ) : ℤ) := by
    rw [zpow_natCast]
    exact Nat.cast_pow 2 (F.precision - 1)
  unfold unitExponent
  rw [binaryLog_eq hnum (F.denominator_pos r)]
  by_cases hr' : r < F.leading
  · -- Below full length the exponent is the least one, and the logarithm does not reach past it.
    have hexponent : F.exponent r = F.leastExponent := by
      unfold exponent
      rw [Nat.div_eq_of_lt hr']
      simp
    have hlt : (F.numerator r : ℚ) / F.denominator r
        < (2 : ℚ) ^ (((F.precision - 1 : ℕ) : ℤ) + F.exponent r) := by
      rw [numerator_div_denominator, zpow_add₀ two_ne_zero, ← hleading, significand, if_pos hr']
      exact mul_lt_mul_of_pos_right (Nat.cast_lt.2 hr') hscaled
    have hlog := (Int.lt_zpow_iff_log_lt one_lt_two hpos).1 hlt
    omega
  · have hge : F.leading ≤ F.significand r := by
      unfold significand
      rw [if_neg hr']
      omega
    have hexponent : F.leastExponent ≤ F.exponent r := by
      unfold exponent
      omega
    have hlower : (2 : ℚ) ^ (((F.precision - 1 : ℕ) : ℤ) + F.exponent r)
        ≤ (F.numerator r : ℚ) / F.denominator r := by
      rw [numerator_div_denominator, zpow_add₀ two_ne_zero, ← hleading]
      exact mul_le_mul_of_nonneg_right (Nat.cast_le.2 hge) hscaled.le
    have hupper : (F.numerator r : ℚ) / F.denominator r
        < (2 : ℚ) ^ (((F.precision - 1 : ℕ) : ℤ) + F.exponent r + 1) := by
      rw [numerator_div_denominator, add_right_comm, zpow_add₀ two_ne_zero,
        zpow_add_one₀ two_ne_zero, ← hleading]
      refine mul_lt_mul_of_pos_right ?_ hscaled
      rw [mul_comm]
      exact_mod_cast F.significand_lt r
    have hge' := (Int.zpow_le_iff_le_log one_lt_two hpos).1 hlower
    have hlt' := (Int.lt_zpow_iff_log_lt one_lt_two hpos).1 hupper
    omega

/-- In units of its own exponent a value is its significand. -/
theorem roundDiv_value (r : ℕ) :
    roundDiv (F.numerator r * Nat.pow 2 (-F.exponent r).toNat)
      (F.denominator r * Nat.pow 2 (F.exponent r).toNat) = F.significand r := by
  unfold numerator denominator
  have hpos : 0 < Nat.pow 2 (F.exponent r).toNat * Nat.pow 2 (-F.exponent r).toNat :=
    Nat.mul_pos (Nat.pow_pos two_pos) (Nat.pow_pos two_pos)
  have hcancel := roundDiv_mul hpos (F.significand r) 1
  rw [one_mul, roundDiv_one] at hcancel
  rw [mul_assoc, mul_comm (Nat.pow 2 (-F.exponent r).toNat)]
  exact hcancel

/-- A rank is counted by whole ranges of one exponent, and its significand. -/
theorem rank_eq (r : ℕ) :
    (F.exponent r - F.leastExponent).toNat * F.leading + F.significand r = r := by
  have hexponent : (F.exponent r - F.leastExponent).toNat = r / F.leading - 1 := by
    unfold exponent
    omega
  rw [hexponent]
  unfold significand
  split
  · rename_i h
    rw [Nat.div_eq_of_lt h, Nat.zero_sub, Nat.zero_mul, Nat.zero_add]
  · rename_i h
    have hquot : 1 ≤ r / F.leading := (Nat.one_le_div_iff F.leading_pos).2 (Nat.le_of_not_lt h)
    calc (r / F.leading - 1) * F.leading + (r % F.leading + F.leading)
        = (r / F.leading - 1 + 1) * F.leading + r % F.leading := by ring
      _ = F.leading * (r / F.leading) + r % F.leading := by rw [Nat.sub_add_cancel hquot, mul_comm]
      _ = r := Nat.div_add_mod r F.leading

/-- The rank that a value is rounded to is its own. -/
theorem nearestRank_value (r : ℕ) : F.nearestRank (F.numerator r) (F.denominator r) = r := by
  obtain rfl | hr := Nat.eq_zero_or_pos r
  · have hzero : F.numerator 0 = 0 := by
      unfold numerator significand
      rw [if_pos F.leading_pos, Nat.zero_mul]
    unfold nearestRank
    rw [if_pos hzero]
  · have hnum : 0 < F.numerator r := Nat.mul_pos (F.significand_pos hr) (Nat.pow_pos two_pos)
    unfold nearestRank unboundedRank
    rw [if_neg hnum.ne', F.unitExponent_value hr]
    dsimp only
    rw [F.roundDiv_value, F.rank_eq]

end Format

end GraphqlClient.Floating
