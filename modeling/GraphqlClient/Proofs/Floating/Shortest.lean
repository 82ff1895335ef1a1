import GraphqlClient.Floating.Shortest
import GraphqlClient.Proofs.Floating.Rounding

/-!
# Shortest decimals are read back

Whichever decimal `Format.shortest` settles on, a neighbour on one of the grids or all digits of the
value, it is rounded to the value it was made for (`nearestRank_shortest`). So ranks whose shortest
decimals stand for one number are equal.
-/

namespace GraphqlClient.Floating

namespace Decimal

/-- The number that a decimal stands for. -/
def value (d : Decimal) : ℚ := d.digits * 10 ^ d.exponent

theorem denominator_pos (d : Decimal) : 0 < d.denominator := Nat.pow_pos (by decide)

theorem numerator_div_denominator (d : Decimal) :
    (d.numerator : ℚ) / d.denominator = d.value := by
  have hscale := div_mul_zpow (by decide : 0 < 10) d.digits 1 d.exponent
  rw [Nat.cast_one, div_one, one_mul, Nat.cast_ofNat] at hscale
  exact hscale.symm

end Decimal

namespace Format

variable (F : Format)

/-- All digits of a value stand for it. -/
theorem value_exact (r : ℕ) : (F.exact r).value = (F.numerator r : ℚ) / F.denominator r := by
  have hten : (10 : ℚ) = 2 * 5 := by norm_num
  unfold exact Decimal.value denominator
  simp only [Nat.pow_eq, Nat.cast_mul, Nat.cast_pow, Nat.cast_ofNat, zpow_neg, zpow_natCast]
  rw [hten, mul_pow, mul_inv, div_eq_mul_inv, mul_assoc, mul_comm ((2 : ℚ) ^ _)⁻¹,
    mul_inv_cancel_left₀ (pow_ne_zero _ (by norm_num))]

/-- The shortest decimal is rounded to the value it was made for. -/
theorem nearestRank_shortest (tie : Tie) (r : ℕ) :
    F.nearestRank (F.shortest tie r).numerator (F.shortest tie r).denominator = r := by
  unfold shortest
  split
  · rename_i hr
    rw [hr]
    rfl
  · dsimp only
    split
    · rename_i d hd
      have hback : F.readsBack r d = true := List.find?_some hd
      exact of_decide_eq_true hback
    · -- Without a candidate that reads back, all digits are written.
      rw [F.nearestRank_congr (F.exact r).denominator_pos (F.denominator_pos r)
        ((F.exact r).numerator_div_denominator.trans (F.value_exact r)), F.nearestRank_value]

/-- Ranks are equal when their shortest decimals stand for one number. -/
theorem rank_eq_of_value_shortest_eq {tie tie' : Tie} {r s : ℕ}
    (h : (F.shortest tie r).value = (F.shortest tie' s).value) : r = s := by
  rw [← F.nearestRank_shortest tie r, ← F.nearestRank_shortest tie' s]
  refine F.nearestRank_congr (Decimal.denominator_pos _) (Decimal.denominator_pos _) ?_
  rw [Decimal.numerator_div_denominator, Decimal.numerator_div_denominator, h]

end Format

end GraphqlClient.Floating
