/-!
# Binary floating-point formats

A finite value of a format is a sign and a *rank*, its position among the non-negative values of
the format counted from zero. Ranks order the magnitudes and have no gaps, so every pair of a sign
and a rank below `Format.count` is a value, and only zero is written twice.
-/

namespace GraphqlClient.Floating

/-- A binary interchange format. -/
structure Format where
  /-- Bits of a significand, the leading one included. -/
  precision : Nat
  /-- Bits of the exponent field. -/
  exponentBits : Nat

/-- The 64-bit format. -/
def binary64 : Format := ⟨53, 11⟩

/-- The 32-bit format. -/
def binary32 : Format := ⟨24, 8⟩

namespace Format

variable (F : Format)

/-- The least significand of full length. -/
def leading : Nat := Nat.pow 2 (F.precision - 1)

/-- How many finite magnitudes there are. -/
def count : Nat := (Nat.pow 2 F.exponentBits - 1) * F.leading

/-- The power of two that the least positive value is. -/
def leastExponent : Int := 3 - Nat.pow 2 (F.exponentBits - 1) - F.precision

/-- The whole number `m` with which the value of rank `r` is `m * 2 ^ F.exponent r`. -/
def significand (r : Nat) : Nat :=
  if r < F.leading then r else r % F.leading + F.leading

/-- The power of two that scales the significand of rank `r`. -/
def exponent (r : Nat) : Int :=
  F.leastExponent + (r / F.leading - 1 : Nat)

/-- Numerator of the value of rank `r`. -/
def numerator (r : Nat) : Nat := F.significand r * Nat.pow 2 (F.exponent r).toNat

/-- Denominator of the value of rank `r`. -/
def denominator (r : Nat) : Nat := Nat.pow 2 (-F.exponent r).toNat

/-- The value of rank zero is zero, and no other is. -/
theorem numerator_eq_zero_iff {r : Nat} : F.numerator r = 0 ↔ r = 0 := by
  have hpow : Nat.pow 2 (F.exponent r).toNat ≠ 0 := Nat.ne_of_gt (Nat.pow_pos Nat.two_pos)
  have hleading : 0 < F.leading := Nat.pow_pos Nat.two_pos
  rw [numerator, Nat.mul_eq_zero, or_iff_left hpow, significand]
  split
  case isTrue => rfl
  case isFalse hlong => omega

end Format

/-- A finite value. -/
structure Finite (F : Format) where
  negative : Bool
  rank : Nat
  rank_lt : rank < F.count
deriving DecidableEq

/-- A finite value, an infinity, or no number at all. -/
inductive Datum (F : Format)
  | finite (x : Finite F)
  | infinite (negative : Bool)
  | nan

namespace Finite

variable {F : Format}

/-- The value with the other sign. -/
def neg (x : Finite F) : Finite F := { x with negative := !x.negative }

/-- Equality of values: the two zeros are equal. -/
def same (x y : Finite F) : Bool :=
  x.rank == y.rank && (x.negative == y.negative || x.rank == 0)

theorem same_iff {x y : Finite F} : x.same y = true ↔ x = y ∨ x.rank = 0 ∧ y.rank = 0 := by
  obtain ⟨n, r, h⟩ := x
  obtain ⟨n', r', h'⟩ := y
  simp only [same, Bool.and_eq_true, Bool.or_eq_true, beq_iff_eq, Finite.mk.injEq]
  constructor
  · rintro ⟨rfl, rfl | rfl⟩ <;> simp
  · rintro (⟨rfl, rfl⟩ | ⟨rfl, rfl⟩) <;> simp

end Finite

end GraphqlClient.Floating
