import GraphqlClient.Floating.Format

/-!
# Rounding to a format

`Format.nearest` rounds a fraction to the nearest finite magnitude, a half to the even one. The
significand is the quotient in units of the power of two that gives it full length, rounded once.
A significand that rounding carries to the next power of two needs no case of its own: its rank
is the rank of that power.
-/

namespace GraphqlClient.Floating

/-- The quotient rounded to the nearest whole number, a half to the even one. -/
def roundDiv (num den : Nat) : Nat :=
  if 2 * (num % den) < den ∨ 2 * (num % den) = den ∧ num / den % 2 = 0 then num / den
  else num / den + 1

/-- Whether `2 ^ e` is at most `num / den`. -/
def powLe (e : Int) (num den : Nat) : Bool :=
  den * Nat.pow 2 e.toNat ≤ num * Nat.pow 2 (-e).toNat

/-- The greatest `e` for which `2 ^ e` is at most `num / den`, for a positive fraction. -/
def binaryLog (num den : Nat) : Int :=
  let e : Int := num.log2 - den.log2
  if powLe e num den then e else e - 1

namespace Format

variable (F : Format)

/-- The power of two in whose units a positive fraction is rounded. -/
def unitExponent (num den : Nat) : Int :=
  max F.leastExponent (binaryLog num den - (F.precision - 1 : Nat))

/-- The rank of the magnitude nearest to a positive fraction, were exponents unbounded above. -/
def unboundedRank (num den : Nat) : Nat :=
  let e := F.unitExponent num den
  (e - F.leastExponent).toNat * F.leading
    + roundDiv (num * Nat.pow 2 (-e).toNat) (den * Nat.pow 2 e.toNat)

/-- The rank of the magnitude nearest to `num / den`. -/
def nearestRank (num den : Nat) : Nat :=
  if num = 0 then 0 else F.unboundedRank num den

/-- The value nearest to `num / den` with the given sign, none when its magnitude is past the
greatest finite one. -/
def nearest (negative : Bool) (num den : Nat) : Option (Finite F) :=
  if h : F.nearestRank num den < F.count then some ⟨negative, F.nearestRank num den, h⟩ else none

end Format

namespace Finite

variable {F : Format}

/-- The product, rounded; none on overflow. -/
def mul (x y : Finite F) : Option (Finite F) :=
  F.nearest (x.negative != y.negative) (F.numerator x.rank * F.numerator y.rank)
    (F.denominator x.rank * F.denominator y.rank)

/-- The quotient, rounded; none on overflow. The divisor is not zero. -/
def div (x y : Finite F) : Option (Finite F) :=
  F.nearest (x.negative != y.negative) (F.numerator x.rank * F.denominator y.rank)
    (F.denominator x.rank * F.numerator y.rank)

end Finite

/-- The whole number rounded to a format. -/
def Datum.ofInt {F : Format} (n : Int) : Datum F :=
  match F.nearest (n < 0) n.natAbs 1 with
  | some x => .finite x
  | none => .infinite (n < 0)

end GraphqlClient.Floating
