import GraphqlClient.Json.Number
import GraphqlClient.Text.Numeral

/-!
# The number that a numeral writes

A numeral without fraction and exponent that fits 64 bits is that integer; minus zero and all
others are doubles. A double is read in two roundings: the leading digits that stay below `2 ^ 64`
are rounded to a double, and that is multiplied or divided by the double nearest to a power of ten.
-/

namespace GraphqlClient.Json

open Floating

/-- Continues a number by digits for as long as it stays below `2 ^ 64`, and gives the digits that
are left. -/
def fill : Nat → List Char → Nat × List Char
  | n, [] => (n, [])
  | n, d :: ds =>
    let m := Nat.ofDigitChars 10 [d] n
    if m < UInt64.size then fill m ds else (n, d :: ds)

/-- Multiplies by the double nearest to `10 ^ e`. -/
def scaleUp (x : Finite binary64) (e : Nat) : Option (Finite binary64) :=
  (binary64.nearest false (Nat.pow 10 e) 1).bind x.mul

/-- Divides by the double nearest to `10 ^ e`. -/
def scaleDown (x : Finite binary64) (e : Nat) : Option (Finite binary64) :=
  (binary64.nearest false (Nat.pow 10 e) 1).bind x.div

/-- Scales by a power of ten; none on overflow. The greatest power in one step is the 308th. -/
def scale (x : Finite binary64) (e : Int) : Option (Finite binary64) :=
  if x.rank = 0 then some x
  else if 308 < e then none
  else if 0 ≤ e then scaleUp x e.toNat
  else if -308 ≤ e then scaleDown x (-e).toNat
  else if -616 ≤ e then (scaleDown x 308).bind (scaleDown · (-e - 308).toNat)
  else binary64.nearest x.negative 0 1

end GraphqlClient.Json

namespace GraphqlClient.Text.Numeral

open Floating Json

/-- The leading digits that stay below `2 ^ 64`, with the power of ten that scales them. Digits
before the point that do not fit count as powers of ten, digits behind it are dropped. -/
def significand (n : Numeral) : Nat × Int :=
  let high := fill 0 n.whole
  let all := fill high.1 n.fraction
  let taken := n.fraction.length - all.2.length
  (all.1, high.2.length - taken + (n.exponent.map Exponent.value).getD 0)

/-- The numeral as a double; none on overflow. -/
def double? (n : Numeral) : Option (Finite binary64) := do
  let x ← binary64.nearest false n.significand.1 1
  let y ← scale x n.significand.2
  return if n.negative then y.neg else y

/-- The integer that the numeral writes, if it writes one that fits 64 bits. -/
def integer? (n : Numeral) : Option Int :=
  let m := digitsValue n.whole
  if !n.isWhole then none
  else if n.negative then
    if 0 < m ∧ m ≤ UInt64.size / 2 then some (-(m : Int)) else none
  else if m < UInt64.size then some m else none

/-- The number that the numeral writes; none on overflow. -/
def number? (n : Numeral) : Option Number :=
  match n.integer? with
  | some m => some (.integer m)
  | none => n.double?.map .double

end GraphqlClient.Text.Numeral
