import GraphqlClient.Floating.Rounding

/-!
# Shortest decimals

`Format.shortest` is the decimal with the fewest digits that rounds back to a given magnitude. For
each count of digits the candidates are the two neighbours of the value on the grid of that many
digits; the first count with a candidate that reads back wins, and of two candidates the nearer.
-/

namespace GraphqlClient.Floating

/-- The number `digits * 10 ^ exponent`. -/
structure Decimal where
  digits : Nat
  exponent : Int
deriving DecidableEq

namespace Decimal

/-- Numerator of the number. -/
def numerator (d : Decimal) : Nat := d.digits * Nat.pow 10 d.exponent.toNat

/-- Denominator of the number. -/
def denominator (d : Decimal) : Nat := Nat.pow 10 (-d.exponent).toNat

/-- Moves up to `n` trailing zeros of the digits into the exponent. -/
def strip : Nat → Decimal → Decimal
  | 0, d => d
  | n + 1, d =>
    if d.digits % 10 = 0 ∧ d.digits ≠ 0 then strip n ⟨d.digits / 10, d.exponent + 1⟩ else d

/-- The power of ten of the leading digit. -/
def leadingExponent (d : Decimal) : Int :=
  d.exponent + (Nat.toDigits 10 d.digits).length - 1

end Decimal

/-- Which of two equally near candidates is taken. -/
inductive Tie
  | toEven
  | up

/-- Whether the neighbour above is taken first, given the whole part of a number and how twice
what is left compares with one. -/
def aboveFirst (tie : Tie) (whole twiceRest one : Nat) : Bool :=
  match compare twiceRest one, tie with
  | .lt, _ => false
  | .gt, _ => true
  | .eq, .up => true
  | .eq, .toEven => whole % 2 == 1

/-- The least `k` for which the positive fraction `num / den` is below `10 ^ k`. -/
def decimalLog (num den : Nat) : Int :=
  if den ≤ num then (Nat.toDigits 10 (num / den)).length
  else
    let z := (Nat.toDigits 10 (den / num)).length - 1
    if den ≤ num * Nat.pow 10 z then 1 - z else -z

namespace Format

variable (F : Format)

/-- Whether the magnitude nearest to a decimal is that of rank `r`. -/
def readsBack (r : Nat) (d : Decimal) : Bool :=
  F.nearestRank d.numerator d.denominator = r

/-- The two neighbours of `num / den` on the grid `10 ^ e`, the nearer first. -/
def neighbours (tie : Tie) (num den : Nat) (e : Int) : List Decimal :=
  let n := num * Nat.pow 10 (-e).toNat
  let d := den * Nat.pow 10 e.toNat
  let below := Decimal.strip 20 ⟨n / d, e⟩
  let above := Decimal.strip 20 ⟨n / d + 1, e⟩
  if aboveFirst tie (n / d) (2 * (n % d)) d then [above, below] else [below, above]

/-- All digits of the value of rank `r`. -/
def exact (r : Nat) : Decimal :=
  let k := (-F.exponent r).toNat
  ⟨F.numerator r * Nat.pow 5 k, -k⟩

/-- The decimal with the fewest digits that reads back as the value of rank `r`. -/
def shortest (tie : Tie) (r : Nat) : Decimal :=
  if r = 0 then ⟨0, 0⟩
  else
    let num := F.numerator r
    let den := F.denominator r
    let k := decimalLog num den
    let candidates := (List.range 17).flatMap fun (n : Nat) => neighbours tie num den (k - 1 - n)
    match candidates.find? (F.readsBack r) with
    | some d => d
    | none => F.exact r

end Format

end GraphqlClient.Floating
