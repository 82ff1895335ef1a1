import GraphqlClient.Floating.Layout
import GraphqlClient.Text.Numeral

/-!
# JSON numbers

A number without point and exponent that fits 64 bits is an integer; every other one is a double.
-/

namespace GraphqlClient.Json

open Floating

/-- A number of a JSON value. -/
inductive Number
  | integer (n : Int)
  | double (x : Finite binary64)
deriving DecidableEq

namespace Number

/-- Equality of numbers: of the same kind and the same value. -/
def same : Number → Number → Bool
  | .integer m, .integer n => m == n
  | .double x, .double y => x.same y
  | _, _ => false

/-- Whether the number is zero. -/
def isZero : Number → Bool
  | .integer n => n == 0
  | .double x => x.rank == 0

/-- Zero is the integer, or a double of either sign whose value is zero. -/
theorem isZero_eq_true_iff {n : Number} :
    n.isZero = true ↔ n = .integer 0 ∨ ∃ x, n = .double x ∧ binary64.numerator x.rank = 0 := by
  cases n with
  | integer n => simp [isZero]
  | double x => simp [isZero, Format.numerator_eq_zero_iff]

/-- The number as a double. -/
def toDouble : Number → Datum binary64
  | .integer n => .ofInt n
  | .double x => .finite x

/-- Text of a number. -/
def text : Number → List Char
  | .integer n => Text.integerText n
  | .double x => Layout.json.finiteText x

end Number

end GraphqlClient.Json
