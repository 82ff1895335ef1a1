import GraphqlClient.Floating.Rounding
import GraphqlClient.Text.Numeral

/-!
# Floating-point values from text

A text is an optional sign and either the name of an infinity or of no number, in any case of
letters, or decimal digits with at most one point among or around them and an optional exponent. It
is rounded once; past the greatest finite value it is infinite.
-/

namespace GraphqlClient.Floating

open Text

namespace Format

variable (F : Format)

/-- The value nearest to `digits * 10 ^ e`. A power of ten that settles the result is not computed. -/
def ofDecimal (negative : Bool) (digits : Nat) (e : Int) : Datum F :=
  let k : Int := (Nat.toDigits 10 digits).length + e
  let rounded :=
    if digits = 0 ∨ k < F.leastExponent then F.nearest negative 0 1
    else if Nat.pow 2 (F.exponentBits - 1) < k then none
    else F.nearest negative (digits * Nat.pow 10 e.toNat) (Nat.pow 10 (-e).toNat)
  match rounded with
  | some x => .finite x
  | none => .infinite negative

/-- Digits, possibly with a point among or around them; one digit at least. -/
def readDigits : Reader Char (List Char × List Char) := fun cs =>
  let whole := cs.takeWhile Char.isDigit
  let (fraction, rest) := match cs.dropWhile Char.isDigit with
    | '.' :: cs => (cs.takeWhile Char.isDigit, cs.dropWhile Char.isDigit)
    | cs => ([], cs)
  if whole.isEmpty && fraction.isEmpty then none else some ((whole, fraction), rest)

/-- The value that a text without sign writes. -/
def ofUnsigned? (negative : Bool) (cs : List Char) : Option (Datum F) :=
  let letters := cs.map Char.toLower
  if letters = "inf".toList ∨ letters = "infinity".toList then some (.infinite negative)
  else if letters = "nan".toList then some .nan
  else do
    let ((whole, fraction), exponent) ← Reader.whole (do return (← readDigits, ← Exponent.read)) cs
    let e := (exponent.map Exponent.value).getD 0
    return F.ofDecimal negative (digitsValue (whole ++ fraction)) (e - fraction.length)

end Format

/-- The value that a text writes. -/
def Datum.ofText? (F : Format) (text : String) : Option (Datum F) :=
  match text.toList with
  | '-' :: cs => F.ofUnsigned? true cs
  | '+' :: cs => F.ofUnsigned? false cs
  | cs => F.ofUnsigned? false cs

end GraphqlClient.Floating
