import GraphqlClient.Floating.Shortest

/-!
# Text of floating-point values

The digits of a value are its shortest decimal; a `Layout` decides how they are written. The two
layouts in use are that of numbers in JSON text and that of numbers put into other text.
-/

namespace GraphqlClient.Floating

/-- How a decimal is laid out. -/
structure Layout where
  /-- Whether a number whose leading digit has this power of ten is written without an exponent. -/
  positional : Int → Bool
  /-- Whether a whole number ends in `.0`. -/
  pointZero : Bool
  /-- Which of two equally near shortest decimals is written. -/
  tie : Tie

namespace Layout

/-- Numbers in JSON text: positional from five places behind the point to sixteen before it,
otherwise with a signed exponent; a whole number keeps a point. -/
def json : Layout := ⟨fun e => -5 ≤ e ∧ e < 16, true, .toEven⟩

/-- Numbers in running text: never an exponent, and no point in a whole number. -/
def plain : Layout := ⟨fun _ => true, false, .up⟩

/-- The digits with the point where the exponent puts it. -/
def positionalText (pointZero : Bool) (d : Decimal) : List Char :=
  let ds := Nat.toDigits 10 d.digits
  let e := d.leadingExponent
  if 0 ≤ d.exponent then
    ds ++ List.replicate d.exponent.toNat '0' ++ if pointZero then ['.', '0'] else []
  else if 0 ≤ e then
    ds.take (e.toNat + 1) ++ '.' :: ds.drop (e.toNat + 1)
  else '0' :: '.' :: List.replicate ((-e).toNat - 1) '0' ++ ds

/-- The digits with the point behind the first one, and the power of ten of that one. -/
def scientificText (d : Decimal) : List Char :=
  let ds := Nat.toDigits 10 d.digits
  let e := d.leadingExponent
  let fraction := ds.drop 1
  ds.take 1 ++ (if fraction.isEmpty then [] else '.' :: fraction)
    ++ 'e' :: (if e < 0 then '-' else '+') :: Nat.toDigits 10 e.natAbs

/-- The text of a decimal. -/
def decimalText (L : Layout) (d : Decimal) : List Char :=
  if L.positional d.leadingExponent then positionalText L.pointZero d else scientificText d

/-- The text of a finite value. -/
def finiteText {F : Format} (L : Layout) (x : Finite F) : List Char :=
  (if x.negative then ['-'] else []) ++ L.decimalText (F.shortest L.tie x.rank)

/-- The text of a value. -/
def text {F : Format} (L : Layout) : Datum F → List Char
  | .finite x => L.finiteText x
  | .infinite negative => if negative then ['-', 'i', 'n', 'f'] else ['i', 'n', 'f']
  | .nan => ['N', 'a', 'N']

end Layout

end GraphqlClient.Floating
