import GraphqlClient.Text.Reader

/-!
# Numbers as written

A numeral is an optional minus sign, a whole part without needless zeros, an optional fraction and an
optional exponent. It keeps its spelling: `Numeral.text` is the text it was read from.
-/

namespace GraphqlClient.Text

/-- The exponent of a numeral. -/
structure Exponent where
  /-- The letter that marks it. -/
  mark : Char
  sign : Option Char
  digits : List Char

/-- A number as written. -/
structure Numeral where
  negative : Bool
  whole : List Char
  /-- The digits behind the point; none of them when there is no point. -/
  fraction : List Char
  exponent : Option Exponent

/-- Text of an integer in decimal. -/
def integerText (n : Int) : List Char :=
  (if n < 0 then ['-'] else []) ++ Nat.toDigits 10 n.natAbs

/-- The number that decimal digits write. -/
abbrev digitsValue (ds : List Char) : Nat := Nat.ofDigitChars 10 ds 0

namespace Exponent

/-- Text of an exponent. -/
def text (e : Exponent) : List Char := e.mark :: e.sign.toList ++ e.digits

/-- The value of an exponent. -/
def value (e : Exponent) : Int :=
  if e.sign = some '-' then -(digitsValue e.digits : Int) else digitsValue e.digits

/-- The sign of an exponent, if it has one. -/
def readSign : Reader Char (Option Char)
  | '-' :: cs => some (some '-', cs)
  | '+' :: cs => some (some '+', cs)
  | cs => some (none, cs)

/-- An exponent; none when its mark is absent. -/
def read : Reader Char (Option Exponent)
  | c :: cs =>
    if c = 'e' ∨ c = 'E' then do
      let (sign, cs) ← readSign cs
      let (digits, cs) ← Reader.takeWhile1 Char.isDigit cs
      return (some ⟨c, sign, digits⟩, cs)
    else some (none, c :: cs)
  | [] => some (none, [])

end Exponent

namespace Numeral

/-- Text of a numeral. -/
def text (n : Numeral) : List Char :=
  (if n.negative then ['-'] else []) ++ n.whole
    ++ (if n.fraction.isEmpty then [] else '.' :: n.fraction)
    ++ (match n.exponent with
      | some e => e.text
      | none => [])

/-- Whether the numeral has neither fraction nor exponent. -/
def isWhole (n : Numeral) : Bool := n.fraction.isEmpty && n.exponent.isNone

/-- A minus sign or nothing. -/
def readMinus : Reader Char Bool
  | '-' :: cs => some (true, cs)
  | cs => some (false, cs)

/-- Whether digits begin with a needless zero. -/
def hasNeedlessZero : List Char → Bool
  | '0' :: _ :: _ => true
  | _ => false

/-- All digits in front, which begin with no needless zero. -/
def readWhole : Reader Char (List Char) := do
  let digits ← Reader.takeWhile1 Char.isDigit
  if hasNeedlessZero digits then failure
  return digits

/-- A point and digits; no digits when the point is absent. -/
def readFraction : Reader Char (List Char)
  | '.' :: cs => Reader.takeWhile1 Char.isDigit cs
  | cs => some ([], cs)

/-- A numeral. -/
def read : Reader Char Numeral := do
  let negative ← readMinus
  let whole ← readWhole
  let fraction ← readFraction
  let exponent ← Exponent.read
  return ⟨negative, whole, fraction, exponent⟩

end Numeral

end GraphqlClient.Text
