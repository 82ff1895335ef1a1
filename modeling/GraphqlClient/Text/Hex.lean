/-!
# Hexadecimal digits
-/

namespace GraphqlClient.Text

/-- The value of a hexadecimal digit of either case. -/
def hexDigit? (c : Char) : Option Nat :=
  if '0' ≤ c ∧ c ≤ '9' then some (c.toNat - 48)
  else if 'a' ≤ c ∧ c ≤ 'f' then some (c.toNat - 87)
  else if 'A' ≤ c ∧ c ≤ 'F' then some (c.toNat - 55)
  else none

/-- The number that hexadecimal digits write, continuing the number before them. -/
def hexValueFrom? : Nat → List Char → Option Nat
  | n, [] => some n
  | n, c :: cs => (hexDigit? c).bind fun d => hexValueFrom? (16 * n + d) cs

/-- The number that a nonempty list of hexadecimal digits writes. -/
def hexValue? (cs : List Char) : Option Nat :=
  if cs.isEmpty then none else hexValueFrom? 0 cs

/-- The two lower-case digits of a number below 256. -/
def hexPair (n : Nat) : List Char := [(n / 16).digitChar, (n % 16).digitChar]

@[simp] theorem length_hexPair (n : Nat) : (hexPair n).length = 2 := rfl

/-- The lower-case digits of bytes, two for each. -/
def hex (bytes : List UInt8) : List Char := bytes.flatMap fun b => hexPair b.toNat

@[simp] theorem length_hex (bytes : List UInt8) : (hex bytes).length = 2 * bytes.length := by
  induction bytes with
  | nil => rfl
  | cons b bs ih =>
    simp only [hex, List.flatMap_cons, List.length_append, length_hexPair, List.length_cons] at ih ⊢
    omega

end GraphqlClient.Text
