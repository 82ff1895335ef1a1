import GraphqlClient.Json.Number
import GraphqlClient.Proofs.Floating.Layout

/-!
# The text of a number determines it

A number is written as a numeral that is read back, and known from that numeral: an integer by its
digits, a double by the number that its shortest decimal stands for. So no text goes on with a comma
behind two numbers (`Number.text_append_inj`).
-/

namespace GraphqlClient.Json

open Floating Text

namespace Number

/-- The numeral that a number is written as. -/
def numeral : Number → Numeral
  | .integer n => ⟨n < 0, Nat.toDigits 10 n.natAbs, [], none⟩
  | .double x => Layout.json.numeral x.negative (binary64.shortest Layout.json.tie x.rank)

theorem text_numeral (n : Number) : n.numeral.text = n.text := by
  cases n with
  | integer n => simp [numeral, Numeral.text, text, integerText]
  | double x => exact Layout.json.text_numeral x.negative _

theorem regular_numeral (n : Number) : n.numeral.Regular := by
  cases n with
  | integer n =>
    exact ⟨Nat.toDigits_ne_nil, isDigit_toDigits _, Numeral.hasNeedlessZero_toDigits _, nofun,
      nofun⟩
  | double x => exact Layout.json.regular_numeral x.negative (binary64.canonical_shortest _ x.rank)

/-- A number is known from its numeral. -/
theorem numeral_injective : Function.Injective numeral := by
  have hinteger : ∀ k : ℤ, (numeral (.integer k)).isWhole = true := fun _ => rfl
  have hdouble : ∀ x : Finite binary64, (numeral (.double x)).isWhole = false :=
    fun x => Layout.json.isWhole_numeral x.negative rfl _
  intro m n h
  cases m with
  | integer m =>
    cases n with
    | integer n =>
      obtain ⟨hsign, hdigits, -, -⟩ := Numeral.mk.inj h
      have habs : m.natAbs = n.natAbs := by
        rw [← Nat.ofDigitChars_ten_toDigits (n := m.natAbs), hdigits, Nat.ofDigitChars_ten_toDigits]
      have hneg : m < 0 ↔ n < 0 := decide_eq_decide.1 hsign
      rw [show m = n by omega]
    | double y =>
      have hwhole := hdouble y
      rw [← h, hinteger] at hwhole
      cases hwhole
  | double x =>
    cases n with
    | integer n =>
      have hwhole := hdouble x
      rw [h, hinteger] at hwhole
      cases hwhole
    | double y =>
      obtain ⟨negx, r, hr⟩ := x
      obtain ⟨negy, s, hs⟩ := y
      have hneg := congrArg Numeral.negative h
      have hvalue := congrArg Numeral.magnitude h
      unfold numeral at hneg hvalue
      rw [Layout.negative_numeral, Layout.negative_numeral] at hneg
      rw [Layout.magnitude_numeral, Layout.magnitude_numeral] at hvalue
      obtain rfl := binary64.rank_eq_of_value_shortest_eq hvalue
      obtain rfl : negx = negy := hneg
      rfl

/-- A text that goes on with a comma begins with the text of one number at most. -/
theorem text_append_inj {m n : Number} {a b : List Char}
    (h : m.text ++ ',' :: a = n.text ++ ',' :: b) : m = n ∧ a = b := by
  have hends : ∀ cs, EndsNumeral (',' :: cs) := by
    rintro cs c ⟨⟩
    decide
  have hread := congrArg Numeral.read h
  rw [← text_numeral, ← text_numeral, Numeral.read_text m.regular_numeral (hends a),
    Numeral.read_text n.regular_numeral (hends b), Option.some.injEq, Prod.mk.injEq] at hread
  exact ⟨numeral_injective hread.1, (List.cons.inj hread.2).2⟩

end Number

end GraphqlClient.Json
