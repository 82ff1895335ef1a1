import GraphqlClient.Floating.Layout
import GraphqlClient.Proofs.Floating.Shortest
import GraphqlClient.Proofs.Text.NumeralText

/-!
# Layouts of decimals

Each layout of a decimal is the text of a numeral (`Layout.text_numeral`) that can be read back
(`Layout.regular_numeral`) and stands for the same number (`Layout.magnitude_numeral`).
-/

namespace GraphqlClient

open Text

namespace Text

/-! ## What numerals stand for -/

/-- The value of an exponent that is written with its sign. -/
theorem Exponent.value_signed (e : ℤ) :
    value ⟨'e', some (if e < 0 then '-' else '+'), Nat.toDigits 10 e.natAbs⟩ = e := by
  unfold value digitsValue
  dsimp only
  rw [Nat.ofDigitChars_ten_toDigits]
  by_cases he : e < 0
  · rw [if_pos he, if_pos rfl]
    omega
  · rw [if_neg he, if_neg (by decide)]
    omega

namespace Numeral

/-- The number that a numeral stands for, sign apart. -/
def magnitude (n : Numeral) : ℚ :=
  digitsValue (n.whole ++ n.fraction)
    * 10 ^ ((n.exponent.map Exponent.value).getD 0 - n.fraction.length)

/-- Zeros behind a whole number scale it. -/
theorem magnitude_zeros (negative : Bool) (ds : List Char) (k : ℕ) :
    magnitude ⟨negative, ds ++ List.replicate k '0', [], none⟩ = digitsValue ds * 10 ^ k := by
  have hdigits : digitsValue (ds ++ List.replicate k '0') = digitsValue ds * 10 ^ k := by
    rw [digitsValue, Nat.ofDigitChars_append, Nat.ofDigitChars_replicate_zero, mul_comm]
  unfold magnitude
  dsimp only
  rw [List.append_nil, hdigits]
  simp

/-- A zero behind the point is one more digit, at one place less. -/
theorem magnitude_pointZero (negative : Bool) (whole : List Char) :
    magnitude ⟨negative, whole, ['0'], none⟩ = magnitude ⟨negative, whole, [], none⟩ := by
  have hdigits : digitsValue (whole ++ ['0']) = digitsValue whole * 10 := by
    rw [digitsValue, Nat.ofDigitChars_append, mul_comm]
    exact Nat.ofDigitChars_replicate_zero (n := 1)
  unfold magnitude
  dsimp only
  rw [hdigits, List.append_nil]
  simp

end Numeral

end Text

namespace Floating

/-! ## Layouts as numerals -/

namespace Decimal

/-- Zero is written with the exponent zero. -/
def Canonical (d : Decimal) : Prop := d.digits = 0 → d.exponent = 0

/-- The positional text as a numeral. -/
def positional (pointZero negative : Bool) (d : Decimal) : Numeral :=
  let ds := Nat.toDigits 10 d.digits
  let e := d.leadingExponent
  if 0 ≤ d.exponent then
    ⟨negative, ds ++ List.replicate d.exponent.toNat '0', if pointZero then ['0'] else [], none⟩
  else if 0 ≤ e then ⟨negative, ds.take (e.toNat + 1), ds.drop (e.toNat + 1), none⟩
  else ⟨negative, ['0'], List.replicate ((-e).toNat - 1) '0' ++ ds, none⟩

/-- The text with an exponent as a numeral. -/
def scientific (negative : Bool) (d : Decimal) : Numeral :=
  let ds := Nat.toDigits 10 d.digits
  let e := d.leadingExponent
  ⟨negative, ds.take 1, ds.drop 1,
    some ⟨'e', some (if e < 0 then '-' else '+'), Nat.toDigits 10 e.natAbs⟩⟩

end Decimal

/-- The text of a decimal as a numeral. -/
def Layout.numeral (L : Layout) (negative : Bool) (d : Decimal) : Numeral :=
  if L.positional d.leadingExponent then d.positional L.pointZero negative
  else d.scientific negative

namespace Decimal

theorem length_toDigits_eq (d : Decimal) :
    ((Nat.toDigits 10 d.digits).length : ℤ) = d.leadingExponent + 1 - d.exponent := by
  unfold leadingExponent
  omega

/-- Digits are left behind the point when the leading one is before it and the last one is not. -/
theorem drop_toDigits_ne_nil {d : Decimal} (hexponent : ¬0 ≤ d.exponent)
    (h : 0 ≤ d.leadingExponent) :
    (Nat.toDigits 10 d.digits).drop (d.leadingExponent.toNat + 1) ≠ [] := by
  have hlength := d.length_toDigits_eq
  rw [Ne, List.drop_eq_nil_iff]
  omega

/-! ### Their texts -/

theorem text_positional (pointZero negative : Bool) (d : Decimal) :
    (d.positional pointZero negative).text
      = (if negative then ['-'] else []) ++ Layout.positionalText pointZero d := by
  unfold positional Layout.positionalText
  dsimp only
  split
  · cases pointZero <;> simp [Numeral.text]
  · rename_i hexponent
    split
    · rename_i h
      have hne := drop_toDigits_ne_nil hexponent h
      simp [Numeral.text, hne]
    · simp [Numeral.text, Nat.toDigits_ne_nil]

theorem text_scientific (negative : Bool) (d : Decimal) :
    (d.scientific negative).text
      = (if negative then ['-'] else []) ++ Layout.scientificText d := by
  unfold scientific Layout.scientificText Numeral.text Exponent.text
  simp

/-! ### Their digits -/

theorem regular_positional (pointZero negative : Bool) {d : Decimal} (hd : d.Canonical) :
    (d.positional pointZero negative).Regular := by
  have hdigit := isDigit_toDigits d.digits
  have hzeros : ∀ n, ∀ c ∈ List.replicate n '0', c.isDigit = true := by
    intro n c hc
    rw [List.eq_of_mem_replicate hc]
    decide
  have hne : Nat.toDigits 10 d.digits ≠ [] := Nat.toDigits_ne_nil
  unfold positional
  dsimp only
  split
  · refine ⟨by simp, ?_, ?_, ?_, nofun⟩
    · exact List.forall_mem_append.2 ⟨hdigit, hzeros _⟩
    · obtain hzero | hpos := Nat.eq_zero_or_pos d.digits
      · rw [hzero, hd hzero]
        rfl
      · refine Numeral.hasNeedlessZero_eq_false ?_
        rw [List.head?_append_of_ne_nil _ hne]
        exact head_toDigits hpos
    · cases pointZero <;> simp
  · rename_i hexponent
    split
    · rename_i h
      have hpos : 0 < d.digits := by
        refine Nat.pos_of_ne_zero fun hzero => hexponent ?_
        rw [hd hzero]
      refine ⟨by simp, ?_, ?_, ?_, nofun⟩
      · exact fun c hc => hdigit c (List.mem_of_mem_take hc)
      · refine Numeral.hasNeedlessZero_eq_false ?_
        rw [List.head?_take, if_neg (Nat.succ_ne_zero _)]
        exact head_toDigits hpos
      · exact fun c hc => hdigit c (List.mem_of_mem_drop hc)
    · exact ⟨by simp, by simp, rfl, List.forall_mem_append.2 ⟨hzeros _, hdigit⟩, nofun⟩

theorem regular_scientific (negative : Bool) (d : Decimal) : (d.scientific negative).Regular := by
  have hdigit := isDigit_toDigits d.digits
  obtain ⟨c, cs, hdigits⟩ := List.exists_cons_of_ne_nil
    (Nat.toDigits_ne_nil : Nat.toDigits 10 d.digits ≠ [])
  unfold scientific
  dsimp only
  rw [hdigits] at hdigit ⊢
  obtain ⟨hc, hcs⟩ := List.forall_mem_cons.1 hdigit
  refine ⟨List.cons_ne_nil c [], by simpa using hc, by simp [Numeral.hasNeedlessZero], hcs, ?_⟩
  rintro e ⟨⟩
  refine ⟨.inl rfl, ?_, Nat.toDigits_ne_nil, isDigit_toDigits _⟩
  rintro c ⟨⟩
  split
  · exact .inl rfl
  · exact .inr rfl

/-! ### What they stand for -/

/-- A numeral with the digits of a decimal and its exponent, reckoned from the last digit, stands
for the same number. -/
theorem magnitude_eq_value {n : Numeral} {d : Decimal}
    (hdigits : digitsValue (n.whole ++ n.fraction) = d.digits)
    (hexponent : (n.exponent.map Exponent.value).getD 0 - n.fraction.length = d.exponent) :
    n.magnitude = d.value := by
  unfold Numeral.magnitude value
  rw [hdigits, hexponent]

theorem magnitude_positional (pointZero negative : Bool) (d : Decimal) :
    (d.positional pointZero negative).magnitude = d.value := by
  have hlength := d.length_toDigits_eq
  unfold positional
  dsimp only
  split
  · rename_i hexponent
    obtain ⟨k, hk⟩ := Int.eq_ofNat_of_zero_le hexponent
    have hwhole : Numeral.magnitude ⟨negative, Nat.toDigits 10 d.digits
        ++ List.replicate d.exponent.toNat '0', [], none⟩ = d.value := by
      rw [Numeral.magnitude_zeros, digitsValue, Nat.ofDigitChars_ten_toDigits, value, hk,
        Int.toNat_natCast, zpow_natCast]
    cases pointZero with
    | false => exact hwhole
    | true => exact (Numeral.magnitude_pointZero negative _).trans hwhole
  · rename_i hexponent
    split
    · rename_i h
      refine magnitude_eq_value ?_ ?_
      · dsimp only
        rw [List.take_append_drop, digitsValue, Nat.ofDigitChars_ten_toDigits]
      · dsimp only
        rw [List.length_drop, Option.map_none, Option.getD_none]
        omega
    · refine magnitude_eq_value ?_ ?_
      · dsimp only
        rw [digitsValue, Nat.ofDigitChars_append, Nat.ofDigitChars_append,
          Nat.ofDigitChars_replicate_zero]
        exact Nat.ofDigitChars_ten_toDigits
      · dsimp only
        rw [List.length_append, List.length_replicate, Option.map_none, Option.getD_none]
        omega

theorem magnitude_scientific (negative : Bool) (d : Decimal) :
    (d.scientific negative).magnitude = d.value := by
  have hlength := d.length_toDigits_eq
  have hpos : 0 < (Nat.toDigits 10 d.digits).length := Nat.length_toDigits_pos
  unfold scientific
  refine magnitude_eq_value ?_ ?_
  · dsimp only
    rw [List.take_append_drop, digitsValue, Nat.ofDigitChars_ten_toDigits]
  · dsimp only
    rw [Option.map_some, Option.getD_some, Exponent.value_signed, List.length_drop]
    omega

/-- With a zero for the missing fraction, no text of a decimal is that of an integer. -/
theorem isWhole_positional (negative : Bool) (d : Decimal) :
    (d.positional true negative).isWhole = false := by
  unfold positional Numeral.isWhole
  dsimp only
  split
  · rfl
  · rename_i hexponent
    split
    · rename_i h
      have hne := drop_toDigits_ne_nil hexponent h
      simp [hne]
    · simp [Nat.toDigits_ne_nil]

theorem negative_positional (pointZero negative : Bool) (d : Decimal) :
    (d.positional pointZero negative).negative = negative := by
  unfold positional
  dsimp only
  split
  · rfl
  · split <;> rfl

end Decimal

/-! ## Layouts -/

namespace Layout

variable (L : Layout) (negative : Bool)

/-- The text of a decimal is that of its numeral. -/
theorem text_numeral (d : Decimal) :
    (L.numeral negative d).text = (if negative then ['-'] else []) ++ L.decimalText d := by
  unfold numeral decimalText
  split
  · exact d.text_positional L.pointZero negative
  · exact d.text_scientific negative

theorem regular_numeral {d : Decimal} (hd : d.Canonical) :
    (L.numeral negative d).Regular := by
  unfold numeral
  split
  · exact Decimal.regular_positional L.pointZero negative hd
  · exact d.regular_scientific negative

/-- The numeral of a decimal stands for the same number. -/
theorem magnitude_numeral (d : Decimal) :
    (L.numeral negative d).magnitude = d.value := by
  unfold numeral
  split
  · exact d.magnitude_positional L.pointZero negative
  · exact d.magnitude_scientific negative

theorem negative_numeral (d : Decimal) :
    (L.numeral negative d).negative = negative := by
  unfold numeral
  split
  · exact d.negative_positional L.pointZero negative
  · rfl

theorem isWhole_numeral (hL : L.pointZero = true) (d : Decimal) :
    (L.numeral negative d).isWhole = false := by
  unfold numeral
  rw [hL]
  split
  · exact d.isWhole_positional negative
  · exact Bool.and_false _

end Layout

theorem Format.canonical_shortest (F : Format) (tie : Tie) (r : ℕ) :
    (F.shortest tie r).Canonical := by
  intro hzero
  have hr : r = 0 := by
    rw [← F.nearestRank_shortest tie r]
    unfold Format.nearestRank Decimal.numerator
    rw [hzero, Nat.zero_mul, if_pos rfl]
  rw [hr]
  rfl

end Floating

end GraphqlClient
