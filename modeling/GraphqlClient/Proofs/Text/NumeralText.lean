import GraphqlClient.Proofs.Reader
import GraphqlClient.Text.Numeral
import Mathlib.Data.List.Basic

/-!
# Numerals are read back

The text of a numeral is read back as that numeral, when its parts are digits and what follows
cannot go on with it (`Numeral.read_text`). What is read is such a numeral
(`Numeral.regular_of_read`), and its text is what it was read from (`Numeral.append_of_read`).
-/

namespace GraphqlClient

namespace Text

/-! ## What follows -/

/-- What follows a numeral cannot go on with it. -/
def EndsNumeral (cs : List Char) : Prop :=
  ∀ c ∈ cs.head?, c.isDigit = false ∧ c ≠ '.' ∧ c ≠ 'e' ∧ c ≠ 'E'

/-- No digit stands in front. -/
def NoDigitAhead (cs : List Char) : Prop := ∀ c ∈ cs.head?, c.isDigit = false

@[simp] theorem noDigitAhead_cons (c : Char) (cs : List Char) :
    NoDigitAhead (c :: cs) ↔ c.isDigit = false := by
  simp [NoDigitAhead]

theorem EndsNumeral.noDigitAhead {cs : List Char} (h : EndsNumeral cs) : NoDigitAhead cs :=
  fun c hc => (h c hc).1

/-! ## Digits -/

/-- Digits are taken up to what is no digit. -/
theorem takeWhile1_isDigit {ds cs : List Char} (hne : ds ≠ []) (hds : ∀ c ∈ ds, c.isDigit = true)
    (hcs : NoDigitAhead cs) : Reader.takeWhile1 Char.isDigit (ds ++ cs) = some (ds, cs) := by
  have hnone : cs.takeWhile Char.isDigit = [] ∧ cs.dropWhile Char.isDigit = cs := by
    cases cs with
    | nil => exact ⟨rfl, rfl⟩
    | cons c cs => simp [(noDigitAhead_cons c cs).1 hcs]
  unfold Reader.takeWhile1
  rw [List.takeWhile_append_of_pos hds, List.dropWhile_append_of_pos hds, hnone.1, hnone.2,
    List.append_nil, if_neg (by simpa using hne)]

/-! ## Decimal digits of a number -/

theorem isDigit_toDigits (n : ℕ) : ∀ c ∈ Nat.toDigits 10 n, c.isDigit = true :=
  fun _ hc => Nat.isDigit_of_mem_toDigits (by decide) (Nat.le_refl 10) hc

/-- The digits of a positive number begin with no zero. -/
theorem head_toDigits {n : ℕ} (hn : 0 < n) : ∀ c ∈ (Nat.toDigits 10 n).head?, c ≠ '0' := by
  induction n using Nat.strongRecOn with
  | ind n ih =>
    by_cases hlt : n < 10
    · rw [Nat.toDigits_of_lt_base hlt]
      intro c hc
      obtain rfl : n.digitChar = c := Option.some.inj hc
      have hall : ∀ m < 10, 0 < m → m.digitChar ≠ '0' := by decide
      exact hall n hlt hn
    · have hle : 10 ≤ n := Nat.le_of_not_lt hlt
      rw [Nat.toDigits_of_base_le (by decide) hle,
        List.head?_append_of_ne_nil _ Nat.toDigits_ne_nil]
      exact ih (n / 10) (Nat.div_lt_self hn (by decide)) (Nat.div_pos hle (by decide))

/-! ## Exponents -/

/-- The parts of an exponent are a letter that marks one, a sign or none, and digits. -/
structure Exponent.Regular (e : Exponent) : Prop where
  mark : e.mark = 'e' ∨ e.mark = 'E'
  sign : ∀ c ∈ e.sign, c = '-' ∨ c = '+'
  digits_ne_nil : e.digits ≠ []
  digits : ∀ c ∈ e.digits, c.isDigit = true

namespace Exponent

/-- Text of an optional exponent. -/
def optionText (e : Option Exponent) : List Char :=
  match e with
  | some e => e.text
  | none => []

/-- A sign is read back, or its absence. -/
theorem readSign_digits {sign : Option Char} (hsign : ∀ c ∈ sign, c = '-' ∨ c = '+')
    {ds : List Char} (hne : ds ≠ []) (hds : ∀ c ∈ ds, c.isDigit = true) (cs : List Char) :
    readSign (sign.toList ++ (ds ++ cs)) = some (sign, ds ++ cs) := by
  cases sign with
  | some c => rcases hsign c rfl with rfl | rfl <;> rfl
  | none =>
    obtain ⟨d, ds, rfl⟩ := List.exists_cons_of_ne_nil hne
    have hd := hds d List.mem_cons_self
    show readSign (d :: (ds ++ cs)) = some (none, d :: (ds ++ cs))
    unfold readSign
    split
    · rename_i heq
      rw [(List.cons.inj heq).1] at hd
      exact absurd hd (by decide)
    · rename_i heq
      rw [(List.cons.inj heq).1] at hd
      exact absurd hd (by decide)
    · rfl

theorem read_text {e : Exponent} (he : e.Regular) {cs : List Char} (hcs : NoDigitAhead cs) :
    read (e.text ++ cs) = some (some e, cs) := by
  have htake := takeWhile1_isDigit he.digits_ne_nil he.digits hcs
  have hsign := readSign_digits he.sign he.digits_ne_nil he.digits cs
  show read (e.mark :: (e.sign.toList ++ e.digits) ++ cs) = _
  rw [List.cons_append, List.append_assoc, read, if_pos he.mark, hsign]
  show (Reader.takeWhile1 Char.isDigit (e.digits ++ cs)).bind _ = _
  rw [htake]
  rfl

theorem read_optionText {e : Option Exponent} (he : ∀ x ∈ e, x.Regular) {cs : List Char}
    (hcs : EndsNumeral cs) : read (optionText e ++ cs) = some (e, cs) := by
  cases e with
  | some e => exact read_text (he e rfl) hcs.noDigitAhead
  | none =>
    show read cs = some (none, cs)
    cases cs with
    | nil => rfl
    | cons c cs =>
      obtain ⟨-, -, he, hE⟩ := hcs c rfl
      simp [read, he, hE]

/-- Neither an exponent nor what follows it goes on with a fraction. -/
theorem optionText_append {e : Option Exponent} (he : ∀ x ∈ e, x.Regular) {cs : List Char}
    (hcs : EndsNumeral cs) :
    ∀ c ∈ (optionText e ++ cs).head?, c.isDigit = false ∧ c ≠ '.' := by
  cases e with
  | none =>
    intro c hc
    obtain ⟨hdigit, hpoint, -⟩ := hcs c hc
    exact ⟨hdigit, hpoint⟩
  | some e =>
    intro c hc
    obtain rfl : e.mark = c := Option.some.inj hc
    rcases (he e rfl).mark with hmark | hmark <;> (rw [hmark]; decide)

end Exponent

/-! ## Numerals -/

/-- The parts of a numeral are digits, and its whole part has no needless zero. -/
structure Numeral.Regular (n : Numeral) : Prop where
  whole_ne_nil : n.whole ≠ []
  whole : ∀ c ∈ n.whole, c.isDigit = true
  noNeedlessZero : Numeral.hasNeedlessZero n.whole = false
  fraction : ∀ c ∈ n.fraction, c.isDigit = true
  exponent : ∀ e ∈ n.exponent, e.Regular

namespace Numeral

theorem readMinus_digits {ds cs : List Char} (hne : ds ≠ []) (hds : ∀ c ∈ ds, c.isDigit = true)
    (negative : Bool) :
    readMinus ((if negative then ['-'] else []) ++ (ds ++ cs)) = some (negative, ds ++ cs) := by
  cases negative with
  | true => rfl
  | false =>
    obtain ⟨d, ds, rfl⟩ := List.exists_cons_of_ne_nil hne
    have hd : d ≠ '-' := by
      rintro rfl
      exact absurd (hds '-' List.mem_cons_self) (by decide)
    show readMinus (d :: (ds ++ cs)) = some (false, d :: (ds ++ cs))
    unfold readMinus
    split
    · rename_i heq
      exact absurd (List.cons.inj heq).1 hd
    · rfl

theorem readWhole_digits {ds cs : List Char} (hne : ds ≠ []) (hds : ∀ c ∈ ds, c.isDigit = true)
    (hzero : hasNeedlessZero ds = false) (hcs : NoDigitAhead cs) :
    readWhole (ds ++ cs) = some (ds, cs) := by
  unfold readWhole
  rw [Reader.bind_eq (takeWhile1_isDigit hne hds hcs), hzero]
  rfl

theorem readFraction_digits {ds cs : List Char} (hds : ∀ c ∈ ds, c.isDigit = true)
    (hcs : ∀ c ∈ cs.head?, c.isDigit = false ∧ c ≠ '.') :
    readFraction ((if ds.isEmpty then [] else '.' :: ds) ++ cs) = some (ds, cs) := by
  cases ds with
  | cons d ds => exact takeWhile1_isDigit (List.cons_ne_nil d ds) hds fun c hc => (hcs c hc).1
  | nil =>
    show readFraction cs = some ([], cs)
    unfold readFraction
    split
    · exact absurd rfl (hcs '.' rfl).2
    · rfl

theorem hasNeedlessZero_eq_false {ds : List Char} (h : ∀ c ∈ ds.head?, c ≠ '0') :
    hasNeedlessZero ds = false := by
  unfold hasNeedlessZero
  split
  · exact absurd rfl (h '0' rfl)
  · rfl

theorem hasNeedlessZero_toDigits (n : ℕ) : hasNeedlessZero (Nat.toDigits 10 n) = false := by
  obtain rfl | hn := Nat.eq_zero_or_pos n
  · rfl
  · exact hasNeedlessZero_eq_false (head_toDigits hn)

/-- A numeral is read back from its text. -/
theorem read_text {n : Numeral} (hn : n.Regular) {cs : List Char} (hcs : EndsNumeral cs) :
    read (n.text ++ cs) = some (n, cs) := by
  have htail := Exponent.optionText_append hn.exponent hcs
  have hfraction := readFraction_digits hn.fraction htail
  have hexponent := Exponent.read_optionText hn.exponent hcs
  have htext : n.text ++ cs = (if n.negative then ['-'] else [])
      ++ (n.whole ++ ((if n.fraction.isEmpty then [] else '.' :: n.fraction)
        ++ (Exponent.optionText n.exponent ++ cs))) := by
    cases he : n.exponent with
    | none => simp only [text, he, Exponent.optionText, List.append_assoc]
    | some e => simp only [text, he, Exponent.optionText, List.append_assoc]
  have hahead : NoDigitAhead ((if n.fraction.isEmpty then [] else '.' :: n.fraction)
      ++ (Exponent.optionText n.exponent ++ cs)) := by
    split
    · exact fun c hc => (htail c hc).1
    · simp [NoDigitAhead]
  have hwhole := readWhole_digits hn.whole_ne_nil hn.whole hn.noNeedlessZero hahead
  unfold read
  rw [htext, Reader.bind_eq (readMinus_digits hn.whole_ne_nil hn.whole n.negative),
    Reader.bind_eq hwhole, Reader.bind_eq hfraction, Reader.bind_eq hexponent]
  rfl

end Numeral

/-! ## What is read is regular -/

theorem mem_takeWhile1 {accepts : Char → Bool} {cs ds cs' : List Char}
    (h : Reader.takeWhile1 accepts cs = some (ds, cs')) :
    ds ≠ [] ∧ ∀ c ∈ ds, accepts c = true := by
  unfold Reader.takeWhile1 at h
  split at h
  · cases h
  · rename_i hne
    cases h
    exact ⟨by simpa using hne, List.all_eq_true.1 List.all_takeWhile⟩

theorem Exponent.regular_of_read {cs cs' : List Char} {e : Option Exponent}
    (h : read cs = some (e, cs')) : ∀ x ∈ e, x.Regular := by
  unfold read at h
  split at h
  · rename_i c cs
    split at h
    · rename_i hmark
      obtain ⟨⟨sign, cs⟩, hsign, h⟩ := Option.bind_eq_some_iff.1 h
      obtain ⟨⟨digits, cs⟩, hdigits, ⟨⟩⟩ := Option.bind_eq_some_iff.1 h
      obtain ⟨hne, hall⟩ := mem_takeWhile1 hdigits
      rintro x ⟨⟩
      refine ⟨hmark, ?_, hne, hall⟩
      unfold readSign at hsign
      split at hsign <;> cases hsign <;> simp
    · cases h
      exact nofun
  · cases h
    exact nofun

theorem Numeral.regular_of_read {cs cs' : List Char} {n : Numeral}
    (h : read cs = some (n, cs')) : n.Regular := by
  unfold read at h
  obtain ⟨negative, cs₁, -, h⟩ := Reader.bind_eq_some h
  obtain ⟨whole, cs₂, hwhole, h⟩ := Reader.bind_eq_some h
  obtain ⟨fraction, cs₃, hfraction, h⟩ := Reader.bind_eq_some h
  obtain ⟨exponent, cs₄, hexponent, h⟩ := Reader.bind_eq_some h
  cases h
  unfold readWhole at hwhole
  obtain ⟨digits, cs₅, hdigits, hwhole⟩ := Reader.bind_eq_some hwhole
  obtain ⟨hne, hall⟩ := mem_takeWhile1 hdigits
  have hzero : hasNeedlessZero digits = false ∧ digits = whole := by
    cases hz : hasNeedlessZero digits with
    | true =>
      rw [hz] at hwhole
      cases hwhole
    | false =>
      rw [hz] at hwhole
      cases hwhole
      exact ⟨rfl, rfl⟩
  obtain ⟨hzero, rfl⟩ := hzero
  refine ⟨hne, hall, hzero, ?_, Exponent.regular_of_read hexponent⟩
  unfold readFraction at hfraction
  split at hfraction
  · exact (mem_takeWhile1 hfraction).2
  · cases hfraction
    exact nofun

/-! ## What is read stands in front -/

theorem append_of_takeWhile1 {accepts : Char → Bool} {cs ds cs' : List Char}
    (h : Reader.takeWhile1 accepts cs = some (ds, cs')) : ds ++ cs' = cs := by
  unfold Reader.takeWhile1 at h
  split at h
  · cases h
  · cases h
    exact List.takeWhile_append_dropWhile

theorem Exponent.append_of_readSign {cs cs' : List Char} {sign : Option Char}
    (h : readSign cs = some (sign, cs')) : sign.toList ++ cs' = cs := by
  unfold readSign at h
  split at h <;> (cases h; rfl)

theorem Exponent.append_of_read {cs cs' : List Char} {e : Option Exponent}
    (h : read cs = some (e, cs')) : optionText e ++ cs' = cs := by
  unfold read at h
  split at h
  · split at h
    · obtain ⟨⟨sign, cs₁⟩, hsign, h⟩ := Option.bind_eq_some_iff.1 h
      obtain ⟨⟨digits, cs₂⟩, hdigits, ⟨⟩⟩ := Option.bind_eq_some_iff.1 h
      have hdigits := append_of_takeWhile1 hdigits
      rw [← append_of_readSign hsign, ← hdigits]
      simp [optionText, text]
    · cases h
      rfl
  · cases h
    rfl

/-- A numeral keeps its spelling: it is read from its text. -/
theorem Numeral.append_of_read {cs cs' : List Char} {n : Numeral}
    (h : read cs = some (n, cs')) : n.text ++ cs' = cs := by
  unfold read at h
  obtain ⟨negative, cs₁, hminus, h⟩ := Reader.bind_eq_some h
  obtain ⟨whole, cs₂, hwhole, h⟩ := Reader.bind_eq_some h
  obtain ⟨fraction, cs₃, hfraction, h⟩ := Reader.bind_eq_some h
  obtain ⟨exponent, cs₄, hexponent, h⟩ := Reader.bind_eq_some h
  cases h
  have hminus : (if negative then ['-'] else []) ++ cs₁ = cs := by
    unfold readMinus at hminus
    split at hminus <;> (cases hminus; rfl)
  have hwhole : whole ++ cs₂ = cs₁ := by
    obtain ⟨digits, cs₅, hdigits, hwhole⟩ := Reader.bind_eq_some hwhole
    have hdigits := append_of_takeWhile1 hdigits
    split at hwhole <;> cases hwhole
    exact hdigits
  have hfraction : (if fraction.isEmpty then [] else '.' :: fraction) ++ cs₃ = cs₂ := by
    unfold readFraction at hfraction
    split at hfraction
    · obtain ⟨hne, -⟩ := mem_takeWhile1 hfraction
      have happend := append_of_takeWhile1 hfraction
      rw [if_neg (by simpa using hne), List.cons_append, happend]
    · cases hfraction
      rfl
  have hexponent := Exponent.append_of_read hexponent
  rw [← hminus, ← hwhole, ← hfraction, ← hexponent]
  cases exponent <;> simp [text, Exponent.optionText]

end Text

end GraphqlClient
