import GraphqlClient.Text.Symbol
import Mathlib.Data.List.Basic

/-!
# Literals are read back

How a literal is read one written character at a time, for every kind of literal, and what the
symbols that are read stand for. Characters below a blank may be written by their numbers; no such
number is half of a pair (`characters?_map`).
-/

namespace GraphqlClient.Text

theorem scalar?_toNat (c : Char) : scalar? c.toNat = some c := by
  have h : c.toNat.isValidChar := c.valid
  have hc := Char.ofNat_toNat c
  rw [Char.ofNat, dif_pos h] at hc
  rw [scalar?, dif_pos h, hc]

namespace Symbol

variable {L : Literal}

/-! ## Reading one character -/

theorem read_short {letter c : Char} (h : unescape? letter = some c) (hu : letter ≠ 'u')
    (cs : List Char) :
    read L ('\\' :: letter :: cs) = (read L cs).map fun r => (.plain c :: r.1, r.2) := by
  rw [read]
  · rw [h]
    cases read L cs <;> rfl
  · rintro cs rfl
    exact absurd rfl hu
  · rintro a b c d cs rfl
    exact absurd rfl hu

theorem read_unit {a b c d : Char} {code : Nat} (h : hexValue? [a, b, c, d] = some code)
    (ha : a ≠ '{') (cs : List Char) :
    read L ('\\' :: 'u' :: a :: b :: c :: d :: cs)
      = (read L cs).map fun r => (.unit code :: r.1, r.2) := by
  rw [read]
  · rw [h]
    cases read L cs <;> rfl
  · exact ha

theorem read_plain {c : Char} (hquote : c ≠ '"') (hslash : c ≠ '\\') (hraw : L.raw c = true)
    (cs : List Char) :
    read L (c :: cs) = (read L cs).map fun r => (.plain c :: r.1, r.2) := by
  rw [read]
  · simp [hslash, hraw]
  · exact hquote
  all_goals
    intros
    simp_all

/-! ## Reading a literal -/

/-- When every written character is read back, so is a literal, up to its closing quote. -/
theorem read_flatMap {escape : Char → List Char} {symbol : Char → Symbol}
    (h : ∀ c cs, read L (escape c ++ cs) = (read L cs).map fun r => (symbol c :: r.1, r.2))
    (cs rest : List Char) :
    read L (cs.flatMap escape ++ '"' :: rest) = some (cs.map symbol, rest) := by
  induction cs with
  | nil => rw [List.flatMap_nil, List.nil_append, read, List.map_nil]
  | cons c cs ih => rw [List.flatMap_cons, List.append_assoc, h, ih]; rfl

theorem characters?_unit_cons {code : Nat} (h : code < 0x20) (symbols : List Symbol) :
    characters? (.unit code :: symbols) = do
      let c ← scalar? code
      let cs ← characters? symbols
      return c :: cs := by
  have hhigh : isHighSurrogate code = false := by
    simp only [isHighSurrogate, Bool.and_eq_false_iff, decide_eq_false_iff_not]
    omega
  cases symbols with
  | nil => simp [characters?]
  | cons symbol symbols =>
    cases symbol with
    | plain c => simp [characters?]
    | unit low => simp [characters?, hhigh]

/-- Symbols that are characters themselves, or the numbers of characters below a blank, stand for
these characters. -/
theorem characters?_map {symbol : Char → Symbol}
    (h : ∀ c, symbol c = .plain c ∨ c.toNat < 0x20 ∧ symbol c = .unit c.toNat) (cs : List Char) :
    characters? (cs.map symbol) = some cs := by
  induction cs with
  | nil => rfl
  | cons c cs ih =>
    rw [List.map_cons]
    rcases h c with hc | ⟨hlt, hc⟩
    · rw [hc, characters?, ih]
      rfl
    · rw [hc, characters?_unit_cons hlt, scalar?_toNat, ih]
      rfl

end Symbol

end GraphqlClient.Text
