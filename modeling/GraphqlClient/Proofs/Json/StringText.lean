import GraphqlClient.Json.Tree
import GraphqlClient.Json.Writer
import GraphqlClient.Proofs.Text.SymbolText

/-!
# Strings are read back

The text of a string is read back as that string, whatever follows its closing quote
(`read_flatMap_escape`, `string?_map_escapeSymbol`). So no text begins with the texts of two
strings.
-/

namespace GraphqlClient.Json

open Text

/-- The symbol that a written character is read as. -/
def escapeSymbol (c : Char) : Symbol :=
  if c.toNat < 0x20 ∧ c ≠ '"' ∧ shortEscape? c = none then .unit c.toNat else .plain c

theorem unescape?_of_shortEscape? {c letter : Char} (h : shortEscape? c = some letter) :
    Symbol.unescape? letter = some c ∧ letter ≠ 'u' := by
  unfold shortEscape? at h
  split_ifs at h <;> (cases h; subst c; decide)

theorem hexValue?_hexPair : ∀ code < 0x20, hexValue? ('0' :: '0' :: hexPair code) = some code := by
  decide

/-- A written character is read back. -/
theorem read_escape (c : Char) (cs : List Char) :
    Symbol.read Tree.literal (escape c ++ cs) =
      (Symbol.read Tree.literal cs).map fun r => (escapeSymbol c :: r.1, r.2) := by
  unfold escape escapeSymbol
  by_cases hq : c = '"' ∨ c = '\\'
  · rw [if_pos hq]
    rcases hq with rfl | rfl
    · exact Symbol.read_short rfl (by decide) cs
    · exact Symbol.read_short rfl (by decide) cs
  · obtain ⟨hquote, hslash⟩ := not_or.1 hq
    rw [if_neg hq]
    by_cases hc : c.toNat < 0x20
    · rw [if_pos hc]
      cases hs : shortEscape? c with
      | some letter =>
        obtain ⟨hletter, hu⟩ := unescape?_of_shortEscape? hs
        simpa using Symbol.read_short hletter hu cs
      | none =>
        simpa [hc, hquote, hexPair] using
          Symbol.read_unit (hexValue?_hexPair c.toNat hc) (by decide) cs
    · have hraw : Tree.literal.raw c = true := decide_eq_true (Nat.le_of_not_lt hc)
      simpa [hc] using Symbol.read_plain hquote hslash hraw cs

/-- What is written between the quotes of a string is read up to the closing one. -/
theorem read_flatMap_escape (cs rest : List Char) :
    Symbol.read Tree.literal (cs.flatMap escape ++ '"' :: rest) =
      some (cs.map escapeSymbol, rest) :=
  Symbol.read_flatMap read_escape cs rest

theorem escapeSymbol_eq (c : Char) :
    escapeSymbol c = .plain c ∨ c.toNat < 0x20 ∧ escapeSymbol c = .unit c.toNat := by
  unfold escapeSymbol
  split_ifs with h
  · exact .inr ⟨h.1, rfl⟩
  · exact .inl rfl

/-- The symbols of a written string stand for that string. -/
theorem string?_map_escapeSymbol (s : String) :
    Symbol.string? (s.toList.map escapeSymbol) = some s := by
  rw [Symbol.string?, Symbol.characters?_map escapeSymbol_eq, Option.map_some,
    String.ofList_toList]

/-- A text begins with the text of one string at most. -/
theorem stringText_append_inj {s t : String} {a b : List Char}
    (h : stringText s ++ a = stringText t ++ b) : s = t ∧ a = b := by
  simp only [stringText, List.cons_append, List.append_assoc, List.nil_append, List.cons.injEq,
    true_and] at h
  have hread := congrArg (Symbol.read Tree.literal) h
  rw [read_flatMap_escape, read_flatMap_escape, Option.some.injEq, Prod.mk.injEq] at hread
  have hstring := congrArg Symbol.string? hread.1
  rw [string?_map_escapeSymbol, string?_map_escapeSymbol, Option.some.injEq] at hstring
  exact ⟨hstring, hread.2⟩

end GraphqlClient.Json
