import GraphqlClient.Proofs.Text.SymbolText
import GraphqlClient.Syntax.Scan

/-!
# Strings of documents are read back

The text of a string is read back as that string (`readString_text`), unless a quote follows it: the
quotes of an empty string would then open a block string.
-/

namespace GraphqlClient.Syntax

open Text

/-- The symbol that a written character is read as. -/
def escapeSymbol (c : Char) : Symbol :=
  if c.toNat < 0x20 ∧ c ≠ '\x08' ∧ c ≠ '\n' ∧ c ≠ '\x0c' ∧ c ≠ '\r' ∧ c ≠ '\t' then
    .unit c.toNat
  else .plain c

theorem escapeSymbol_eq (c : Char) :
    escapeSymbol c = .plain c ∨ c.toNat < 0x20 ∧ escapeSymbol c = .unit c.toNat := by
  unfold escapeSymbol
  split_ifs with h
  · exact .inr ⟨h.1, rfl⟩
  · exact .inl rfl

theorem hexValue?_map_toUpper :
    ∀ code < 0x20, hexValue? ('0' :: '0' :: (hexPair code).map Char.toUpper) = some code := by
  decide

/-- A written character is read back. -/
theorem read_escape (c : Char) (cs : List Char) :
    Symbol.read literal (escape c ++ cs)
      = (Symbol.read literal cs).map fun r => (escapeSymbol c :: r.1, r.2) := by
  unfold escape escapeSymbol
  by_cases hq : c = '"' ∨ c = '\\'
  · rw [if_pos hq]
    rcases hq with rfl | rfl
    · exact Symbol.read_short rfl (by decide) cs
    · exact Symbol.read_short rfl (by decide) cs
  obtain ⟨hquote, hslash⟩ := not_or.1 hq
  rw [if_neg hq]
  by_cases hb : c = '\x08'
  · subst hb
    exact Symbol.read_short rfl (by decide) cs
  by_cases hn : c = '\n'
  · subst hn
    exact Symbol.read_short rfl (by decide) cs
  by_cases hf : c = '\x0c'
  · subst hf
    exact Symbol.read_short rfl (by decide) cs
  by_cases hr : c = '\r'
  · subst hr
    exact Symbol.read_short rfl (by decide) cs
  rw [if_neg hb, if_neg hn, if_neg hf, if_neg hr]
  by_cases hc : c.toNat < 0x20 ∧ c ≠ '\t'
  · rw [if_pos hc, if_pos ⟨hc.1, hb, hn, hf, hr, hc.2⟩]
    exact Symbol.read_unit (hexValue?_map_toUpper c.toNat hc.1) (by decide) cs
  · have hplain : ¬(c.toNat < 0x20 ∧ c ≠ '\x08' ∧ c ≠ '\n' ∧ c ≠ '\x0c' ∧ c ≠ '\r' ∧ c ≠ '\t') :=
      fun h => hc ⟨h.1, h.2.2.2.2.2⟩
    have hraw : literal.raw c = true := by simp [literal, isLineEnd, hn, hr]
    rw [if_neg hc, if_neg hplain]
    exact Symbol.read_plain hquote hslash hraw cs

/-- A written character begins neither with a quote nor with a line end. -/
theorem escape_eq_cons (c : Char) :
    ∃ d ds, escape c = d :: ds ∧ d ≠ '"' ∧ isLineEnd d = false := by
  unfold escape
  split_ifs with hq hb hn hf hr hc
  · exact ⟨_, _, rfl, by decide, by decide⟩
  · exact ⟨_, _, rfl, by decide, by decide⟩
  · exact ⟨_, _, rfl, by decide, by decide⟩
  · exact ⟨_, _, rfl, by decide, by decide⟩
  · exact ⟨_, _, rfl, by decide, by decide⟩
  · exact ⟨_, _, rfl, by decide, by decide⟩
  · exact ⟨c, [], rfl, fun h => hq (.inl h), by simp [isLineEnd, hn, hr]⟩

/-- A string is read back from its text behind the first quote, unless a quote follows. -/
theorem readString_text (s : String) {cs : List Char} (hcs : ∀ c ∈ cs.head?, c ≠ '"') :
    readString (s.toList.flatMap escape ++ '"' :: cs) = some (s, cs) := by
  cases hs : s.toList with
  | nil =>
    obtain rfl : s = "" := String.toList_inj.1 hs
    show readString ('"' :: cs) = _
    unfold readString
    split
    · rename_i heq
      rw [(List.cons.inj heq).2] at hcs
      exact absurd rfl (hcs '"' rfl)
    · rename_i heq
      rw [(List.cons.inj heq).2]
    · rename_i hne
      exact absurd rfl (hne cs)
  | cons c rest =>
    obtain ⟨d, ds, hd, hquote, hline⟩ := escape_eq_cons c
    have hread := Symbol.read_flatMap read_escape s.toList cs
    rw [hs, List.flatMap_cons, hd] at hread
    rw [List.flatMap_cons, hd]
    simp only [List.cons_append] at hread ⊢
    have hstring : Symbol.string? ((c :: rest).map escapeSymbol) = some s := by
      rw [← hs, Symbol.string?, Symbol.characters?_map escapeSymbol_eq, Option.map_some,
        String.ofList_toList]
    unfold readString
    split
    · rename_i heq
      exact absurd (List.cons.inj heq).1 hquote
    · rename_i heq
      exact absurd (List.cons.inj heq).1 hquote
    · rw [readQuoted, if_neg (by simp [hline]), hread]
      show (Symbol.string? _).bind _ = _
      rw [hstring]
      rfl

end GraphqlClient.Syntax
