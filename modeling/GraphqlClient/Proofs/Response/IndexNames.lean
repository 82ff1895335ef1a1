import GraphqlClient.Proofs.Text.NumeralText
import GraphqlClient.Response.Path
import Mathlib.Data.List.Induction

/-!
# Names of list indices

A name stands for a list index if it is decimal digits that write a number below `2 ^ 64`, leading
zeros or not, and also if such digits stand behind a plus sign (`nameIndex?_eq_some_iff`). Which
digits write which number is told by a grammar, `Decimal`.

The text of an index is a name for it, so that the key of a segment tells its index
(`nameIndex?_key`). Segments with one key are therefore the same but for their spelling
(`respelled_iff`), and stand for the same index.
-/

namespace GraphqlClient.Response

open Text

/-! ## Decimals -/

/-- Decimal digits, one at least, and the number that they write: every further digit makes ten
times as much of those in front of it and adds itself. -/
inductive Decimal : List Char → Nat → Prop
  | digit {d : Nat} (h : d < 10) : Decimal [d.digitChar] d
  | more {ds : List Char} {n d : Nat} (front : Decimal ds n) (h : d < 10) :
    Decimal (ds ++ [d.digitChar]) (10 * n + d)

theorem exists_digitChar_eq {c : Char} (h : c.isDigit = true) : ∃ d < 10, d.digitChar = c := by
  have hc : 48 ≤ c.toNat ∧ c.toNat ≤ 57 := Char.isDigit_iff_toNat.1 h
  have hd : c.toNat - 48 < 10 := by omega
  refine ⟨c.toNat - 48, hd, Char.toNat_inj.1 ?_⟩
  rw [Nat.toNat_digitChar_of_lt_ten hd]
  omega

theorem digitsValue_concat (ds : List Char) {d : Nat} (h : d < 10) :
    digitsValue (ds ++ [d.digitChar]) = 10 * digitsValue ds + d := by
  have hchar : d.digitChar.toNat - '0'.toNat = d := by
    rw [Nat.toNat_digitChar_of_lt_ten h]
    exact Nat.add_sub_cancel_left 48 d
  rw [digitsValue, Nat.ofDigitChars_append, Nat.ofDigitChars_cons, hchar]
  rfl

theorem digitsValue_digit {d : Nat} (h : d < 10) : digitsValue [d.digitChar] = d :=
  (digitsValue_concat [] h).trans (Nat.zero_add d)

/-- A decimal is a nonempty list of digits, and it writes their value. -/
theorem decimal_iff {ds : List Char} {n : Nat} :
    Decimal ds n ↔ ds ≠ [] ∧ (∀ c ∈ ds, c.isDigit = true) ∧ digitsValue ds = n := by
  constructor
  · intro h
    induction h with
    | digit hd =>
      refine ⟨List.cons_ne_nil _ _, ?_, digitsValue_digit hd⟩
      rw [List.forall_mem_singleton, Nat.isDigit_digitChar]
      exact decide_eq_true hd
    | more _ hd ih =>
      obtain ⟨-, hdigits, hvalue⟩ := ih
      refine ⟨List.concat_ne_nil _ _, ?_, ?_⟩
      · rw [List.forall_mem_append, List.forall_mem_singleton, Nat.isDigit_digitChar]
        exact ⟨hdigits, decide_eq_true hd⟩
      · rw [digitsValue_concat _ hd, hvalue]
  · rintro ⟨hne, hdigits, rfl⟩
    -- from the back, where the grammar adds a digit
    induction ds using List.reverseRecOn with
    | nil => exact absurd rfl hne
    | append_singleton ds c ih =>
      rw [List.forall_mem_append, List.forall_mem_singleton] at hdigits
      obtain ⟨d, hd, rfl⟩ := exists_digitChar_eq hdigits.2
      by_cases hds : ds = []
      · subst hds
        rw [List.nil_append, digitsValue_digit hd]
        exact .digit hd
      · rw [digitsValue_concat ds hd]
        exact .more (ih hds hdigits.1) hd

theorem decimal_toDigits (n : Nat) : Decimal (Nat.toDigits 10 n) n :=
  decimal_iff.2 ⟨Nat.toDigits_ne_nil, isDigit_toDigits n, Nat.ofDigitChars_ten_toDigits⟩

/-! ## Names -/

/-- The name is decimal digits that write the index. -/
def IsNumeral (name : String) (n : UInt64) : Prop := Decimal name.toList n.toNat

/-- The name is a plus sign and decimal digits that write the index. -/
def IsSignedNumeral (name : String) (n : UInt64) : Prop :=
  ∃ ds, name.toList = '+' :: ds ∧ Decimal ds n.toNat

theorem decimalIndex?_eq_some_iff {ds : List Char} {n : UInt64} :
    decimalIndex? ds = some n ↔ Decimal ds n.toNat := by
  rw [decimal_iff, decimalIndex?]
  constructor
  · intro h
    split at h
    · rename_i hds
      obtain ⟨hne, hall, hlt⟩ := hds
      cases h
      exact ⟨hne, List.all_eq_true.1 hall, (UInt64.toNat_ofNat_of_lt' hlt).symm⟩
    · cases h
  · rintro ⟨hne, hdigits, hvalue⟩
    have hvalue : Nat.ofDigitChars 10 ds 0 = n.toNat := hvalue
    rw [hvalue, if_pos ⟨hne, List.all_eq_true.2 hdigits, n.toNat_lt_size⟩, UInt64.ofNat_toNat]

section

variable {name : String} {m n : UInt64}

/-- A numeral has no other characters than digits. -/
theorem IsNumeral.isDigit (h : IsNumeral name n) : ∀ c ∈ name.toList, c.isDigit = true :=
  (decimal_iff.1 h).2.1

theorem IsSignedNumeral.not_isNumeral (h : IsSignedNumeral name m) : ¬IsNumeral name n := by
  obtain ⟨ds, hname, -⟩ := h
  intro hnumeral
  have hplus := hnumeral.isDigit '+' (hname ▸ List.mem_cons_self)
  exact absurd hplus (by decide)

/-- The names that stand for an index are numerals and signed numerals. -/
theorem nameIndex?_eq_some_iff :
    nameIndex? name = some n ↔ IsNumeral name n ∨ IsSignedNumeral name n := by
  unfold nameIndex?
  split
  case h_1 ds hname =>
    rw [decimalIndex?_eq_some_iff]
    constructor
    · intro h
      exact .inr ⟨ds, hname, h⟩
    · rintro (h | ⟨ds', hname', h⟩)
      · exact absurd (h.isDigit '+' (hname ▸ List.mem_cons_self)) (by decide)
      · obtain rfl : ds = ds' := (List.cons.inj (hname.symm.trans hname')).2
        exact h
  case h_2 hname =>
    rw [decimalIndex?_eq_some_iff]
    constructor
    · exact .inl
    · rintro (h | ⟨ds, hplus, -⟩)
      · exact h
      · exact absurd hplus (hname ds)

end

/-! ## Segments -/

namespace PathSegment

/-- The segments are the same, or one is an index and the other the name that is its text. -/
inductive Respelled : PathSegment → PathSegment → Prop
  | refl (s : PathSegment) : Respelled s s
  | name (n : UInt64) : Respelled (.index n) (.field (toString n))
  | index (n : UInt64) : Respelled (.field (toString n)) (.index n)

/-- A segment stands for the index that its key is read as. -/
theorem nameIndex?_key (s : PathSegment) : nameIndex? s.key = s.asIndex := by
  cases s with
  | field name => rfl
  | index n =>
    refine nameIndex?_eq_some_iff.2 (.inl ?_)
    rw [IsNumeral, key, String.toList_ofList]
    exact decimal_toDigits n.toNat

theorem asIndex_eq_of_key_eq {s t : PathSegment} (h : s.key = t.key) : s.asIndex = t.asIndex := by
  rw [← nameIndex?_key, h, nameIndex?_key]

/-- Segments are the same up to their spelling if and only if they have one key. -/
theorem respelled_iff {s t : PathSegment} : Respelled s t ↔ s.key = t.key := by
  constructor
  · intro h
    cases h <;> rfl
  · intro h
    cases s with
    | field a =>
      cases t with
      | field b =>
        obtain rfl : a = b := h
        exact .refl _
      | index n =>
        obtain rfl : a = toString n := h
        exact .index n
    | index m =>
      cases t with
      | field b =>
        obtain rfl : toString m = b := h
        exact .name m
      | index n =>
        obtain rfl : m = n := Option.some.inj (asIndex_eq_of_key_eq h)
        exact .refl _

end PathSegment

end GraphqlClient.Response
