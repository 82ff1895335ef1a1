import GraphqlClient.Proofs.Syntax.TokenText

/-!
# Where tokens end

A token is cut off a text by what it consists of and at most one character behind it. So it is cut
off alike before any other text that begins with the same character, or with a blank or a comment
(`Lexeme.exists_front_of_read`). What is passed over takes one character, but for comments, which go
on up to a line end (`Lexeme.exists_front_of_read_passed`).

A string is found by its closing quotes, behind which it looks no further (`Reader.LocalOn`). Names
and numbers go on for as long as they can.
-/

namespace GraphqlClient

namespace Reader

variable {σ α β : Type}

/-- The reader takes a front, and the same value with it whatever follows. -/
def TakesFront (r : Reader σ α) (front : List σ) (a : α) : Prop :=
  ∀ rest, r (front ++ rest) = some (a, rest)

/-- Whatever the reader takes off a list is a front that it takes before any other rest. -/
def LocalOn (r : Reader σ α) (s : List σ) : Prop :=
  ∀ a rest, r s = some (a, rest) → ∃ front, s = front ++ rest ∧ r.TakesFront front a

/-- A reader that passes some symbols and goes on with another one looks no further than that. -/
theorem LocalOn.of_step {r : Reader σ β} {r' : Reader σ α} {f : α → β} {p s : List σ}
    (hstep : ∀ t, r (p ++ t) = (r' t).map fun x => (f x.1, x.2)) (h : r'.LocalOn s) :
    r.LocalOn (p ++ s) := by
  intro b rest hb
  rw [hstep] at hb
  obtain ⟨⟨a, rest'⟩, ha, ⟨⟩⟩ := Option.map_eq_some_iff.1 hb
  obtain ⟨front, rfl, hfront⟩ := h a _ ha
  refine ⟨p ++ front, (List.append_assoc ..).symm, fun rest => ?_⟩
  rw [List.append_assoc, hstep, hfront]
  rfl

end Reader

open Reader

namespace Text

/-! ## String literals -/

namespace Symbol

theorem readBraces_close {L : Literal} {digits : List Char} {code : Nat} {c : Char}
    (hcode : hexValue? digits.reverse = some code) (hc : scalar? code = some c) (cs : List Char) :
    readBraces L digits ('}' :: cs) = (read L cs).map fun r => (.plain c :: r.1, r.2) := by
  rw [readBraces, hcode]
  show (scalar? code).bind _ = _
  rw [hc]
  cases read L cs <;> rfl

/-- A literal is read up to its closing quote. -/
theorem localOn_read (L : Literal) (cs : List Char) : LocalOn (read L) cs := by
  induction cs using read.induct L (motive_2 := fun digits cs => LocalOn (readBraces L digits) cs)
    with
  | case1 =>
    intro a rest h
    rw [read] at h
    cases h
  | case2 cs =>
    intro a rest h
    rw [read] at h
    cases h
    exact ⟨['"'], rfl, fun rest => by rw [List.singleton_append, read]⟩
  | case3 cs hbraces ih =>
    have hstep (t : List Char) :
        read L (['\\', 'u', '{'] ++ t) = (readBraces L [] t).map fun x => (id x.1, x.2) := by
      show read L ('\\' :: 'u' :: '{' :: t) = _
      rw [read, if_pos hbraces]
      simp
    exact LocalOn.of_step hstep ih
  | case4 cs hbraces =>
    intro a rest h
    rw [read, if_neg hbraces] at h
    cases h
  | case5 a b c d cs ha ih =>
    intro symbols rest h
    cases hcode : hexValue? [a, b, c, d] with
    | none =>
      rw [read, hcode] at h
      · cases h
      · exact ha
    | some code =>
      exact LocalOn.of_step (p := ['\\', 'u', a, b, c, d]) (read_unit hcode ha) ih symbols rest h
  | case6 letter cs hbrace hunit ih =>
    intro symbols rest h
    cases hletter : unescape? letter with
    | none =>
      rw [read, hletter] at h
      · cases h
      · exact hbrace
      · exact hunit
    | some c =>
      have hu : letter ≠ 'u' := by
        rintro rfl
        simp [unescape?] at hletter
      exact LocalOn.of_step (p := ['\\', letter]) (read_short hletter hu) ih symbols rest h
  | case7 c cs hquote hbrace hunit hshort hraw ih =>
    exact LocalOn.of_step (p := [c]) (read_plain hquote hraw.1 hraw.2) ih
  | case8 c cs hquote hbrace hunit hshort hraw =>
    intro a rest h
    rw [read, if_neg hraw] at h
    · cases h
    all_goals assumption
  | case9 digits =>
    intro a rest h
    rw [readBraces] at h
    cases h
  | case10 digits cs ih =>
    intro symbols rest h
    cases hcode : hexValue? digits.reverse with
    | none =>
      rw [readBraces, hcode] at h
      cases h
    | some code =>
      cases hc : scalar? code with
      | none =>
        rw [readBraces, hcode] at h
        replace h : (scalar? code).bind _ = _ := h
        rw [hc] at h
        cases h
      | some c =>
        exact LocalOn.of_step (p := ['}']) (readBraces_close hcode hc) ih symbols rest h
  | case11 digits c cs hc ih =>
    have hstep (t : List Char) :
        readBraces L digits ([c] ++ t) = (readBraces L (c :: digits) t).map fun x =>
          (id x.1, x.2) := by
      show readBraces L digits (c :: t) = _
      rw [readBraces]
      · simp
      · exact hc
    exact LocalOn.of_step hstep ih

end Symbol

end Text

namespace Syntax

open Text

/-! ## Block strings -/

/-- A block string is read up to its closing quotes, which are three characters. -/
theorem exists_front_of_readBlock {cs content rest : List Char}
    (h : readBlock cs = some (content, rest)) :
    ∃ a b c front, cs = a :: b :: c :: front ++ rest
      ∧ TakesFront readBlock (a :: b :: c :: front) content := by
  fun_induction readBlock cs generalizing content rest with
  | case1 => cases h
  | case2 cs =>
    cases h
    exact ⟨'"', '"', '"', [], rfl, fun rest => by simp [readBlock]⟩
  | case3 cs ih =>
    obtain ⟨⟨content, rest⟩, hr, ⟨⟩⟩ := Option.map_eq_some_iff.1 h
    obtain ⟨a, b, c, front, rfl, hfront⟩ := ih hr
    refine ⟨'\\', '"', '"', '"' :: a :: b :: c :: front, rfl, fun rest => ?_⟩
    have hrest := hfront rest
    simp only [List.cons_append] at hrest ⊢
    rw [readBlock, hrest]
    rfl
  | case4 cs hquote ih =>
    obtain ⟨⟨content, rest⟩, hr, ⟨⟩⟩ := Option.map_eq_some_iff.1 h
    obtain ⟨a, b, c, front, rfl, hfront⟩ := ih hr
    have ha : a ≠ '"' := by
      rintro rfl
      exact hquote _ rfl
    refine ⟨'\\', '"', '"', a :: b :: c :: front, rfl, fun rest => ?_⟩
    have hrest := hfront rest
    simp only [List.cons_append] at hrest ⊢
    rw [readBlock, hrest]
    · rfl
    · exact fun cs heq => ha (List.cons.inj heq).1
  | case5 cs hquotes hquote ih =>
    obtain ⟨⟨content, rest⟩, hr, ⟨⟩⟩ := Option.map_eq_some_iff.1 h
    obtain ⟨a, b, c, front, rfl, hfront⟩ := ih hr
    have ha : a ≠ '"' := by
      rintro rfl
      exact hquote _ rfl
    refine ⟨'\\', '"', a, b :: c :: front, rfl, fun rest => ?_⟩
    have hrest := hfront rest
    simp only [List.cons_append] at hrest ⊢
    rw [readBlock, hrest]
    · rfl
    · exact fun cs heq => ha (List.cons.inj heq).1
    · exact fun cs heq => ha (List.cons.inj heq).1
  | case6 d cs hclose hthree htwo hone ih =>
    -- The front holds two more characters, which rule out the other ways to go on by themselves.
    obtain ⟨⟨content, rest⟩, hr, ⟨⟩⟩ := Option.map_eq_some_iff.1 h
    obtain ⟨a, b, c, front, rfl, hfront⟩ := ih hr
    have hend : d = '"' → ¬(a = '"' ∧ b = '"') := by
      rintro hd ⟨rfl, rfl⟩
      exact hclose _ hd rfl
    have hescape : d = '\\' → a ≠ '"' := by
      rintro hd rfl
      exact hone _ hd rfl
    refine ⟨d, a, b, c :: front, rfl, fun rest => ?_⟩
    have hrest := hfront rest
    simp only [List.cons_append] at hrest ⊢
    rw [readBlock, hrest]
    · rfl
    · intro cs hd heq
      obtain ⟨ha, heq⟩ := List.cons.inj heq
      exact hend hd ⟨ha, (List.cons.inj heq).1⟩
    all_goals exact fun cs hd heq => hescape hd (List.cons.inj heq).1

/-! ## What stands behind -/

/-- A text begins as another one does, or with something that is passed over. -/
def StandsIn (rest rest' : List Char) : Prop :=
  ∀ c ∈ rest'.head?, c ∈ rest.head? ∨ isBlank c = true ∨ c = '#'

/-- What is said of the first character of a text, and of those that are passed over. -/
theorem StandsIn.forall_head {P : Char → Prop} {rest rest' : List Char} (h : StandsIn rest rest')
    (hpassed : ∀ c, isBlank c = true ∨ c = '#' → P c) (hrest : ∀ c ∈ rest.head?, P c) :
    ∀ c ∈ rest'.head?, P c :=
  fun c hc => (h c hc).elim (hrest c) (hpassed c)

theorem endsNumber_iff {cs : List Char} :
    endsNumber cs = true ↔ ∀ c ∈ cs.head?, isNameChar c = false ∧ c ≠ '.' := by
  cases cs <;> simp [endsNumber]

/-! ## Strings -/

theorem localOn_readQuoted (cs : List Char) : LocalOn readQuoted cs := by
  cases cs with
  | nil =>
    rintro a rest ⟨⟩
  | cons c cs =>
    by_cases hline : isLineEnd c = true
    · have hstep (t : List Char) : readQuoted ([c] ++ t)
          = (Symbol.read literal t).map fun r => (.plain c :: r.1, r.2) := if_pos hline
      exact LocalOn.of_step hstep (Symbol.localOn_read literal cs)
    · intro symbols rest h
      rw [readQuoted, if_neg hline] at h
      obtain ⟨front, heq, hfront⟩ := Symbol.localOn_read literal _ _ _ h
      cases front with
      | nil =>
        have hnil := hfront []
        rw [List.append_nil, Symbol.read] at hnil
        cases hnil
      | cons d front =>
        obtain ⟨rfl, rfl⟩ := List.cons.inj heq
        refine ⟨c :: front, rfl, fun rest => ?_⟩
        rw [List.cons_append, readQuoted, if_neg hline]
        exact hfront rest

theorem readString_cons {c : Char} (hc : c ≠ '"') (cs : List Char) :
    readString (c :: cs) = (readQuoted (c :: cs)).bind fun r =>
      (Symbol.string? r.1).map fun s => (s, r.2) := by
  unfold readString
  split
  · rename_i heq
    exact absurd (List.cons.inj heq).1 hc
  · rename_i heq
    exact absurd (List.cons.inj heq).1 hc
  · show (readQuoted (c :: cs)).bind _ = _
    cases readQuoted (c :: cs) with
    | none => rfl
    | some r => cases h : Symbol.string? r.1 <;> simp [h, bind]

/-- A string is read up to its end. The empty one could go on with a quote behind it. -/
theorem exists_front_of_readString {cs rest : List Char} {s : String}
    (h : readString cs = some (s, rest)) :
    ∃ front, cs = front ++ rest ∧ ∀ rest', StandsIn rest rest' →
      readString (front ++ rest') = some (s, rest') := by
  by_cases hquote : cs.head? = some '"'
  · obtain ⟨cs, rfl⟩ := List.head?_eq_some_iff.1 hquote
    unfold readString at h
    split at h
    · rename_i heq
      obtain ⟨-, rfl⟩ := List.cons.inj heq
      obtain ⟨⟨content, rest⟩, hr, ⟨⟩⟩ := Option.map_eq_some_iff.1 h
      obtain ⟨a, b, c, front, rfl, hfront⟩ := exists_front_of_readBlock hr
      refine ⟨'"' :: '"' :: a :: b :: c :: front, rfl, fun rest' _ => ?_⟩
      show (readBlock (a :: b :: c :: front ++ rest')).map _ = _
      rw [hfront]
      rfl
    · rename_i hne heq
      obtain ⟨-, rfl⟩ := List.cons.inj heq
      cases h
      refine ⟨['"'], rfl, fun rest' hrest => ?_⟩
      refine readString_text "" (hrest.forall_head (fun c hc => (not_goesOn_of_isPassed hc).2.2) ?_)
      rintro c hc rfl
      obtain ⟨cs, rfl⟩ := List.head?_eq_some_iff.1 hc
      exact hne cs rfl
    · rename_i hne
      exact absurd rfl (hne cs)
  · cases cs with
    | nil => cases h
    | cons c cs =>
      have hc : c ≠ '"' := fun hc => hquote (congrArg some hc)
      rw [readString_cons hc] at h
      obtain ⟨⟨symbols, rest⟩, hsymbols, h⟩ := Option.bind_eq_some_iff.1 h
      obtain ⟨s, hs, ⟨⟩⟩ := Option.map_eq_some_iff.1 h
      obtain ⟨front, heq, hfront⟩ := localOn_readQuoted _ _ _ hsymbols
      -- Nothing is read off an empty list, so that the front begins as the whole does.
      cases front with
      | nil => exact absurd (hfront []) nofun
      | cons d front =>
        obtain ⟨rfl, rfl⟩ := List.cons.inj heq
        refine ⟨c :: front, rfl, fun rest' _ => ?_⟩
        rw [List.cons_append, readString_cons hc, ← List.cons_append, hfront]
        exact congrArg (Option.map _) hs

/-! ## Lexemes -/

namespace Lexeme

/-- A token is cut off alike before a text that stands in for what was behind it. -/
theorem exists_front_of_read {cs rest : List Char} {k : TokenKind}
    (h : read cs = some (.token k, rest)) :
    ∃ front, cs = front ++ rest ∧ ∀ rest', StandsIn rest rest' →
      read (front ++ rest') = some (.token k, rest') := by
  cases cut_of_read h with
  | string hs =>
    obtain ⟨front, rfl, hfront⟩ := exists_front_of_readString hs
    exact ⟨'"' :: front, rfl, fun rest' hrest => read_of_cut (.string (hfront rest' hrest))⟩
  | name hn hcs =>
    refine ⟨_, rfl, fun rest' hrest => read_of_cut (.name hn ?_)⟩
    exact hrest.forall_head (fun c hc => (not_goesOn_of_isPassed hc).1) hcs
  | number hs hcs =>
    refine ⟨_, rfl, fun rest' hrest => read_of_cut (.number hs (endsNumber_iff.2 ?_))⟩
    refine hrest.forall_head (fun c hc => ?_) (endsNumber_iff.1 hcs)
    obtain ⟨hname, hpoint, -⟩ := not_goesOn_of_isPassed hc
    exact ⟨hname, hpoint⟩
  | mark => exact ⟨_, rfl, fun rest' _ => read_of_cut .mark⟩

/-- What is passed over is one character, or a comment that goes on up to a line end. -/
theorem exists_front_of_read_passed {cs rest : List Char} {l : Lexeme}
    (h : read cs = some (l, rest)) (hl : ∀ k, l ≠ .token k) :
    ∃ c front, cs = c :: front ++ rest ∧ ∀ rest' : List Char,
      ((∀ d ∈ rest.head?, isLineEnd d = true) → ∀ d ∈ rest'.head?, isLineEnd d = true) →
        read (c :: front ++ rest') = some (l, rest') := by
  cases cut_of_read h with
  | blank hc => exact ⟨_, [], rfl, fun rest' _ => read_of_cut (.blank hc)⟩
  | comma => exact ⟨',', [], rfl, fun rest' _ => read_of_cut .comma⟩
  | comment hbody hcs =>
    exact ⟨'#', _, rfl, fun rest' hrest' => read_of_cut (.comment hbody (hrest' hcs))⟩
  | _ => exact absurd rfl (hl _)

/-- A lexeme takes one character at least. -/
theorem ne_nil_of_read {front rest : List Char} {l : Lexeme}
    (h : read (front ++ rest) = some (l, rest)) : front ≠ [] := by
  rintro rfl
  by_cases hl : ∃ k, l = .token k
  · obtain ⟨k, rfl⟩ := hl
    obtain ⟨front, hfront, hread⟩ := exists_front_of_read h
    obtain rfl : front = [] := by simpa using hfront
    exact absurd (hread [] nofun) nofun
  · obtain ⟨c, front, hfront, -⟩ := exists_front_of_read_passed h fun k hk => hl ⟨k, hk⟩
    have hlength := congrArg List.length hfront
    simp only [List.nil_append, List.length_append, List.length_cons] at hlength
    omega

end Lexeme

end Syntax

end GraphqlClient
