import GraphqlClient.Proofs.Syntax.Legal
import GraphqlClient.Proofs.Syntax.LiteralText
import GraphqlClient.Syntax.Piece
import GraphqlClient.Text.Blank

/-!
# Tokens are read back

Pieces are cut at the same points in which they were put together, when words are kept apart
(`scan_textOf`). Words are the tokens that go on for as long as they can: names, numbers, and
strings, which an empty one would not end before another quote.

In the other direction, `Lexeme.Cut` lists the ways in which a lexeme is cut off, and the tokens
that are read can be written (`regular_of_tokens?`).
-/

namespace GraphqlClient.Syntax

open Text

/-! ## Words -/

/-- A token that what follows could go on with. -/
def TokenKind.isWord : TokenKind → Bool
  | .mark _ => false
  | _ => true

/-- A token that something before it could go on with. -/
def TokenKind.joins : TokenKind → Bool
  | .mark m => m = .spread
  | _ => true

/-- What follows goes on with no word. -/
def EndsWord (cs : List Char) : Prop :=
  ∀ c ∈ cs.head?, isNameChar c = false ∧ c ≠ '.' ∧ c ≠ '"'

/-- Nothing that is passed over goes on with a token. -/
theorem not_goesOn_of_isPassed {c : Char} (h : isBlank c = true ∨ c = '#') :
    isNameChar c = false ∧ c ≠ '.' ∧ c ≠ '"' := by
  simp only [isBlank, Bool.or_eq_true, decide_eq_true_eq] at h
  rcases h with ((((rfl | rfl) | rfl) | rfl) | rfl) | rfl <;> decide

theorem endsNumber_of_endsWord {cs : List Char} (h : EndsWord cs) : endsNumber cs = true := by
  cases cs with
  | nil => rfl
  | cons c cs =>
    obtain ⟨hname, hpoint, -⟩ := h c rfl
    simp [endsNumber, hname, hpoint]

theorem endsNumeral_of_endsNumber {cs : List Char} (h : endsNumber cs = true) :
    EndsNumeral cs := by
  intro c hc
  obtain ⟨cs, rfl⟩ := List.head?_eq_some_iff.1 hc
  simp only [endsNumber, Bool.and_eq_true, Bool.not_eq_true', decide_eq_true_eq, isNameChar,
    Bool.or_eq_false_iff] at h
  obtain ⟨⟨hstart, hdigit⟩, hpoint⟩ := h
  refine ⟨hdigit, hpoint, ?_, ?_⟩
  · rintro rfl
    exact absurd hstart (by decide)
  · rintro rfl
    exact absurd hstart (by decide)

/-! ## Names -/

theorem isNameChar_of_isName {n : Name} (h : IsName n) : ∀ c ∈ n.toList, isNameChar c = true := by
  obtain ⟨c, cs, htext, hstart, hrest⟩ := h
  rw [htext]
  refine List.forall_mem_cons.2 ⟨?_, hrest⟩
  rw [isNameChar, hstart, Bool.true_or]

/-- A name is taken up to what goes on with no name. -/
theorem takeWhile_name {n : Name} (hn : IsName n) {cs : List Char}
    (hcs : ∀ c ∈ cs.head?, isNameChar c = false) :
    (n.toList ++ cs).takeWhile isNameChar = n.toList
      ∧ (n.toList ++ cs).dropWhile isNameChar = cs := by
  rw [List.takeWhile_append_of_pos (isNameChar_of_isName hn),
    List.dropWhile_append_of_pos (isNameChar_of_isName hn)]
  cases cs with
  | nil => simp
  | cons c cs => simp [hcs c rfl]

/-! ## Reading one token -/

namespace Lexeme

/-- A character of a kind that holds no blank, no comma, no hash and no quote is none of them. -/
theorem not_blank {p : Char → Bool}
    (hp : [' ', '\t', '\n', '\r', '\uFEFF', ',', '#', '"'].all (fun d => !p d) = true) {c : Char}
    (h : p c = true) : isBlank c = false ∧ c ≠ ',' ∧ c ≠ '#' ∧ c ≠ '"' := by
  have hne : ∀ d ∈ [' ', '\t', '\n', '\r', '\uFEFF', ',', '#', '"'], c ≠ d := by
    rintro d hd rfl
    have hnot := List.all_eq_true.1 hp c hd
    rw [h] at hnot
    cases hnot
  refine ⟨?_, hne ',' (by simp), hne '#' (by simp), hne '"' (by simp)⟩
  simp [isBlank, hne ' ' (by simp), hne '\t' (by simp), hne '\n' (by simp), hne '\r' (by simp),
    hne '\uFEFF' (by simp)]

theorem read_blank {c : Char} (h : isBlank c = true) (cs : List Char) :
    read (c :: cs) = some (.blank, cs) :=
  if_pos h

/-- A comment is passed over up to a line end. -/
theorem read_comment {body cs : List Char} (hbody : ∀ c ∈ body, isLineEnd c = false)
    (hcs : ∀ c ∈ cs.head?, isLineEnd c = true) :
    read ('#' :: (body ++ cs)) = some (.blank, cs) := by
  have hdrop : (body ++ cs).dropWhile (fun c => !isLineEnd c) = cs := by
    rw [List.dropWhile_append_of_pos fun c hc => by rw [hbody c hc]; rfl]
    cases cs with
    | nil => rfl
    | cons c cs =>
      have hc := hcs c rfl
      simp [hc]
  show some (Lexeme.blank, (body ++ cs).dropWhile fun c => !isLineEnd c) = _
  rw [hdrop]

theorem read_name {n : Name} (hn : IsName n) {cs : List Char}
    (hcs : ∀ c ∈ cs.head?, isNameChar c = false) :
    read (n.toList ++ cs) = some (.token (.name n), cs) := by
  obtain ⟨htake, hdrop⟩ := takeWhile_name hn hcs
  obtain ⟨c, rest, htext, hstart, -⟩ := hn
  obtain ⟨hblank, hcomma, hhash, hquote⟩ := not_blank (by decide) hstart
  have hname : isNameChar c = true := by rw [isNameChar, hstart, Bool.true_or]
  have hofList : String.ofList (c :: rest) = n := by rw [← htext, String.ofList_toList]
  rw [htext, List.cons_append] at htake hdrop ⊢
  rw [List.takeWhile_cons_of_pos hname, List.cons.injEq] at htake
  rw [List.dropWhile_cons_of_pos hname] at hdrop
  unfold read
  simp [hblank, hcomma, hhash, hquote, hstart, htake.2, hdrop, hofList]

/-- The characters that begin names lie between the first capital and the last small letter. -/
theorem toNat_of_isNameStart {c : Char} (h : isNameStart c = true) :
    65 ≤ c.toNat ∧ c.toNat ≤ 122 := by
  rcases Bool.or_eq_true_iff.1 h with halpha | hmark
  · rcases Bool.or_eq_true_iff.1 halpha with hupper | hlower
    · obtain ⟨hlow, hhigh⟩ := of_decide_eq_true hupper
      have hhigh' : c.toNat ≤ 90 := hhigh
      exact ⟨hlow, by omega⟩
    · obtain ⟨hlow, hhigh⟩ := Bool.and_eq_true_iff.1 hlower
      have hlow' : 97 ≤ c.toNat := of_decide_eq_true hlow
      exact ⟨by omega, of_decide_eq_true hhigh⟩
  · obtain rfl := of_decide_eq_true hmark
    decide

theorem toNat_of_isDigit {c : Char} (h : c.isDigit = true) : 48 ≤ c.toNat ∧ c.toNat ≤ 57 := by
  obtain ⟨hlow, hhigh⟩ := Bool.and_eq_true_iff.1 h
  exact ⟨of_decide_eq_true hlow, of_decide_eq_true hhigh⟩

theorem isNameStart_of_isDigit {c : Char} (h : c.isDigit = true) : isNameStart c = false := by
  rw [Bool.eq_false_iff]
  intro hstart
  have hlow := (toNat_of_isNameStart hstart).1
  have hhigh := (toNat_of_isDigit h).2
  omega

/-- A numeral begins with a minus sign or a digit. -/
theorem numeral_text_eq_cons {n : Numeral} (hn : n.Regular) :
    ∃ c cs, n.text = c :: cs ∧ (c = '-' || c.isDigit) = true := by
  obtain ⟨d, ds, hd⟩ := List.exists_cons_of_ne_nil hn.whole_ne_nil
  have hdigit := hn.whole d (by rw [hd]; exact List.mem_cons_self)
  unfold Numeral.text
  cases n.negative with
  | true => exact ⟨_, _, rfl, rfl⟩
  | false => exact ⟨d, _, by rw [hd]; rfl, by simp [hdigit]⟩

theorem read_number {whole : Bool} {s : String} (hs : IsNumber whole s) {cs : List Char}
    (hcs : endsNumber cs = true) :
    read (s.toList ++ cs) = some (.token (if whole then .int s else .float s), cs) := by
  obtain ⟨n, hn, hwhole, rfl⟩ := hs
  have hread := Numeral.read_text hn (endsNumeral_of_endsNumber hcs)
  have hnumber : readNumber (n.text ++ cs)
      = some (if whole then .int (String.ofList n.text) else .float (String.ofList n.text),
        cs) := by
    unfold readNumber
    rw [hread]
    show (if endsNumber cs then _ else _) = _
    rw [if_pos hcs, hwhole]
    rfl
  obtain ⟨c, rest, htext, hc⟩ := numeral_text_eq_cons hn
  have hname : isNameStart c = false := by
    rcases Bool.or_eq_true_iff.1 hc with hminus | hdigit
    · rw [of_decide_eq_true hminus]
      decide
    · exact isNameStart_of_isDigit hdigit
  obtain ⟨hblank, hcomma, hhash, hquote⟩ := not_blank (p := fun c => c = '-' || c.isDigit)
    (by decide) hc
  rw [String.toList_ofList]
  rw [htext, List.cons_append] at hnumber ⊢
  unfold read
  simp only [hblank, hcomma, hhash, hquote, hname, hc, hnumber, if_pos, Bool.false_eq_true,
    if_false, Option.map_some]

theorem read_mark (m : Mark) (cs : List Char) :
    read (m.text ++ cs) = some (.token (.mark m), cs) := by
  cases m <;> rfl

/-- A token is read back from its text, and no more of a word than was written. -/
theorem read_token {k : TokenKind} (hk : k.Regular) {cs : List Char}
    (hcs : k.isWord = true → EndsWord cs) : read (k.text ++ cs) = some (.token k, cs) := by
  cases k with
  | mark m => exact read_mark m cs
  | name n => exact read_name hk fun c hc => (hcs rfl c hc).1
  | int s => exact read_number hk (endsNumber_of_endsWord (hcs rfl))
  | float s => exact read_number hk (endsNumber_of_endsWord (hcs rfl))
  | string s =>
    have hread := readString_text s fun c hc => (hcs rfl c hc).2.2
    show read ('"' :: (s.toList.flatMap escape ++ ['"']) ++ cs) = _
    rw [List.cons_append, List.append_assoc, List.cons_append, List.nil_append]
    show (readString (s.toList.flatMap escape ++ '"' :: cs)).map _ = _
    rw [hread]
    rfl

end Lexeme

/-! ## Reading pieces -/

/-- A text is cut into the lexeme in front and what the rest is cut into. -/
theorem scan_of_read {cs rest : List Char} (hlt : rest.length < cs.length) (b : Bool) (l : Lexeme) :
    Lexeme.read cs = some (l, rest) → scan b cs = match l with
      | .blank => scan b rest
      | .comma => scan true rest
      | .token k => (scan false rest).map (⟨k, b⟩ :: ·) := by
  intro h
  have hne : cs.isEmpty = false := by
    rw [List.isEmpty_eq_false_iff]
    exact List.ne_nil_of_length_pos (by omega)
  rw [scan, hne, h]
  show (if rest.length < cs.length then _ else none) = _
  cases l <;> exact if_pos hlt

theorem scan_blank {cs rest : List Char} (h : Lexeme.read cs = some (.blank, rest))
    (hlt : rest.length < cs.length) (b : Bool) : scan b cs = scan b rest :=
  scan_of_read hlt b .blank h

theorem scan_comma {cs rest : List Char} (h : Lexeme.read cs = some (.comma, rest))
    (hlt : rest.length < cs.length) (b : Bool) : scan b cs = scan true rest :=
  scan_of_read hlt b .comma h

theorem scan_token {cs rest : List Char} {k : TokenKind}
    (h : Lexeme.read cs = some (.token k, rest)) (hlt : rest.length < cs.length) (b : Bool) :
    scan b cs = (scan false rest).map (⟨k, b⟩ :: ·) :=
  scan_of_read hlt b (.token k) h

theorem scan_gap {blanks : List Char} (h : ∀ c ∈ blanks, isBlank c = true) (b : Bool)
    (cs : List Char) : scan b (blanks ++ cs) = scan b cs := by
  induction blanks with
  | nil => rfl
  | cons c blanks ih =>
    have hc := h c List.mem_cons_self
    rw [List.cons_append, scan_blank (Lexeme.read_blank hc _) (Nat.lt_succ_self _)]
    exact ih fun d hd => h d (List.mem_cons_of_mem c hd)

namespace Piece

/-- The pieces can be told apart in their text, behind a word or not. -/
def Spaced : Bool → List Piece → Prop
  | _, [] => True
  | afterWord, .token k :: ps =>
    k.Regular ∧ ¬(afterWord = true ∧ k.joins = true) ∧ Spaced k.isWord ps
  | _, .comma :: ps => Spaced false ps
  | _, .gap blanks :: ps => blanks ≠ [] ∧ (∀ c ∈ blanks, isBlank c = true) ∧ Spaced false ps

theorem Spaced.of_afterWord {ps : List Piece} (h : Spaced true ps) (w : Bool) : Spaced w ps := by
  cases ps with
  | nil => trivial
  | cons p ps =>
    cases p with
    | token k =>
      obtain ⟨hk, hjoins, hps⟩ := h
      exact ⟨hk, fun hw => hjoins ⟨rfl, hw.2⟩, hps⟩
    | comma => exact h
    | gap blanks => exact h

theorem endsWord_textOf {ps : List Piece} (h : Spaced true ps) : EndsWord (textOf ps) := by
  cases ps with
  | nil => exact nofun
  | cons p ps =>
    rw [textOf_cons]
    cases p with
    | token k =>
      obtain ⟨-, hjoins, -⟩ := h
      cases k with
      | mark m =>
        cases m with
        | spread => exact absurd ⟨rfl, rfl⟩ hjoins
        | _ =>
          rintro c ⟨⟩
          decide
      | _ => exact absurd ⟨rfl, rfl⟩ hjoins
    | comma =>
      rintro c ⟨⟩
      decide
    | gap blanks =>
      obtain ⟨hne, hall, -⟩ := h
      obtain ⟨c, blanks, rfl⟩ := List.exists_cons_of_ne_nil hne
      rintro d ⟨⟩
      exact not_goesOn_of_isPassed (.inl (hall c List.mem_cons_self))

end Piece

theorem number_ne_nil {whole : Bool} {s : String} (hs : IsNumber whole s) : s.toList ≠ [] := by
  obtain ⟨n, hn, -, rfl⟩ := hs
  obtain ⟨c, cs, htext, -⟩ := Lexeme.numeral_text_eq_cons hn
  rw [String.toList_ofList, htext]
  exact List.cons_ne_nil c cs

theorem text_ne_nil {k : TokenKind} (hk : k.Regular) : k.text ≠ [] := by
  cases k with
  | mark m => cases m <;> exact List.cons_ne_nil _ _
  | name n =>
    obtain ⟨c, cs, htext, -⟩ := hk
    show n.toList ≠ []
    rw [htext]
    exact List.cons_ne_nil c cs
  | string s => exact List.cons_ne_nil _ _
  | int s => exact number_ne_nil hk
  | float s => exact number_ne_nil hk

open Piece in
/-- The tokens of the text of pieces are the tokens among the pieces. -/
theorem scan_textOf {ps : List Piece} {w : Bool} (h : Spaced w ps) (b : Bool) :
    scan b (textOf ps) = some (tokensOf b ps) := by
  induction ps generalizing w b with
  | nil => rw [scan]; rfl
  | cons p ps ih =>
    rw [textOf_cons]
    cases p with
    | token k =>
      obtain ⟨hk, -, hps⟩ := h
      have hends : k.isWord = true → EndsWord (textOf ps) := fun hword =>
        endsWord_textOf (by rwa [hword] at hps)
      have hread := Lexeme.read_token hk hends
      have hlt : (textOf ps).length < (k.text ++ textOf ps).length := by
        have hpos := List.length_pos_iff.2 (text_ne_nil hk)
        rw [List.length_append]
        omega
      rw [text, scan_token hread hlt, ih hps, Option.map_some, tokensOf]
    | comma =>
      have hread : Lexeme.read (',' :: ' ' :: textOf ps) = some (.comma, ' ' :: textOf ps) := rfl
      show scan b (',' :: ' ' :: textOf ps) = _
      have hgap : scan true ([' '] ++ textOf ps) = scan true (textOf ps) :=
        scan_gap (List.forall_mem_singleton.2 rfl) _ _
      rw [scan_comma hread (Nat.lt_succ_self _)]
      exact hgap.trans (ih h true)
    | gap blanks =>
      obtain ⟨-, hall, hps⟩ := h
      rw [text, scan_gap hall, ih hps, tokensOf]

/-! ## What is read can be written -/

namespace Lexeme

theorem exists_isNumber_of_readNumber {cs rest : List Char} {k : TokenKind}
    (h : readNumber cs = some (k, rest)) :
    ∃ whole s, IsNumber whole s ∧ cs = s.toList ++ rest ∧ endsNumber rest = true
      ∧ k = if whole then .int s else .float s := by
  obtain ⟨⟨n, rest'⟩, hn, h⟩ := Option.bind_eq_some_iff.1 h
  obtain ⟨hends, ⟨⟩⟩ := Option.ite_none_right_eq_some.1 h
  refine ⟨n.isWhole, _, ⟨n, Numeral.regular_of_read hn, rfl, rfl⟩, ?_, hends, rfl⟩
  rw [String.toList_ofList]
  exact (Numeral.append_of_read hn).symm

theorem forall_head_dropWhile (p : Char → Bool) (cs : List Char) :
    ∀ c ∈ (cs.dropWhile p).head?, p c = false := by
  intro c hc
  have hnot := List.head?_dropWhile_not p cs
  rw [hc] at hnot
  exact hnot

/-- The ways in which a lexeme is cut off a text. -/
inductive Cut : List Char → Lexeme → List Char → Prop
  | blank {c : Char} {cs : List Char} (hc : isBlank c = true) : Cut (c :: cs) .blank cs
  | comma {cs : List Char} : Cut (',' :: cs) .comma cs
  | comment {body cs : List Char} (hbody : ∀ c ∈ body, isLineEnd c = false)
      (hcs : ∀ c ∈ cs.head?, isLineEnd c = true) : Cut ('#' :: (body ++ cs)) .blank cs
  | string {s : String} {cs rest : List Char} (hs : readString cs = some (s, rest)) :
      Cut ('"' :: cs) (.token (.string s)) rest
  | name {n : Name} {cs : List Char} (hn : IsName n) (hcs : ∀ c ∈ cs.head?, isNameChar c = false) :
      Cut (n.toList ++ cs) (.token (.name n)) cs
  | number {whole : Bool} {s : String} {cs : List Char} (hs : IsNumber whole s)
      (hcs : endsNumber cs = true) :
      Cut (s.toList ++ cs) (.token (if whole then .int s else .float s)) cs
  | mark {m : Mark} {cs : List Char} : Cut (m.text ++ cs) (.token (.mark m)) cs

theorem read_of_cut {cs rest : List Char} {l : Lexeme} (h : Cut cs l rest) :
    read cs = some (l, rest) := by
  cases h with
  | blank hc => exact read_blank hc rest
  | comma => rfl
  | comment hbody hcs => exact read_comment hbody hcs
  | @string s cs rest hs =>
    show (readString cs).map _ = _
    rw [hs]
    rfl
  | name hn hcs => exact read_name hn hcs
  | number hs hcs => exact read_number hs hcs
  | mark => exact read_mark _ rest

theorem cut_of_read {cs rest : List Char} {l : Lexeme} (h : read cs = some (l, rest)) :
    Cut cs l rest := by
  cases cs with
  | nil => cases h
  | cons c cs =>
    unfold read at h
    simp only at h
    split_ifs at h with hblank hcomma hhash hquote hname hnumber hpoint
    · cases h
      exact .blank hblank
    · cases h
      rw [hcomma]
      exact .comma
    · cases h
      have hbody : ∀ d ∈ cs.takeWhile fun d => !isLineEnd d, isLineEnd d = false := fun d hd => by
        simpa using List.all_eq_true.1 List.all_takeWhile d hd
      have hends : ∀ d ∈ (cs.dropWhile fun d => !isLineEnd d).head?, isLineEnd d = true :=
        fun d hd => by simpa using forall_head_dropWhile _ cs d hd
      have hcut := Cut.comment hbody hends
      rwa [List.takeWhile_append_dropWhile, ← hhash] at hcut
    · obtain ⟨⟨s, rest⟩, hs, ⟨⟩⟩ := Option.map_eq_some_iff.1 h
      rw [hquote]
      exact .string hs
    · cases h
      have hname : IsName (String.ofList (c :: cs.takeWhile isNameChar)) :=
        ⟨c, _, String.toList_ofList, hname, List.all_eq_true.1 List.all_takeWhile⟩
      have hcut := Cut.name hname (forall_head_dropWhile isNameChar cs)
      rwa [String.toList_ofList, List.cons_append, List.takeWhile_append_dropWhile] at hcut
    · obtain ⟨⟨k, rest⟩, hk, ⟨⟩⟩ := Option.map_eq_some_iff.1 h
      obtain ⟨whole, s, hs, hsplit, hends, rfl⟩ := exists_isNumber_of_readNumber hk
      rw [hsplit]
      exact .number hs hends
    · split at h
      · cases h
        rw [hpoint]
        exact .mark (m := .spread)
      · cases h
    · obtain ⟨m, hm, ⟨⟩⟩ := Option.map_eq_some_iff.1 h
      have htext : m.text = [c] :=
        of_decide_eq_true (List.find?_some (p := fun m : Mark => decide (m.text = [c])) hm)
      have hcut := @Cut.mark m rest
      rwa [htext] at hcut

theorem regular_of_read {cs rest : List Char} {k : TokenKind}
    (h : read cs = some (.token k, rest)) : k.Regular := by
  cases cut_of_read h with
  | string => trivial
  | name hn => exact hn
  | @number whole _ _ hs => cases whole <;> exact hs
  | mark => trivial

end Lexeme

theorem regular_of_scan {b : Bool} {cs : List Char} {ts : List Token} (h : scan b cs = some ts) :
    ∀ t ∈ ts, t.kind.Regular := by
  fun_induction scan b cs generalizing ts with
  | case1 b cs hempty =>
    cases h
    exact nofun
  | case2 b cs hne hread => cases h
  | case3 b cs hne rest hlt hread ih => exact ih h
  | case4 b cs hne rest hlt hread ih => exact ih h
  | case5 b cs hne rest hlt k hread ih =>
    obtain ⟨ts', hts', ⟨⟩⟩ := Option.map_eq_some_iff.1 h
    exact List.forall_mem_cons.2 ⟨Lexeme.regular_of_read hread, ih hts'⟩
  | case6 b cs hne lexeme rest hread hlt => cases h

theorem regular_of_tokens? {cs : List Char} {ts : List Token} (h : tokens? cs = some ts) :
    ∀ t ∈ ts, t.kind.Regular :=
  regular_of_scan h

/-! ## Blank texts -/

/-- White space lies below the letters, digits and marks, or above them. -/
theorem toNat_of_isWhiteSpace {c : Char} (h : isWhiteSpace c = true) :
    c.toNat ≤ 32 ∨ 133 ≤ c.toNat := by
  simp only [isWhiteSpace, CodeRanges.contain, blankRanges, List.any_cons, List.any_nil,
    Bool.or_false, Bool.or_eq_true, Bool.and_eq_true, decide_eq_true_eq] at h
  omega

/-- White space begins no token. -/
theorem Lexeme.read_whiteSpace {c : Char} (h : isWhiteSpace c = true) (cs : List Char) :
    read (c :: cs) = some (.blank, cs) ∨ read (c :: cs) = none := by
  have hrange := toNat_of_isWhiteSpace h
  have hne : ∀ d : Char, 32 < d.toNat → d.toNat < 133 → c ≠ d := by
    rintro d hlow hhigh rfl
    omega
  have hname : isNameStart c = false := by
    rw [Bool.eq_false_iff]
    intro hstart
    obtain ⟨hlow, hhigh⟩ := toNat_of_isNameStart hstart
    omega
  have hdigit : c.isDigit = false := by
    rw [Bool.eq_false_iff]
    intro hdigit
    obtain ⟨hlow, hhigh⟩ := toNat_of_isDigit hdigit
    omega
  have hmark : mark? c = none := by
    rw [mark?, List.find?_eq_none]
    intro m hm htext
    have hmarks : [Mark.bang, .dollar, .ampersand, .parenOpen, .parenClose, .colon, .equals,
        .atSign, .bracketOpen, .bracketClose, .braceOpen, .bar, .braceClose].all
          (fun m => m.text.all fun d => 32 < d.toNat && d.toNat < 133) = true := by decide
    have hmtext := List.all_eq_true.1 hmarks m hm
    rw [of_decide_eq_true htext, List.all_cons, List.all_nil] at hmtext
    simp only [Bool.and_true, Bool.and_eq_true, decide_eq_true_eq] at hmtext
    exact hne c hmtext.1 hmtext.2 rfl
  unfold read
  simp only [hname, hdigit, hmark, hne ',' (by decide) (by decide), hne '#' (by decide) (by decide),
    hne '"' (by decide) (by decide), hne '-' (by decide) (by decide),
    hne '.' (by decide) (by decide), decide_false, Bool.or_false, Bool.false_eq_true, if_false,
    Option.map_none]
  split
  · exact .inl rfl
  · exact .inr rfl

theorem scan_whiteSpace {cs : List Char} (h : cs.all isWhiteSpace = true) (b : Bool) :
    scan b cs = some [] ∨ scan b cs = none := by
  induction cs with
  | nil => exact .inl (by rw [scan]; rfl)
  | cons c cs ih =>
    rw [List.all_cons, Bool.and_eq_true] at h
    rcases Lexeme.read_whiteSpace h.1 cs with hread | hread
    · rw [scan_blank hread (Nat.lt_succ_self _)]
      exact ih h.2
    · refine .inr ?_
      rw [scan, hread]
      rfl

end GraphqlClient.Syntax
