import GraphqlClient.Proofs.Syntax.Cut
import GraphqlClient.Syntax.Reader

/-!
# Texts that differ in blanks and comments

`Respaced` takes one text to another by putting blanks and comments before tokens and behind them.
Both have the same tokens (`tokens?_respaced`), each behind a comma in one where it is in the other,
so that they are read as the same document.

A token is cut off alike because what comes to stand behind it begins as before, or with a blank or
a comment. A comment ends where it ended, at a line end, behind which no token stands.
-/

namespace GraphqlClient.Syntax

open Text

/-! ## What is put in -/

/-- Blanks, and comments with a line end behind each of them. -/
inductive Ignored : List Char → Prop
  | nil : Ignored []
  | blank {c : Char} {cs : List Char} (hc : isBlank c = true) (hcs : Ignored cs) : Ignored (c :: cs)
  | comment {body cs : List Char} {e : Char} (hbody : ∀ c ∈ body, isLineEnd c = false)
      (he : isLineEnd e = true) (hcs : Ignored cs) : Ignored ('#' :: (body ++ e :: cs))

theorem isBlank_of_isLineEnd {c : Char} (h : isLineEnd c = true) : isBlank c = true := by
  simp only [isLineEnd, Bool.or_eq_true, decide_eq_true_eq] at h
  rcases h with rfl | rfl <;> rfl

theorem Ignored.standsIn {passed : List Char} (h : Ignored passed) {rest rest' : List Char}
    (hrest : StandsIn rest rest') : StandsIn rest (passed ++ rest') := by
  cases h with
  | nil => exact hrest
  | blank hc =>
    rintro d ⟨⟩
    exact .inr (.inl hc)
  | comment =>
    rintro d ⟨⟩
    exact .inr (.inr rfl)

/-! ## Texts with something put in -/

/-- The second text is the first one with blanks and comments put before tokens and behind them. The
lexemes of the first text are not touched. -/
inductive Respaced : List Char → List Char → Prop
  | nil : Respaced [] []
  | passed {front rest rest' : List Char} {l : Lexeme}
      (hread : Lexeme.read (front ++ rest) = some (l, rest)) (hl : ∀ k, l ≠ .token k)
      (hrest : Respaced rest rest') : Respaced (front ++ rest) (front ++ rest')
  | token {front rest rest' before after : List Char} {k : TokenKind}
      (hread : Lexeme.read (front ++ rest) = some (.token k, rest)) (hbefore : Ignored before)
      (hafter : Ignored after) (hrest : Respaced rest rest') :
      Respaced (front ++ rest) (before ++ (front ++ (after ++ rest')))

namespace Respaced

theorem standsIn_of_ne_nil {front : List Char} (h : front ≠ []) (rest rest' : List Char) :
    StandsIn (front ++ rest) (front ++ rest') := by
  obtain ⟨c, front, rfl⟩ := List.exists_cons_of_ne_nil h
  exact fun d hd => .inl hd

theorem standsIn {cs cs' : List Char} (h : Respaced cs cs') : StandsIn cs cs' := by
  cases h with
  | nil => exact nofun
  | passed hread => exact standsIn_of_ne_nil (Lexeme.ne_nil_of_read hread) _ _
  | token hread hbefore =>
    exact hbefore.standsIn (standsIn_of_ne_nil (Lexeme.ne_nil_of_read hread) _ _)

/-- Nothing is put in before a line end, or at the end of a text that holds no token. -/
theorem endsLine {cs cs' : List Char} (h : Respaced cs cs')
    (hcs : ∀ c ∈ cs.head?, isLineEnd c = true) : ∀ c ∈ cs'.head?, isLineEnd c = true := by
  cases h with
  | nil => exact nofun
  | passed hread =>
    obtain ⟨c, front, rfl⟩ := List.exists_cons_of_ne_nil (Lexeme.ne_nil_of_read hread)
    rintro d ⟨⟩
    exact hcs c rfl
  | @token _ rest _ _ _ _ hread =>
    obtain ⟨c, front, rfl⟩ := List.exists_cons_of_ne_nil (Lexeme.ne_nil_of_read hread)
    have hblank := Lexeme.read_blank (isBlank_of_isLineEnd (hcs c rfl)) (front ++ rest)
    cases hblank.symm.trans hread

/-- A text that is cut into tokens is itself with nothing put in. -/
theorem refl_of_scan {b : Bool} {cs : List Char} {ts : List Token} (h : scan b cs = some ts) :
    Respaced cs cs := by
  have hpassed : ∀ {cs rest : List Char} {l : Lexeme}, Lexeme.read cs = some (l, rest) →
      (∀ k, l ≠ .token k) → Respaced rest rest → Respaced cs cs := by
    intro cs rest l hread hl hrest
    obtain ⟨c, front, rfl, -⟩ := Lexeme.exists_front_of_read_passed hread hl
    exact .passed hread hl hrest
  fun_induction scan b cs generalizing ts with
  | case1 b cs hempty =>
    rw [List.isEmpty_iff.1 hempty]
    exact .nil
  | case2 => cases h
  | case3 b cs hne rest hlt hread ih => exact hpassed hread (by simp) (ih h)
  | case4 b cs hne rest hlt hread ih => exact hpassed hread (by simp) (ih h)
  | case5 b cs hne rest hlt k hread ih =>
    obtain ⟨ts', hts', -⟩ := Option.map_eq_some_iff.1 h
    obtain ⟨front, rfl, -⟩ := Lexeme.exists_front_of_read hread
    exact .token hread .nil .nil (ih hts')
  | case6 => cases h

end Respaced

/-! ## Tokens -/

theorem scan_ignored {passed : List Char} (h : Ignored passed) (b : Bool) (cs : List Char) :
    scan b (passed ++ cs) = scan b cs := by
  induction h with
  | nil => rfl
  | blank hc _ ih => exact (scan_blank (Lexeme.read_blank hc _) (Nat.lt_succ_self _) b).trans ih
  | @comment body passed e hbody he _ ih =>
    have hread :
        Lexeme.read ('#' :: (body ++ e :: passed) ++ cs) = some (.blank, e :: passed ++ cs) := by
      rw [List.cons_append, List.append_assoc]
      refine Lexeme.read_comment hbody ?_
      rintro d ⟨⟩
      exact he
    have hlt : (e :: passed ++ cs).length < ('#' :: (body ++ e :: passed) ++ cs).length := by
      simp only [List.cons_append, List.length_cons, List.length_append]
      omega
    rw [scan_blank hread hlt, List.cons_append]
    have hblank := Lexeme.read_blank (isBlank_of_isLineEnd he) (passed ++ cs)
    exact (scan_blank hblank (Nat.lt_succ_self _) b).trans ih

theorem length_lt_append {front : List Char} (h : front ≠ []) (rest : List Char) :
    rest.length < (front ++ rest).length := by
  have hpos := List.length_pos_iff.2 h
  rw [List.length_append]
  omega

theorem scan_respaced {cs cs' : List Char} (h : Respaced cs cs') (b : Bool) :
    scan b cs' = scan b cs := by
  induction h generalizing b with
  | nil => rfl
  | @passed front rest rest' l hread hl hrest ih =>
    have hne := Lexeme.ne_nil_of_read hread
    have hread' : Lexeme.read (front ++ rest') = some (l, rest') := by
      obtain ⟨c, front', hfront, hread'⟩ := Lexeme.exists_front_of_read_passed hread hl
      rw [List.append_cancel_right hfront]
      exact hread' rest' hrest.endsLine
    rw [scan_of_read (length_lt_append hne rest) b l hread,
      scan_of_read (length_lt_append hne rest') b l hread']
    cases l with
    | blank => exact ih b
    | comma => exact ih true
    | token k => exact absurd rfl (hl k)
  | @token front rest rest' before after k hread hbefore hafter hrest ih =>
    have hne := Lexeme.ne_nil_of_read hread
    -- What comes to stand behind the token is a part of what is put in, or begins as before.
    have hread' : Lexeme.read (front ++ (after ++ rest')) = some (.token k, after ++ rest') := by
      obtain ⟨front', hfront, hread'⟩ := Lexeme.exists_front_of_read hread
      rw [List.append_cancel_right hfront]
      exact hread' _ (hafter.standsIn hrest.standsIn)
    rw [scan_ignored hbefore, scan_token hread' (length_lt_append hne _),
      scan_token hread (length_lt_append hne _), scan_ignored hafter, ih]

theorem tokens?_respaced {cs cs' : List Char} (h : Respaced cs cs') : tokens? cs' = tokens? cs :=
  scan_respaced h false

/-- Texts that differ in blanks and comments are the same document, or both are none. -/
theorem ofText?_respaced {text text' : String} (h : Respaced text.toList text'.toList) :
    Document.ofText? text' = Document.ofText? text := by
  unfold Document.ofText?
  rw [tokens?_respaced h]

end GraphqlClient.Syntax
