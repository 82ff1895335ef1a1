import GraphqlClient.Operation.Basic
import GraphqlClient.Proofs.Syntax.RoundTrip

/-!
# What the text of a document tells

A syntax tree may hold what no text reads as, and then its text does not tell the whole tree. But
the text tells how many definitions there are, and of each of them the type of the operation or the
name of the fragment (`map_heading_eq_of_text_eq`), as long as the names are names and the numbers
are numbers (`Definition.WellSpelled`).

An empty line stands between definitions, and none stands inside one: a line feed in a definition
has a blank behind it, or the brace that closes the definition. So the text is cut between
definitions in one way only, and the first words of a definition are its heading.
-/

namespace GraphqlClient.Syntax

open Piece Text

/-! ## Texts without empty lines -/

/-- Every line feed has a character behind it, which is none. -/
def Solid : List Char → Prop
  | [] => True
  | c :: cs => (c = '\n' → ∃ d ∈ cs.head?, d ≠ '\n') ∧ Solid cs

theorem Solid.append {cs ds : List Char} (hcs : Solid cs) (hds : Solid ds) : Solid (cs ++ ds) := by
  induction cs with
  | nil => exact hds
  | cons c cs ih =>
    refine ⟨fun hc => ?_, ih hcs.2⟩
    obtain ⟨d, hd, hne⟩ := hcs.1 hc
    obtain ⟨cs, rfl⟩ := List.head?_eq_some_iff.1 hd
    exact ⟨d, rfl, hne⟩

theorem solid_of_not_mem {cs : List Char} (h : '\n' ∉ cs) : Solid cs := by
  induction cs with
  | nil => trivial
  | cons c cs ih =>
    obtain ⟨hc, hcs⟩ := not_or.1 (fun hmem => h (List.mem_cons.2 hmem))
    exact ⟨fun heq => absurd heq.symm hc, ih hcs⟩

theorem solid_textOf {ps : List Piece} (h : ∀ p ∈ ps, Solid p.text) : Solid (textOf ps) := by
  induction ps with
  | nil => trivial
  | cons p ps ih =>
    obtain ⟨hp, hps⟩ := List.forall_mem_cons.1 h
    rw [textOf_cons]
    exact hp.append (ih hps)

/-- Behind a line feed inside a text without empty lines there is neither nothing nor an empty
line. -/
theorem ne_append_of_solid {cs rest rest' : List Char} (hcs : Solid ('\n' :: cs))
    (hrest : ∀ c ∈ rest.head?, c = '\n') : rest ≠ cs ++ rest' := by
  rintro rfl
  obtain ⟨d, hd, hne⟩ := hcs.1 rfl
  obtain ⟨cs, rfl⟩ := List.head?_eq_some_iff.1 hd
  exact hne (hrest d rfl)

/-- A text without empty lines is known from a longer one in which its last line ends and nothing or
an empty line follows. -/
theorem solid_append_inj {cs ds rest rest' : List Char} (hcs : Solid cs) (hds : Solid ds)
    (hrest : ∀ c ∈ rest.head?, c = '\n') (hrest' : ∀ c ∈ rest'.head?, c = '\n')
    (h : cs ++ '\n' :: rest = ds ++ '\n' :: rest') : cs = ds ∧ rest = rest' := by
  induction cs generalizing ds with
  | nil =>
    cases ds with
    | nil => exact ⟨rfl, (List.cons.inj h).2⟩
    | cons d ds =>
      obtain ⟨rfl, hds'⟩ := List.cons.inj h
      exact absurd hds' (ne_append_of_solid hds hrest)
  | cons c cs ih =>
    cases ds with
    | nil =>
      obtain ⟨rfl, hcs'⟩ := List.cons.inj h
      exact absurd hcs'.symm (ne_append_of_solid hcs hrest')
    | cons d ds =>
      obtain ⟨rfl, htail⟩ := List.cons.inj h
      obtain ⟨rfl, hrests⟩ := ih hcs.2 hds.2 htail
      exact ⟨rfl, hrests⟩

/-! ## Tokens -/

theorem ne_lineFeed_of_isNameChar {c : Char} (h : isNameChar c = true) : c ≠ '\n' := by
  rintro rfl
  exact absurd h (by decide)

theorem ne_lineFeed_of_isDigit {c : Char} (h : c.isDigit = true) : c ≠ '\n' := by
  rintro rfl
  exact absurd h (by decide)

theorem lineFeed_not_mem_numeral {n : Numeral} (hn : n.Regular) : '\n' ∉ n.text := by
  have hdigits : ∀ ds : List Char, (∀ c ∈ ds, c.isDigit = true) → '\n' ∉ ds := fun ds hds hmem =>
    ne_lineFeed_of_isDigit (hds _ hmem) rfl
  have hwhole := hdigits _ hn.whole
  have hfraction := hdigits _ hn.fraction
  unfold Numeral.text
  -- The text matches on the exponent, so its cases come before those of the sign and the fraction.
  cases he : n.exponent with
  | none =>
    split_ifs <;> simp [hwhole, hfraction]
  | some e =>
    have hregular := hn.exponent e he
    have hexponent := hdigits _ hregular.digits
    have hmark : '\n' ≠ e.mark := by
      rcases hregular.mark with h | h <;> (rw [h]; decide)
    have hsign : '\n' ∉ e.sign.toList := by
      intro hmem
      rcases hregular.sign '\n' (Option.mem_toList.1 hmem) with h | h <;> cases h
    split_ifs <;> simp [Exponent.text, hwhole, hfraction, hexponent, hmark, hsign]

theorem lineFeed_not_mem_escape (c : Char) : '\n' ∉ escape c := by
  have hhex : ∀ code < 0x20, '\n' ∉ (hexPair code).map Char.toUpper := by decide
  unfold escape
  split_ifs with hquote hb hn hf hr hcontrol
  · rcases hquote with rfl | rfl <;> decide
  · decide
  · decide
  · decide
  · decide
  · have hpair := hhex _ hcontrol.1
    simpa using hpair
  · simpa using Ne.symm hn

/-- A token that can be written stands on one line. -/
theorem TokenKind.lineFeed_not_mem_text {k : TokenKind} (h : k.Regular) : '\n' ∉ k.text := by
  cases k with
  | mark m => cases m <;> decide
  | name n => exact fun hmem => ne_lineFeed_of_isNameChar (isNameChar_of_isName h _ hmem) rfl
  | int s =>
    obtain ⟨n, hn, -, rfl⟩ := h
    simpa [TokenKind.text] using lineFeed_not_mem_numeral hn
  | float s =>
    obtain ⟨n, hn, -, rfl⟩ := h
    simpa [TokenKind.text] using lineFeed_not_mem_numeral hn
  | string s =>
    simp [TokenKind.text, stringText, lineFeed_not_mem_escape]

/-! ## Blanks -/

namespace Piece

/-- No blanks among the pieces end in a line feed or hold an empty line. -/
def Inline (ps : List Piece) : Prop := ∀ blanks, gap blanks ∈ ps → Solid blanks

@[simp] theorem inline_nil : Inline [] := nofun

@[simp] theorem inline_token (k : TokenKind) (ps : List Piece) :
    Inline (token k :: ps) ↔ Inline ps := by
  simp [Inline]

@[simp] theorem inline_comma (ps : List Piece) : Inline (comma :: ps) ↔ Inline ps := by
  simp [Inline]

@[simp] theorem inline_gap (blanks : List Char) (ps : List Piece) :
    Inline (gap blanks :: ps) ↔ Solid blanks ∧ Inline ps := by
  simp [Inline, forall_eq_or_imp]

@[simp] theorem inline_append (ps qs : List Piece) : Inline (ps ++ qs) ↔ Inline ps ∧ Inline qs := by
  simp [Inline, or_imp, forall_and]

theorem inline_flatMap {α : Type} {f : α → List Piece} {as : List α}
    (h : ∀ a ∈ as, Inline (f a)) : Inline (as.flatMap f) := by
  intro blanks hmem
  obtain ⟨a, ha, hblanks⟩ := List.mem_flatMap.1 hmem
  exact h a ha blanks hblanks

@[simp] theorem solid_space : Solid [' '] := solid_of_not_mem (by decide)

@[simp] theorem inline_newLine_succ (level : Nat) (ps : List Piece) :
    Inline (newLine (level + 1) :: ps) ↔ Inline ps := by
  have hblanks : Solid (List.replicate (2 * (level + 1)) ' ') := by
    refine solid_of_not_mem fun hmem => ?_
    cases (List.mem_replicate.1 hmem).2
  have hsolid : Solid ('\n' :: List.replicate (2 * (level + 1)) ' ') :=
    ⟨fun _ => ⟨' ', rfl, by decide⟩, hblanks⟩
  rw [newLine, inline_gap]
  exact and_iff_right hsolid

theorem solid_textOf_of_inline {ps : List Piece} (hgaps : Inline ps)
    (htokens : ∀ k, token k ∈ ps → k.Regular) : Solid (textOf ps) := by
  refine solid_textOf fun p hp => ?_
  cases p with
  | token k => exact solid_of_not_mem (TokenKind.lineFeed_not_mem_text (htokens k hp))
  | comma => exact solid_of_not_mem (by decide)
  | gap blanks => exact hgaps blanks hp

end Piece

mutual

theorem Value.inline_pieces : (v : Value) → Inline v.pieces
  | .var _ | .int _ | .float _ | .string _ | .boolean true | .boolean false | .null | .enum _ => by
    simp [Value.pieces]
  | .list vs => by simp [Value.pieces, inline_valuesPieces vs]
  | .object fs => by simp [Value.pieces, inline_fieldsPieces fs]

theorem inline_valuesPieces : (vs : List Value) → Inline (valuesPieces vs)
  | [] => inline_nil
  | [v] => v.inline_pieces
  | v :: w :: vs => by simp [valuesPieces, v.inline_pieces, inline_valuesPieces (w :: vs)]

theorem inline_fieldsPieces : (fs : List (Name × Value)) → Inline (fieldsPieces fs)
  | [] => inline_nil
  | [(_, v)] => by simp [fieldsPieces, v.inline_pieces]
  | (_, v) :: f :: fs => by simp [fieldsPieces, v.inline_pieces, inline_fieldsPieces (f :: fs)]

end

theorem inline_argumentsPieces (args : Arguments) : Inline (argumentsPieces args) := by
  unfold argumentsPieces
  split <;> simp [inline_fieldsPieces]

theorem inline_directivesPieces (ds : List Directive) : Inline (directivesPieces ds) :=
  inline_flatMap fun d _ => by simp [Directive.pieces, inline_argumentsPieces]

theorem inline_requiredPieces (required : Bool) : Inline (requiredPieces required) := by
  cases required <;> simp [requiredPieces]

theorem TypeRef.inline_pieces (t : TypeRef) : Inline t.pieces := by
  induction t with
  | named n required => simp [TypeRef.pieces, inline_requiredPieces]
  | list item required ih => simp [TypeRef.pieces, inline_requiredPieces, ih]

theorem inline_initialPieces (initial : Option Value) : Inline (initialPieces initial) := by
  cases initial with
  | none => exact inline_nil
  | some v => simp [initialPieces, v.inline_pieces]

theorem VariableDefinition.inline_pieces (v : VariableDefinition) : Inline v.pieces := by
  simp [VariableDefinition.pieces, TypeRef.inline_pieces, inline_initialPieces,
    inline_directivesPieces]

theorem inline_variablesPieces (vs : List VariableDefinition) : Inline (variablesPieces vs) := by
  have hlist : Inline (variablesListPieces vs) := by
    rw [variablesListPieces_eq]
    cases vs with
    | nil => exact inline_nil
    | cons v vs =>
      have hlater : Inline (vs.flatMap (afterComma VariableDefinition.pieces)) :=
        inline_flatMap fun w _ => by simp [afterComma, w.inline_pieces]
      simp [commaSeparated, v.inline_pieces, hlater]
  unfold variablesPieces
  split <;> simp [hlist]

theorem inline_typeConditionPieces (t : Option Name) : Inline (typeConditionPieces t) := by
  cases t <;> simp [typeConditionPieces]

theorem inline_labelPieces (label : Option Name) : Inline (labelPieces label) := by
  cases label <;> simp [labelPieces]

mutual

theorem Selection.inline_pieces (level : Nat) : (s : Selection) → Inline (s.pieces (level + 1))
  | .field label n args ds [] => by
    simp [Selection.pieces, inline_labelPieces, inline_argumentsPieces, inline_directivesPieces]
  | .field label n args ds (s :: ss) => by
    simp [Selection.pieces, inline_labelPieces, inline_argumentsPieces, inline_directivesPieces,
      inline_selectionsPieces level (s :: ss)]
  | .spread n ds => by simp [Selection.pieces, inline_directivesPieces]
  | .inlineFragment t ds ss => by
    simp [Selection.pieces, inline_typeConditionPieces, inline_directivesPieces,
      inline_selectionsPieces level ss]

theorem inline_selectionsPieces (level : Nat) :
    (ss : List Selection) → Inline (selectionsPieces (level + 1) ss)
  | [] => by simp [selectionsPieces]
  | s :: ss => by
    simp [selectionsPieces, s.inline_pieces (level + 1), inline_selectionsPieces level ss]

end

/-! ## Definitions -/

/-- Every token that the definition is written with can be written: its names are names, and its
numbers are numbers. -/
def Definition.WellSpelled (d : Definition) : Prop :=
  ∀ k, Piece.token k ∈ d.pieces false → k.Regular

theorem Piece.Spaced.regular {ps : List Piece} {w : Bool} (h : Spaced w ps) :
    ∀ k, Piece.token k ∈ ps → k.Regular := by
  induction ps generalizing w with
  | nil => exact nofun
  | cons p ps ih =>
    intro k hk
    cases p with
    | token k' =>
      obtain ⟨hk', -, hps⟩ := h
      rcases List.mem_cons.1 hk with heq | hk
      · cases heq
        exact hk'
      · exact ih hps k hk
    | comma => exact ih h k (by simpa using hk)
    | gap blanks => exact ih h.2.2 k (by simpa using hk)

/-- Definitions that were read are well spelled. -/
theorem Definition.IsRead.wellSpelled {d : Definition} (h : d.IsRead) : d.WellSpelled := by
  have hspaced := Definition.apart_pieces (d.isRead_iff.1 h) false [] trivial
  rw [List.append_nil] at hspaced
  exact hspaced.regular

/-- The first definition of a document is written with no other tokens. -/
theorem Definition.WellSpelled.regular {d : Definition} (h : d.WellSpelled) (first : Bool) :
    ∀ k, Piece.token k ∈ d.pieces first → k.Regular := by
  cases d with
  | fragment f => exact h
  | operation o =>
    intro k hk
    by_cases hplain : (first && o.isPlainQuery) = true
    -- Without its keyword it is a selection set, which also stands behind the keyword.
    · refine h k ?_
      have hset : Piece.token k ∈ selectionSetPieces o.selections := by
        simpa [Definition.pieces, Operation.pieces, hplain] using hk
      simp [Definition.pieces, Operation.pieces, hset]
    · refine h k ?_
      have hpieces : o.pieces first = o.pieces false := by simp [Operation.pieces, hplain]
      rw [Definition.pieces, hpieces] at hk
      exact hk

/-- No empty line stands in a selection set, nor at its end. -/
theorem solid_selectionSetPieces {ss : List Selection}
    (h : ∀ k, Piece.token k ∈ selectionSetPieces ss → k.Regular) :
    Solid (textOf (selectionSetPieces ss)) := by
  have hsplit : selectionSetPieces ss
      = (mark .braceOpen :: ss.flatMap (linePieces 1)) ++ [newLine 0, mark .braceClose] := by
    rw [selectionSetPieces, selectionsPieces_eq, List.cons_append]
  have hlines : Inline (mark .braceOpen :: ss.flatMap (linePieces 1)) := by
    have hflat : Inline (ss.flatMap (linePieces 1)) :=
      inline_flatMap fun s _ => by simp [linePieces, s.inline_pieces 0]
    simp [hflat]
  rw [hsplit] at h ⊢
  rw [textOf_append]
  refine (solid_textOf_of_inline hlines fun k hk => h k ?_).append ?_
  · exact List.mem_append_left _ hk
  · exact ⟨fun _ => ⟨'}', rfl, by decide⟩, solid_of_not_mem (by decide)⟩

/-- A definition is written as what stands on its first line, and a selection set. -/
theorem Definition.exists_pieces_eq (d : Definition) (first : Bool) :
    ∃ front ss, d.pieces first = front ++ selectionSetPieces ss ∧ Inline front := by
  cases d with
  | operation o =>
    show ∃ front ss, o.pieces first = front ++ selectionSetPieces ss ∧ Inline front
    unfold Operation.pieces
    split
    · exact ⟨[], o.selections, rfl, inline_nil⟩
    · refine ⟨_, o.selections, List.append_cons _ _ _, ?_⟩
      have hname : Inline (operationNamePieces o.name) := by
        cases o.name <;> simp [operationNamePieces]
      simp [hname, inline_variablesPieces, inline_directivesPieces]
  | fragment f =>
    refine ⟨_, f.selections, List.append_cons _ _ _, ?_⟩
    simp [inline_typeConditionPieces, inline_directivesPieces]

theorem Definition.WellSpelled.solid_textOf {d : Definition} (h : d.WellSpelled) (first : Bool) :
    Solid (textOf (d.pieces first)) := by
  have hregular := h.regular first
  obtain ⟨front, ss, hpieces, hfront⟩ := d.exists_pieces_eq first
  rw [hpieces] at hregular ⊢
  rw [textOf_append]
  refine (solid_textOf_of_inline hfront fun k hk => ?_).append
    (solid_selectionSetPieces fun k hk => ?_)
  · exact hregular k (List.mem_append_left _ hk)
  · exact hregular k (List.mem_append_right _ hk)

/-! ## Headings -/

/-- What a definition is known by: an operation by its type, a fragment by its name. -/
def Definition.heading : Definition → OperationType ⊕ Name
  | .operation o => .inl o.type
  | .fragment f => .inr f.name

/-- The heading of the definition with a text: the name behind the word for fragments, or the type
that the first word names, if there is one. -/
def headingOf (text : List Char) : OperationType ⊕ Name :=
  let word := String.ofList (text.takeWhile isNameChar)
  if word = "fragment" then
    .inr (String.ofList (((text.dropWhile isNameChar).drop 1).takeWhile isNameChar))
  else .inl ((operationType? word).getD .query)

theorem headingOf_operation (t : OperationType) {cs : List Char}
    (hcs : ∀ c ∈ cs.head?, isNameChar c = false) :
    headingOf (t.keyword.toList ++ cs) = .inl t := by
  obtain ⟨hne, htype⟩ := operationType?_keyword t
  unfold headingOf
  rw [(takeWhile_name (isName_keyword t) hcs).1, String.ofList_toList]
  show (if t.keyword = "fragment" then _ else Sum.inl ((operationType? t.keyword).getD .query)) = _
  rw [if_neg hne, htype, Option.getD_some]

theorem headingOf_fragment {n : Name} (hn : IsName n) {cs : List Char}
    (hcs : ∀ c ∈ cs.head?, isNameChar c = false) :
    headingOf ("fragment".toList ++ ' ' :: (n.toList ++ cs)) = .inr n := by
  have hkeyword : IsName "fragment" := isName_of_all rfl (by decide)
  have hblank : ∀ c ∈ (' ' :: (n.toList ++ cs)).head?, isNameChar c = false := by
    rintro c ⟨⟩
    decide
  obtain ⟨htake, hdrop⟩ := takeWhile_name hkeyword hblank
  unfold headingOf
  rw [htake, hdrop, String.ofList_toList]
  show (if "fragment" = "fragment" then
    Sum.inr (String.ofList ((n.toList ++ cs).takeWhile isNameChar)) else _) = _
  rw [if_pos rfl, (takeWhile_name hn hcs).1, String.ofList_toList]

/-- What stands behind the keyword of an operation goes on with no name. -/
theorem head_operation (o : Operation) (ss : List Selection) :
    ∀ c ∈ (textOf (operationNamePieces o.name ++ variablesPieces o.variableDefinitions
        ++ directivesPieces o.directives ++ space :: selectionSetPieces ss)).head?,
      isNameChar c = false := by
  have hblank : isNameChar ' ' = false := by decide
  have hparen : isNameChar '(' = false := by decide
  intro c hc
  cases hname : o.name with
  | some n =>
    rw [hname] at hc
    cases hc
    exact hblank
  | none =>
    rw [hname] at hc
    cases hvariables : o.variableDefinitions with
    | cons v vs =>
      rw [hvariables] at hc
      cases hc
      exact hparen
    | nil =>
      rw [hvariables] at hc
      cases hdirectives : o.directives <;> (rw [hdirectives] at hc; cases hc; exact hblank)

/-- The heading of a definition is read off its text. -/
theorem Definition.WellSpelled.headingOf_text {d : Definition} (h : d.WellSpelled) (first : Bool) :
    headingOf (textOf (d.pieces first)) = d.heading := by
  cases d with
  | operation o =>
    show headingOf (textOf (o.pieces first)) = .inl o.type
    unfold Operation.pieces
    split
    · rename_i hplain
      have htype : o.type = .query := by
        simp only [Operation.isPlainQuery, Bool.and_eq_true, decide_eq_true_eq] at hplain
        exact hplain.2.1.1.1
      rw [htype]
      rfl
    · exact headingOf_operation o.type (head_operation o o.selections)
  | fragment f =>
    have hname : IsName f.name := h (.name f.name) (by simp [Definition.pieces, Fragment.pieces])
    refine headingOf_fragment hname ?_
    rintro c ⟨⟩
    decide

/-! ## Documents -/

/-- Definitions that follow another one begin with the end of its last line, and end or go on with
an empty line. -/
theorem exists_textOf_laterPieces (ds : List Definition) :
    ∃ rest, textOf (laterPieces ds) = '\n' :: rest ∧ ∀ c ∈ rest.head?, c = '\n' := by
  cases ds with
  | nil => exact ⟨[], rfl, nofun⟩
  | cons d ds =>
    refine ⟨_, rfl, ?_⟩
    rintro c ⟨⟩
    rfl

/-- The text of definitions tells the text of the first one and that of the others. -/
theorem textOf_laterPieces_inj {d e : Definition} (hd : d.WellSpelled) (he : e.WellSpelled)
    {first : Bool} {ds es : List Definition}
    (h : textOf (d.pieces first ++ laterPieces ds) = textOf (e.pieces first ++ laterPieces es)) :
    d.heading = e.heading ∧ textOf (laterPieces ds) = textOf (laterPieces es) := by
  obtain ⟨rest, hds, hrest⟩ := exists_textOf_laterPieces ds
  obtain ⟨rest', hes, hrest'⟩ := exists_textOf_laterPieces es
  rw [textOf_append, textOf_append, hds, hes] at h
  obtain ⟨htext, rfl⟩ :=
    solid_append_inj (hd.solid_textOf first) (he.solid_textOf first) hrest hrest' h
  rw [← hd.headingOf_text first, ← he.headingOf_text first, htext, hds, hes]
  exact ⟨rfl, rfl⟩

theorem map_heading_eq_of_laterPieces {ds es : List Definition} (hds : ∀ x ∈ ds, x.WellSpelled)
    (hes : ∀ x ∈ es, x.WellSpelled) (h : textOf (laterPieces ds) = textOf (laterPieces es)) :
    ds.map Definition.heading = es.map Definition.heading := by
  induction ds generalizing es with
  | nil =>
    cases es with
    | nil => rfl
    | cons e es => cases h
  | cons d ds ih =>
    cases es with
    | nil => cases h
    | cons e es =>
      obtain ⟨hd, hds⟩ := List.forall_mem_cons.1 hds
      obtain ⟨he, hes⟩ := List.forall_mem_cons.1 hes
      have htext : textOf (d.pieces false ++ laterPieces ds)
          = textOf (e.pieces false ++ laterPieces es) :=
        (List.cons.inj (List.cons.inj h).2).2
      obtain ⟨hheading, hlater⟩ := textOf_laterPieces_inj hd he htext
      rw [List.map_cons, List.map_cons, hheading, ih hds hes hlater]

/-- Documents of one text have the same headings in the same order. -/
theorem map_heading_eq_of_text_eq {d e : Document} (hd : ∀ x ∈ d, x.WellSpelled)
    (he : ∀ x ∈ e, x.WellSpelled) (h : d.text = e.text) :
    d.map Definition.heading = e.map Definition.heading := by
  have hpieces : textOf (Document.pieces d) = textOf (Document.pieces e) := String.ofList_inj.1 h
  have hne : ∀ (x : Definition) (xs : List Definition),
      textOf (x.pieces true ++ laterPieces xs) ≠ [] := by
    intro x xs
    obtain ⟨rest, hrest, -⟩ := exists_textOf_laterPieces xs
    simp [hrest]
  cases d with
  | nil =>
    cases e with
    | nil => rfl
    | cons y ys => exact absurd hpieces.symm (hne y ys)
  | cons x xs =>
    cases e with
    | nil => exact absurd hpieces (hne x xs)
    | cons y ys =>
      obtain ⟨hx, hxs⟩ := List.forall_mem_cons.1 hd
      obtain ⟨hy, hys⟩ := List.forall_mem_cons.1 he
      obtain ⟨hheading, hlater⟩ := textOf_laterPieces_inj hx hy hpieces
      rw [List.map_cons, List.map_cons, hheading, map_heading_eq_of_laterPieces hxs hys hlater]

/-- The headings of a document tell the types of its operations and the names of its fragments. -/
theorem filterMap_typeOf?_eq (d : Document) :
    d.filterMap GraphqlClient.Operation.typeOf?
      = (d.map Definition.heading).filterMap Sum.getLeft? := by
  rw [List.filterMap_map]
  refine List.filterMap_congr fun x _ => ?_
  cases x <;> rfl

theorem fragmentNames_eq (d : Document) :
    fragmentNames d = (d.map Definition.heading).filterMap Sum.getRight? := by
  rw [List.filterMap_map, fragmentNames]
  refine List.filterMap_congr fun x _ => ?_
  cases x <;> rfl

end GraphqlClient.Syntax
