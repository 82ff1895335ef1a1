import GraphqlClient.Proofs.Syntax.Legal
import GraphqlClient.Proofs.Syntax.ReadsBack

/-!
# Every construct is read back

For each construct of the grammar, the reader of the construct reads back what the writer writes,
provided that it can be written at all (`Legal`). The proofs follow the writer: a construct is read
back because its parts are, in order.
-/

namespace GraphqlClient.Syntax

open Reader Piece

/-- Anything may follow. -/
def Always (_ : Option TokenKind) : Prop := True

/-! ## Values -/

section

variable {constant : Bool} {b : Nat} {flag : Bool}

/-- The reader of the values inside a value with a nesting budget. -/
def innerValue (constant : Bool) : Nat → Reader Token Value
  | 0 => refuse
  | b + 1 => readValue constant b

theorem readValue_eq (constant : Bool) (b : Nat) :
    readValue constant b = readValueWith constant (innerValue constant b) := by
  cases b with
  | zero => rfl
  | succ b => rfl

theorem innerValue_eq (constant : Bool) (h : 0 < b) :
    innerValue constant b = readValue constant (b - 1) := by
  cases b with
  | zero => cases h
  | succ b => rfl

theorem Value.next?_pieces (v : Value) :
    ∃ k, next? v.pieces = some k ∧ k ≠ .mark .bracketClose := by
  cases v with
  | boolean x => cases x <;> exact ⟨_, rfl, nofun⟩
  | _ => exact ⟨_, rfl, nofun⟩

theorem readsBack_field {value : Reader Token Value} {f : Name × Value}
    (h : ∀ flag, ReadsBack flag Always value f.2 f.2.pieces) :
    ReadsBack flag Always (readField value) (some f) (fieldPieces f) := by
  have hvalue := (h false).bind_pure (f := fun v => some (f.1, v))
  exact .bind_name (.ifMark (.bind_mark (.space hvalue)) rfl)

theorem readsBack_items {inner : Reader Token Value} {vs : List Value}
    (h : ∀ v ∈ vs, ∀ flag, ReadsBack flag Always inner v v.pieces) :
    ReadsBack false Always (readItems inner) (.list vs)
      (valuesPieces vs ++ [mark .bracketClose]) := by
  have hitems : ReadsBack false (fun k => (!isMarkNext .bracketClose k) = false ∧ Always k)
      (many (!opensMark .bracketClose ·) inner) (vs.map id) (commaSeparated Value.pieces vs) := by
    refine .many_commaSeparated (fun b ps => not_opensMark_tokensOf b ps _) h fun v _ => ?_
    obtain ⟨k, hk, hne⟩ := v.next?_pieces
    exact ⟨k, hk, by simpa [isMarkNext] using hne, trivial⟩
  rw [List.map_id, ← valuesPieces_eq] at hitems
  exact hitems.bind (.bind_mark .pure) fun k _ => ⟨rfl, trivial⟩

theorem readsBack_fields {value : Reader Token Value} {fs : List (Name × Value)}
    (h : ∀ f ∈ fs, ∀ flag, ReadsBack flag Always value f.2 f.2.pieces) :
    ReadsBack false (fun k => isNameNext k = false ∧ Always k)
      (many opensName (readField value)) (fs.map some) (fieldsPieces fs) := by
  rw [fieldsPieces_eq]
  exact .many_commaSeparated opensName_tokensOf (fun f hf flag => readsBack_field (h f hf))
    fun f _ => ⟨_, rfl, rfl, trivial⟩

theorem filterMap_id_map_some {α : Type} (as : List α) : (as.map some).filterMap id = as := by
  rw [List.filterMap_map]
  exact List.filterMap_some

theorem readsBack_object {inner : Reader Token Value} {fs : List (Name × Value)}
    (h : ∀ f ∈ fs, ∀ flag, ReadsBack flag Always inner f.2 f.2.pieces) :
    ReadsBack false Always (readFields inner) (.object fs)
      (fieldsPieces fs ++ [mark .braceClose]) := by
  refine (readsBack_fields h).bind (.bind_mark ?_) fun k _ => ⟨rfl, trivial⟩
  rw [filterMap_id_map_some]
  exact .pure

/-- A value is read back within the budget that it can be written in. -/
theorem readsBack_value {v : Value} (h : v.Legal constant b) (flag : Bool) :
    ReadsBack flag Always (readValue constant b) v v.pieces := by
  induction h generalizing flag with
  | @var b n hconstant hname =>
    subst hconstant
    rw [readValue_eq]
    exact fun qs _ => rfl
  | int hs =>
    rw [readValue_eq]
    exact fun qs _ => rfl
  | float hs =>
    rw [readValue_eq]
    exact fun qs _ => rfl
  | string =>
    rw [readValue_eq]
    exact fun qs _ => rfl
  | @boolean b x =>
    rw [readValue_eq]
    cases x with
    | true => exact fun qs _ => rfl
    | false => exact fun qs _ => rfl
  | null =>
    rw [readValue_eq]
    exact fun qs _ => rfl
  | @enum b n hname hkeyword =>
    rw [readValue_eq]
    intro qs _
    show some (nameValue n, tokensOf false qs) = _
    rw [hkeyword]
  | @list b vs hnesting hitems ih =>
    have hinner : ∀ v ∈ vs, ∀ flag, ReadsBack flag Always (innerValue constant b) v v.pieces := by
      intro v hv
      rw [innerValue_eq constant (hnesting (List.ne_nil_of_mem hv))]
      exact ih v hv
    rw [readValue_eq]
    exact readsBack_items hinner
  | @object b fs hnesting hnames hvalues ih =>
    have hinner : ∀ f ∈ fs, ∀ flag,
        ReadsBack flag Always (innerValue constant b) f.2 f.2.pieces := by
      intro f hf
      rw [innerValue_eq constant (hnesting (List.ne_nil_of_mem hf))]
      exact ih f hf
    rw [readValue_eq]
    exact readsBack_object hinner

/-! ## Arguments and directives -/

theorem readsBack_arguments {args : Arguments} (h : ∀ a ∈ args, ArgumentLegal constant b a) :
    ReadsBack false (Clear [.parenOpen]) (readArguments (readValue constant b)) args
      (argumentsPieces args) := by
  unfold argumentsPieces
  cases args with
  | nil => exact .ifMark_otherwise
  | cons a args =>
    have hfields := readsBack_fields fun a ha => readsBack_value (h a ha).value
    refine .ifMark (.bind_mark ((hfields.many1 (List.cons_ne_nil _ _)).bind (.bind_mark ?_)
      fun k _ => ⟨rfl, trivial⟩)) rfl
    rw [filterMap_id_map_some]
    exact .pure

theorem opens_argumentsPieces (args : Arguments) : Opens [.parenOpen] (argumentsPieces args) := by
  cases args with
  | nil => exact .inl rfl
  | cons a args => exact .inr ⟨_, List.mem_cons_self, rfl⟩

theorem opens_directivesPieces (ds : List Directive) : Opens [.atSign] (directivesPieces ds) := by
  cases ds with
  | nil => exact .inl rfl
  | cons d ds => exact .inr ⟨_, List.mem_cons_self, rfl⟩

theorem readsBack_directive {d : Directive} (h : d.Legal constant b) :
    ReadsBack false (Clear [.parenOpen]) (readDirective (readValue constant b)) d d.pieces := by
  refine .space (.bind_mark (.bind_name ?_))
  exact (readsBack_arguments h.arguments).bind_pure (f := Directive.mk d.name)

theorem readsBack_directives {ds : List Directive} (h : ∀ d ∈ ds, d.Legal constant b) :
    ReadsBack false (Clear [.atSign, .parenOpen]) (readDirectives (readValue constant b)) ds
      (directivesPieces ds) := by
  have hds := ReadsBack.many_flatMap (o := isMarkNext .atSign) (g := id)
    (fun b ps => opensMark_tokensOf b ps .atSign) (fun d hd => readsBack_directive (h d hd))
    fun d _ => ⟨.mark .atSign, rfl, rfl, clear_mark (by decide)⟩
  rw [List.map_id] at hds
  refine hds.weaken fun k hk => ⟨?_, hk.mono (by decide)⟩
  exact decide_eq_false (hk .atSign (by decide))

end

/-! ## Variables -/

theorem readsBack_required (required : Bool) :
    ReadsBack false (Clear [.bang]) readRequired required (requiredPieces required) := by
  cases required with
  | true => exact .ifMark (.bind_mark .pure) rfl
  | false => exact .ifMark_otherwise

theorem readsBack_type {b : Nat} {t : TypeRef} (h : t.Legal b) (flag : Bool) :
    ReadsBack flag (Clear [.bang]) (readType b) t t.pieces := by
  induction h generalizing flag with
  | @named b n required hname =>
    have hwith : ∀ inner, ReadsBack flag (Clear [.bang]) (readTypeWith inner) (.named n required)
        (TypeRef.named n required).pieces := fun inner =>
      .ite_not_opens (k := .name n) (.bind_name (readsBack_required required).bind_pure) rfl nofun
    cases b with
    | zero => exact hwith refuse
    | succ b => exact hwith (readType b)
  | @list b item required hitem ih =>
    have hrest := (readsBack_required required).bind_pure (f := TypeRef.list item)
    refine .ite_opens (.bind_mark ((ih false).bind (.bind_mark hrest) fun k _ => ?_)) rfl
    exact clear_mark (by decide)

theorem readsBack_initial {initial : Option Value}
    (h : ∀ v ∈ initial, v.Legal true maxNesting) :
    ReadsBack false (Clear [.equals]) (readInitial (readValue true maxNesting)) initial
      (initialPieces initial) := by
  cases initial with
  | none => exact .ifMark_otherwise
  | some v =>
    have hvalue := (readsBack_value (h v rfl) false).bind_pure (f := some)
    exact .space (.ifMark (.bind_mark (.space (hvalue.weaken fun _ _ => trivial))) rfl)

theorem opens_initialPieces (initial : Option Value) : Opens [.equals] (initialPieces initial) := by
  cases initial with
  | none => exact .inl rfl
  | some v => exact .inr ⟨_, List.mem_cons_self, rfl⟩

theorem readsBack_variable {v : VariableDefinition} (h : v.Legal) (flag : Bool) :
    ReadsBack flag (Clear [.bang, .equals, .atSign, .parenOpen]) readVariable v v.pieces := by
  have hdirectives := opens_directivesPieces v.directives
  have hopens := (opens_initialPieces v.initial).append hdirectives
  unfold VariableDefinition.pieces readVariable
  simp only [List.cons_append, List.append_assoc]
  refine .bind_mark (.bind_name (.bind_mark (.space ?_)))
  refine .bind_opens (readsBack_type h.type false) ?_ hopens (by decide)
  refine .bind_opens (readsBack_initial h.initial) ?_ hdirectives (by decide)
  exact (readsBack_directives h.directives).bind_pure.weaken fun k hk => hk.mono (by decide)

theorem readsBack_variables {vs : List VariableDefinition} (h : ∀ v ∈ vs, v.Legal) :
    ReadsBack false (Clear [.parenOpen]) readVariables vs (variablesPieces vs) := by
  unfold variablesPieces
  cases vs with
  | nil => exact .ifMark_otherwise
  | cons v vs =>
    have hvs := ReadsBack.many_commaSeparated (o := isMarkNext .dollar) (g := id)
      (f := VariableDefinition.pieces)
      (fun b ps => opensMark_tokensOf b ps .dollar) (fun v hv => readsBack_variable (h v hv))
      fun v _ => ⟨.mark .dollar, rfl, rfl, clear_mark (by decide)⟩
    rw [List.map_id, ← variablesListPieces_eq] at hvs
    refine .ifMark (.bind_mark ((hvs.many1 (List.cons_ne_nil v vs)).bind (.bind_mark .pure) ?_)) rfl
    exact fun k _ => ⟨rfl, clear_mark (by decide)⟩

/-! ## Selections -/

/-- What may not follow a field. -/
def afterField : List Mark := [.colon, .parenOpen, .atSign, .braceOpen]

theorem Selection.next?_pieces (level : Nat) (s : Selection) :
    ∃ k, next? (s.pieces level) = some k ∧ k ≠ .mark .braceClose ∧ Clear afterField (some k) := by
  cases s with
  | field label n args ds ss =>
    rw [pieces_field]
    cases label with
    | none => exact ⟨.name n, rfl, nofun, clear_name _ n⟩
    | some l => exact ⟨.name l, rfl, nofun, clear_name _ l⟩
  | spread n ds => exact ⟨.mark .spread, rfl, nofun, clear_mark (by decide)⟩
  | inlineFragment t ds ss => exact ⟨.mark .spread, rfl, nofun, clear_mark (by decide)⟩

theorem readsBack_fieldName (label : Option Name) (n : Name) (flag : Bool) :
    ReadsBack flag (Clear [.colon]) readFieldName (label, n) (labelPieces label ++ [.name n]) := by
  cases label with
  | some l => exact fun qs _ => rfl
  | none =>
    refine .bind_name ?_
    intro qs hqs
    have hcolon : ∀ ts, tokensOf false qs ≠ ⟨.mark .colon, false⟩ :: ts := by
      intro ts hts
      have hnext := head?_tokensOf false qs
      rw [hts] at hnext
      exact hqs .colon (List.mem_singleton_self _) hnext.symm
    have hget : (get : Reader Token (List Token)) (tokensOf false qs)
        = some (tokensOf false qs, tokensOf false qs) := rfl
    rw [List.nil_append, bind_eq hget]
    refine congrFun (?_ : _ = (pure (none, n) : Reader Token (Option Name × Name))) _
    split
    · rename_i hts
      exact absurd hts (hcolon _)
    · rfl

section

variable {b : Nat} {ss : List Selection} {level : Nat}

/-- The reader of a selection within a nesting budget. -/
abbrev readSelectionAt (b : Nat) : Reader Token Selection :=
  readSelection (readValue false b) (readSelectionSet b)

theorem readsBack_set (hne : ss ≠ [])
    (h : ∀ s ∈ ss, ReadsBack false (Clear afterField) (readSelectionAt b) s (s.pieces (level + 1)))
    (flag : Bool) :
    ReadsBack flag Always (readSelectionSet (b + 1)) ss
      (mark .braceOpen :: selectionsPieces level ss) := by
  have hss : ReadsBack false (fun k => (!isMarkNext .braceClose k) = false ∧ Clear afterField k)
      (many (!opensMark .braceClose ·) (readSelectionAt b)) (ss.map id)
      (ss.flatMap (linePieces (level + 1))) := by
    refine .many_flatMap (fun b ps => not_opensMark_tokensOf b ps _)
      (fun s hs => .newLine _ (h s hs)) fun s _ => ?_
    obtain ⟨k, hk, hne, hclear⟩ := s.next?_pieces (level + 1)
    exact ⟨k, hk, by simpa [isMarkNext] using hne, hclear⟩
  rw [List.map_id] at hss
  rw [selectionsPieces_eq]
  refine .bind_mark ((hss.many1 hne).bind (.newLine level (.bind_mark .pure)) ?_)
  exact fun k _ => ⟨rfl, clear_mark (by decide)⟩

theorem readsBack_optionalSet
    (h : ss ≠ [] → ∀ flag, ReadsBack flag Always (readSelectionSet b) ss
      (mark .braceOpen :: selectionsPieces level ss)) :
    ReadsBack false (Clear [.braceOpen]) (readOptionalSet (readSelectionSet b)) ss
      (optionalSetPieces level ss) := by
  cases ss with
  | nil => exact .ifMark_otherwise
  | cons s ss =>
    have hset := h (List.cons_ne_nil s ss) false
    exact .space (.ifMark (hset.weaken fun _ _ => trivial) rfl)

theorem opens_optionalSetPieces (level : Nat) (ss : List Selection) :
    Opens [.braceOpen] (optionalSetPieces level ss) := by
  cases ss with
  | nil => exact .inl rfl
  | cons s ss => exact .inr ⟨_, List.mem_cons_self, rfl⟩

theorem readsBack_typeCondition (t : Option Name) :
    ReadsBack false (fun k => isNameNext k = false) readOptionalCondition t
      (typeConditionPieces t) := by
  cases t with
  | none => exact .ite_opensName_otherwise
  | some n => exact fun qs _ => rfl

theorem readsBack_selection {s : Selection} (h : s.Legal b) (level : Nat) (flag : Bool) :
    ReadsBack flag (Clear afterField) (readSelectionAt b) s (s.pieces level) := by
  induction h generalizing level flag with
  | @field b label n args ds ss hlabel hname harguments hdirectives hnesting hss ih =>
    have hset : ss ≠ [] → ∀ flag, ReadsBack flag Always (readSelectionSet b) ss
        (mark .braceOpen :: selectionsPieces level ss) := by
      intro hne
      obtain ⟨b, rfl⟩ := Nat.exists_eq_add_of_lt (hnesting hne)
      rw [Nat.zero_add] at ih ⊢
      exact readsBack_set hne fun s hs => ih s hs (level + 1) false
    have hopens := (opens_directivesPieces ds).append (opens_optionalSetPieces level ss)
    rw [pieces_field]
    refine .ite_not_opens (k := .name (label.getD n)) ?_ ?_ nofun
    · refine .bind_opens (readsBack_fieldName label n flag) ?_
        ((opens_argumentsPieces args).append hopens) (by decide)
      refine .bind_opens (readsBack_arguments harguments) ?_ hopens (by decide)
      refine .bind_opens (readsBack_directives hdirectives) ?_
        (opens_optionalSetPieces level ss) (by decide)
      exact (readsBack_optionalSet hset).bind_pure.weaken fun k hk => hk.mono (by decide)
    · cases label <;> rfl
  | @spread b n ds hname hne hdirectives =>
    refine .ite_opens (.bind_mark ?_) rfl
    have hspread : ReadsBack false (Clear afterField) (readSpread (readValue false b))
        (.spread n ds) (.name n :: directivesPieces ds) :=
      .bind_name ((readsBack_directives hdirectives).bind_pure.weaken
        fun k hk => hk.mono (by decide))
    intro qs hqs
    show (if n = "on" then _ else readSpread (readValue false b) _) = _
    rw [if_neg hne]
    exact hspread qs hqs
  | @inlineFragment b t ds ss htype hdirectives hne hnesting hss ih =>
    obtain ⟨b, rfl⟩ := Nat.exists_eq_add_of_lt hnesting
    rw [Nat.zero_add] at ih hdirectives ⊢
    have hset := readsBack_set hne (fun s hs => ih s hs (level + 1) false) false
    have hfragment : ReadsBack false (Clear afterField)
        (readInlineFragment (readValue false (b + 1)) (readSelectionSet (b + 1)))
        (.inlineFragment t ds ss) (typeConditionPieces t ++ (directivesPieces ds
          ++ space :: mark .braceOpen :: selectionsPieces level ss)) := by
      refine (readsBack_typeCondition t).bind ((readsBack_directives hdirectives).bind
        (.space (hset.bind_pure.weaken fun _ _ => trivial)) fun k _ => clear_mark (by decide)) ?_
      intro k _
      cases ds <;> rfl
    have hpieces : (Selection.inlineFragment t ds ss).pieces level
        = mark .spread :: (typeConditionPieces t ++ (directivesPieces ds
          ++ space :: mark .braceOpen :: selectionsPieces level ss)) := by
      simp [Selection.pieces]
    rw [hpieces]
    refine .ite_opens (.bind_mark ?_) rfl
    intro qs hqs
    rw [← hfragment qs hqs]
    cases t with
    | none => cases ds <;> rfl
    | some n => rfl

end

/-! ## Definitions -/

theorem readsBack_selectionSet {b : Nat} {ss : List Selection} (h : SelectionSetLegal b ss)
    (flag : Bool) :
    ReadsBack flag Always (readSelectionSet b) ss (selectionSetPieces ss) := by
  obtain ⟨b, rfl⟩ := Nat.exists_eq_add_of_lt h.nesting
  rw [Nat.zero_add] at h ⊢
  exact readsBack_set h.ne_nil (fun s hs => readsBack_selection (h.selections s hs) 1 false) flag

theorem readsBack_operationName (name : Option Name) :
    ReadsBack false (fun k => isNameNext k = false) readOptionalName name
      (operationNamePieces name) := by
  cases name with
  | none => exact .ite_opensName_otherwise
  | some n => exact fun qs _ => rfl

/-- The pieces of an operation behind its keyword. -/
def operationTail (o : Operation) : List Piece :=
  operationNamePieces o.name ++ (variablesPieces o.variableDefinitions
    ++ (directivesPieces o.directives ++ space :: selectionSetPieces o.selections))

theorem readsBack_operation {o : Operation} (h : o.Legal) :
    ReadsBack false Always (readOperation o.type) o (operationTail o) := by
  have hset := readsBack_selectionSet h.selections false
  refine (readsBack_operationName o.name).bind ((readsBack_variables h.variableDefinitions).bind
    ((readsBack_directives h.directives).bind (.space hset.bind_pure)
      fun k _ => clear_mark (by decide)) ?_) ?_
  · intro k _
    cases o.directives with
    | nil => exact clear_mark (by decide)
    | cons d ds => exact clear_mark (by decide)
  · intro k _
    cases o.variableDefinitions with
    | nil => cases o.directives <;> rfl
    | cons v vs => rfl

theorem operationType?_keyword (t : OperationType) :
    t.keyword ≠ "fragment" ∧ operationType? t.keyword = some t := by
  cases t <;> decide

/-- The pieces of a fragment behind its keyword. -/
def fragmentTail (f : Fragment) : List Piece :=
  space :: .name f.name :: (space :: .name "on" :: space :: .name f.typeCondition
    :: (directivesPieces f.directives ++ space :: selectionSetPieces f.selections))

theorem readsBack_fragment {f : Fragment} (h : f.Legal) :
    ReadsBack false Always readFragment f (fragmentTail f) := by
  have hset := readsBack_selectionSet h.selections false
  refine .space (.bind_name ?_)
  rw [if_neg h.ne_on]
  refine .space (.bind_keyword (.space (.bind_name ((readsBack_directives h.directives).bind
    (.space hset.bind_pure) ?_))))
  exact fun k _ => clear_mark (by decide)

theorem readsBack_definition {d : Definition} (h : d.Legal) (first flag : Bool) :
    ReadsBack flag Always readDefinition d (d.pieces first) := by
  cases d with
  | operation o =>
    have hoperation := (readsBack_operation h).map (f := Definition.operation)
    show ReadsBack flag Always readDefinition _ (o.pieces first)
    unfold Operation.pieces
    split
    · rename_i hplain
      have hset := (readsBack_selectionSet h.selections flag).map
        (f := fun ss => Definition.operation ⟨.query, none, [], [], ss⟩)
      have ho : (⟨.query, none, [], [], o.selections⟩ : Operation) = o := by
        simp only [Operation.isPlainQuery, Bool.and_eq_true, decide_eq_true_eq,
          Option.isNone_iff_eq_none, List.isEmpty_iff] at hplain
        obtain ⟨-, ⟨⟨htype, hname⟩, hvariables⟩, hdirectives⟩ := hplain
        rw [← htype, ← hname, ← hvariables, ← hdirectives]
      rw [ho] at hset
      exact hset
    · have hpieces : (Piece.name o.type.keyword :: operationNamePieces o.name
          ++ variablesPieces o.variableDefinitions ++ directivesPieces o.directives
          ++ space :: selectionSetPieces o.selections)
        = .name o.type.keyword :: operationTail o := by simp [operationTail]
      rw [hpieces]
      obtain ⟨hne, htype⟩ := operationType?_keyword o.type
      intro qs hqs
      show (if o.type.keyword = "fragment" then _ else _) = _
      rw [if_neg hne, htype]
      exact hoperation qs hqs
  | fragment f =>
    have hpieces : (Definition.fragment f).pieces first = .name "fragment" :: fragmentTail f := by
      simp [Definition.pieces, Fragment.pieces, fragmentTail, typeConditionPieces]
    rw [hpieces]
    exact (readsBack_fragment h).map

theorem Definition.next?_pieces (first : Bool) (d : Definition) :
    ∃ k, next? (d.pieces first) = some k := by
  cases d with
  | operation o =>
    show ∃ k, next? (o.pieces first) = some k
    unfold Operation.pieces
    split <;> exact ⟨_, rfl⟩
  | fragment f => exact ⟨_, rfl⟩

/-- A document is read back from its tokens. -/
theorem ofTokens?_tokensOf {d : Document} (h : DocumentLegal d) :
    Document.ofTokens? (tokensOf false (Document.pieces d)) = some d := by
  obtain ⟨x, xs, rfl⟩ := List.exists_cons_of_ne_nil h.ne_nil
  obtain ⟨hx, hxs⟩ := List.forall_mem_cons.1 h.definitions
  have hopens : ∀ b ps, (!(tokensOf b ps).isEmpty) = !(next? ps).isNone := fun b ps => by
    rw [isEmpty_tokensOf]
  have hlater : ReadsBack false (fun k => (!k.isNone) = false ∧ Always k)
      (many (!·.isEmpty) readDefinition) (xs.map id) (xs.flatMap laterDefinitionPieces) := by
    refine .many_flatMap hopens (fun y hy => readsBack_definition (hxs y hy) false false)
      fun y _ => ?_
    obtain ⟨k, hk⟩ := y.next?_pieces false
    exact ⟨k, hk, rfl, trivial⟩
  obtain ⟨k, hk⟩ := x.next?_pieces true
  have hall := ReadsBack.many_cons (o := fun k => !k.isNone) hopens
    (readsBack_definition hx true false) hlater hk rfl fun _ _ => trivial
  rw [List.map_id] at hall
  have hread := hall.many1 (List.cons_ne_nil x xs) [newLine 0] ⟨rfl, trivial⟩
  rw [List.append_assoc, ← laterPieces_eq] at hread
  show Reader.whole _ (tokensOf false (x.pieces true ++ laterPieces xs)) = _
  rw [Reader.whole, hread]
  rfl

end GraphqlClient.Syntax
