import GraphqlClient.Proofs.Syntax.Pieces
import GraphqlClient.Proofs.Syntax.TokenText

/-!
# Written documents keep words apart

In the pieces of a document that can be written, a blank, a comma or a punctuation mark stands
between any two words (`spaced_pieces`). This is composed from `Apart`: a construct keeps words
apart whatever follows it, provided that what follows does not begin with a word.
-/

namespace GraphqlClient.Syntax

namespace Piece

/-- The pieces can be told apart, behind a word or not, before anything that can be told apart
behind a word. -/
def Apart (w : Bool) (ps : List Piece) : Prop := ∀ qs, Spaced true qs → Spaced w (ps ++ qs)

namespace Apart

variable {w : Bool} {ps qs : List Piece}

theorem nil : Apart w [] := fun _ h => h.of_afterWord w

theorem weaken (h : Apart true ps) : Apart w ps := fun qs hqs => (h qs hqs).of_afterWord w

theorem append (hps : Apart w ps) (hqs : Apart true qs) : Apart w (ps ++ qs) := by
  intro rs hrs
  rw [List.append_assoc]
  exact hps _ (hqs rs hrs)

theorem mark {m : Mark} (hm : m ≠ .spread) (h : Apart false ps) :
    Apart w (Piece.mark m :: ps) := by
  intro qs hqs
  refine ⟨trivial, fun hjoins => hm ?_, h qs hqs⟩
  exact of_decide_eq_true hjoins.2

theorem spread (h : Apart false ps) : Apart false (Piece.mark .spread :: ps) :=
  fun qs hqs => ⟨trivial, fun hjoins => Bool.false_ne_true hjoins.1, h qs hqs⟩

theorem word {k : TokenKind} (hk : k.Regular) (h : Apart true ps) : Apart false (.token k :: ps) :=
  fun qs hqs => ⟨hk, fun hjoins => Bool.false_ne_true hjoins.1, (h qs hqs).of_afterWord k.isWord⟩

theorem name {n : Name} (hn : IsName n) (h : Apart true ps) : Apart false (Piece.name n :: ps) :=
  word (k := .name n) hn h

theorem gap {blanks : List Char} (hne : blanks ≠ []) (hall : ∀ c ∈ blanks, isBlank c = true)
    (h : Apart false ps) : Apart w (.gap blanks :: ps) :=
  fun qs hqs => ⟨hne, hall, h qs hqs⟩

theorem space (h : Apart false ps) : Apart w (Piece.space :: ps) :=
  gap (List.cons_ne_nil _ _) (List.forall_mem_singleton.2 rfl) h

theorem newLine (level : Nat) (h : Apart false ps) : Apart w (Piece.newLine level :: ps) := by
  refine gap (List.cons_ne_nil _ _) ?_ h
  intro c hc
  rcases List.mem_cons.1 hc with rfl | hc
  · decide
  · rw [(List.mem_replicate.1 hc).2]
    decide

theorem comma (h : Apart false ps) : Apart w (.comma :: ps) := h

/-- Items one after the other are kept apart if each begins with what no word goes on with. -/
theorem flatMap {α : Type} {f : α → List Piece} {as : List α} (h : ∀ a ∈ as, Apart true (f a)) :
    Apart true (as.flatMap f) := by
  induction as with
  | nil => exact nil
  | cons a as ih =>
    exact (h a List.mem_cons_self).append (ih fun x hx => h x (List.mem_cons_of_mem a hx))

/-- Items between commas are kept apart if each of them is. -/
theorem commaSeparated {α : Type} {f : α → List Piece} {as : List α}
    (h : ∀ a ∈ as, Apart false (f a)) : Apart false (commaSeparated f as) := by
  cases as with
  | nil => exact nil
  | cons a as =>
    have hlater : ∀ x ∈ as, Apart true (afterComma f x) := fun x hx =>
      comma (h x (List.mem_cons_of_mem a hx))
    exact (h a List.mem_cons_self).append (flatMap hlater)

end Apart

end Piece

open Piece

/-! ## Values, arguments and directives -/

section

variable {constant : Bool} {b : Nat}

theorem Value.apart_pieces {v : Value} (h : v.Legal constant b) : Apart false v.pieces := by
  induction h with
  | var _ hname => exact .mark (by decide) (.name hname .nil)
  | int hs => exact .word hs .nil
  | float hs => exact .word hs .nil
  | string => exact .word trivial .nil
  | @boolean _ x =>
    cases x with
    | true => exact .name (isName_of_all rfl (by decide)) .nil
    | false => exact .name (isName_of_all rfl (by decide)) .nil
  | null => exact .name (isName_of_all rfl (by decide)) .nil
  | enum hname _ => exact .name hname .nil
  | list _ _ ih =>
    rw [Value.pieces, valuesPieces_eq]
    exact (Apart.mark (by decide) (.commaSeparated ih)).append (.mark (by decide) .nil)
  | object _ hnames _ ih =>
    have hfields : ∀ f ∈ _, Apart false (fieldPieces f) := fun f hf =>
      .name (hnames f hf) (.mark (by decide) (.space (ih f hf)))
    rw [Value.pieces, fieldsPieces_eq]
    exact (Apart.mark (by decide) (.commaSeparated hfields)).append (.mark (by decide) .nil)

theorem apart_argumentsPieces {args : Arguments} (h : ∀ a ∈ args, ArgumentLegal constant b a)
    (w : Bool) : Apart w (argumentsPieces args) := by
  unfold argumentsPieces
  split
  · exact .nil
  · rw [fieldsPieces_eq]
    refine (Apart.mark (by decide) (.commaSeparated fun a ha => ?_)).append (.mark (by decide) .nil)
    exact .name (h a ha).name (.mark (by decide) (.space (Value.apart_pieces (h a ha).value)))

theorem apart_directivesPieces {ds : List Directive} (h : ∀ d ∈ ds, d.Legal constant b) :
    Apart true (directivesPieces ds) := by
  refine .flatMap fun d hd => .space (.mark (by decide) ?_)
  exact .name (h d hd).name (apart_argumentsPieces (h d hd).arguments true)

end

/-! ## Variables -/

theorem apart_requiredPieces (required : Bool) : Apart true (requiredPieces required) := by
  cases required with
  | true => exact .mark (by decide) .nil
  | false => exact .nil

theorem TypeRef.apart_pieces {b : Nat} {t : TypeRef} (h : t.Legal b) : Apart false t.pieces := by
  induction h with
  | named hname => exact .name hname (apart_requiredPieces _)
  | list _ ih =>
    exact (Apart.mark (by decide) ih).append (.mark (by decide) (apart_requiredPieces _).weaken)

theorem apart_initialPieces {initial : Option Value}
    (h : ∀ v ∈ initial, v.Legal true maxNesting) : Apart true (initialPieces initial) := by
  cases initial with
  | none => exact .nil
  | some v => exact .space (.mark (by decide) (.space (Value.apart_pieces (h v rfl))))

theorem VariableDefinition.apart_pieces {v : VariableDefinition} (h : v.Legal) :
    Apart false v.pieces := by
  have htype := (TypeRef.apart_pieces h.type).append (apart_initialPieces h.initial)
  have hname : Apart false (.name v.name :: mark .colon :: space :: (_ ++ _)) :=
    .name h.name (.mark (by decide) (.space htype))
  exact (Apart.mark (by decide) hname).append (apart_directivesPieces h.directives)

theorem apart_variablesPieces {vs : List VariableDefinition} (h : ∀ v ∈ vs, v.Legal) :
    Apart true (variablesPieces vs) := by
  unfold variablesPieces
  split
  · exact .nil
  · rw [variablesListPieces_eq]
    refine (Apart.mark (by decide) (.commaSeparated fun v hv => ?_)).append (.mark (by decide) .nil)
    exact VariableDefinition.apart_pieces (h v hv)

/-! ## Selections -/

theorem apart_labelPieces {label : Option Name} {n : Name} (hlabel : ∀ l ∈ label, IsName l)
    (hn : IsName n) : Apart false (labelPieces label ++ [.name n]) := by
  have hname : Apart false [.name n] := .name hn .nil
  cases label with
  | none => exact hname
  | some l => exact .name (hlabel l rfl) (.mark (by decide) (.space hname))

theorem apart_typeConditionPieces {t : Option Name} (ht : ∀ n ∈ t, IsName n) :
    Apart true (typeConditionPieces t) := by
  cases t with
  | none => exact .nil
  | some n =>
    have hon : IsName "on" := isName_of_all rfl (by decide)
    exact .space (.name hon (.space (.name (ht n rfl) .nil)))

theorem apart_selectionsPieces {ss : List Selection} (level : Nat)
    (h : ∀ s ∈ ss, Apart false (s.pieces (level + 1))) :
    Apart true (selectionsPieces level ss) := by
  rw [selectionsPieces_eq]
  refine (Apart.flatMap fun s hs => .newLine (level + 1) (h s hs)).append ?_
  exact .newLine level (.mark (by decide) .nil)

theorem Selection.apart_pieces {b : Nat} {s : Selection} (h : s.Legal b) (level : Nat) :
    Apart false (s.pieces level) := by
  induction h generalizing level with
  | @field _ label n args ds ss hlabel hname harguments hdirectives _ _ ih =>
    have hset : Apart true (optionalSetPieces level ss) := by
      unfold optionalSetPieces
      split
      · exact .nil
      · exact .space (.mark (by decide) (apart_selectionsPieces level fun s hs => ih s hs _).weaken)
    rw [pieces_field]
    exact (apart_labelPieces hlabel hname).append
      ((apart_argumentsPieces harguments true).append
        ((apart_directivesPieces hdirectives).append hset))
  | spread hname _ hdirectives =>
    exact .spread (.name hname (apart_directivesPieces hdirectives))
  | @inlineFragment _ t ds ss htype hdirectives _ _ _ ih =>
    have hset : Apart true (space :: mark .braceOpen :: selectionsPieces level ss) :=
      .space (.mark (by decide) (apart_selectionsPieces level fun s hs => ih s hs _).weaken)
    exact ((Apart.spread (apart_typeConditionPieces htype).weaken).append
      (apart_directivesPieces hdirectives)).append hset

theorem apart_selectionSetPieces {b : Nat} {ss : List Selection} (h : SelectionSetLegal b ss)
    (w : Bool) : Apart w (selectionSetPieces ss) := by
  have hss := fun s hs => Selection.apart_pieces (h.selections s hs) 1
  exact .mark (by decide) (apart_selectionsPieces 0 hss).weaken

/-! ## Definitions -/

theorem isName_keyword (t : OperationType) : IsName t.keyword := by
  cases t with
  | query => exact isName_of_all rfl (by decide)
  | mutation => exact isName_of_all rfl (by decide)
  | subscription => exact isName_of_all rfl (by decide)

theorem Operation.apart_pieces {o : Operation} (h : o.Legal) (first : Bool) :
    Apart false (o.pieces first) := by
  have hset := apart_selectionSetPieces h.selections
  have hname : Apart true (operationNamePieces o.name) := by
    cases hn : o.name with
    | none => exact .nil
    | some n => exact .space (.name (h.name n hn) .nil)
  unfold Operation.pieces
  split
  · exact hset false
  · exact (((Apart.name (isName_keyword o.type) hname).append
      (apart_variablesPieces h.variableDefinitions)).append
        (apart_directivesPieces h.directives)).append (.space (hset false))

theorem Fragment.apart_pieces {f : Fragment} (h : f.Legal) : Apart false f.pieces := by
  have hkeyword : IsName "fragment" := isName_of_all rfl (by decide)
  have htype := apart_typeConditionPieces (t := some f.typeCondition) fun n hn => by
    cases hn
    exact h.typeCondition
  exact ((Apart.name hkeyword (.space (.name h.name htype))).append
    (apart_directivesPieces h.directives)).append
      (.space (apart_selectionSetPieces h.selections false))

theorem Definition.apart_pieces {d : Definition} (h : d.Legal) (first : Bool) :
    Apart false (d.pieces first) := by
  cases d with
  | operation o => exact Operation.apart_pieces h first
  | fragment f => exact Fragment.apart_pieces h

/-- The pieces of a document that can be written can be told apart in its text. -/
theorem spaced_pieces {d : Document} (h : ∀ x ∈ d, x.Legal) : Spaced false (Document.pieces d) := by
  cases d with
  | nil => trivial
  | cons x xs =>
    have hlater : Apart true (laterPieces xs) := by
      rw [laterPieces_eq]
      refine (Apart.flatMap fun y hy => .newLine 0 (.newLine 0 ?_)).append (.newLine 0 .nil)
      exact Definition.apart_pieces (h y (List.mem_cons_of_mem x hy)) false
    have hall := (Definition.apart_pieces (h x List.mem_cons_self) true).append hlater
    simpa [Document.pieces] using hall [] trivial

end GraphqlClient.Syntax
