import GraphqlClient.Proofs.Syntax.Grammar
import GraphqlClient.Proofs.Syntax.ReadLegal
import GraphqlClient.Proofs.Syntax.Spacing

/-!
# Documents are read back from their texts

The documents that texts read as are those that can be written (`isRead_iff`), and each of them is
read back from the text it is written as (`ofText?_text`). So documents that were read are the same
one when their texts are equal.
-/

namespace GraphqlClient.Syntax

/-- The text of a document that can be written reads as that document. -/
theorem ofText?_text {d : Document} (h : DocumentLegal d) : Document.ofText? d.text = some d := by
  have hscan := scan_textOf (spaced_pieces h.definitions) false
  unfold Document.ofText? tokens? Document.text
  rw [String.toList_ofList, hscan]
  exact ofTokens?_tokensOf h

theorem legal_of_ofText? {text : String} {d : Document} (h : Document.ofText? text = some d) :
    DocumentLegal d := by
  obtain ⟨ts, hts, hd⟩ := Option.bind_eq_some_iff.1 h
  exact legal_of_ofTokens? (regular_of_tokens? hts) hd

/-- A blank text is no document. -/
theorem ofText?_of_isBlankText {text : String} (h : Text.isBlankText text = true) :
    Document.ofText? text = none := by
  have hnil : Document.ofTokens? [] = none := by decide +kernel
  unfold Document.ofText? tokens?
  rcases scan_whiteSpace h false with hscan | hscan
  · rw [hscan]
    exact hnil
  · rw [hscan]
    rfl

/-- The definition stands in a document that was read from a text. -/
def Definition.IsRead (d : Definition) : Prop := ∃ text ds, Document.ofText? text = some ds ∧ d ∈ ds

theorem Definition.isRead_iff (d : Definition) : d.IsRead ↔ d.Legal := by
  constructor
  · rintro ⟨text, ds, hds, hd⟩
    exact (legal_of_ofText? hds).definitions d hd
  · intro h
    have hlegal : DocumentLegal [d] := ⟨List.cons_ne_nil d [], List.forall_mem_singleton.2 h⟩
    exact ⟨_, [d], ofText?_text hlegal, List.mem_singleton_self d⟩

/-- A document of definitions that were read is read back from its text. -/
theorem ofText?_text_of_isRead {d : Document} (hne : d ≠ []) (h : ∀ x ∈ d, x.IsRead) :
    Document.ofText? d.text = some d :=
  ofText?_text ⟨hne, fun x hx => x.isRead_iff.1 (h x hx)⟩

theorem ofText?_text_nil : Document.ofText? (Document.text []) = none :=
  ofText?_of_isBlankText rfl

/-- Documents of definitions that were read are written differently, unless they are equal. -/
theorem eq_of_text_eq {d e : Document} (hd : ∀ x ∈ d, x.IsRead) (he : ∀ x ∈ e, x.IsRead)
    (htext : d.text = e.text) : d = e := by
  have hempty : ∀ {a : Document}, (∀ x ∈ a, x.IsRead) → a.text = Document.text [] → a = [] := by
    intro a ha hnil
    by_contra hne
    have hread := ofText?_text_of_isRead hne ha
    rw [hnil, ofText?_text_nil] at hread
    cases hread
  by_cases hnil : d = []
  · subst hnil
    exact (hempty he htext.symm).symm
  by_cases hnil' : e = []
  · subst hnil'
    exact hempty hd htext
  have hdread := ofText?_text_of_isRead hnil hd
  rw [htext, ofText?_text_of_isRead hnil' he] at hdread
  exact (Option.some.inj hdread).symm

end GraphqlClient.Syntax
