import GraphqlClient.Proofs.Normalization.Reading
import GraphqlClient.Proofs.Syntax.Headings

/-!
# Independence of history and settings

What a template normalises to does not depend on what was normalised before, nor on whether
conflicts are reported (`Session.normalize_independent`). Two runs may hand out two instances, one
of them from another text by another command. But both have the key of the one document that the
template stands for. If no cached document collides with it, both have its text, and a text tells
the headings of the definitions that are written in it.
-/

namespace GraphqlClient.Normalization

open Syntax

/-! ## Trees that are put in -/

/-- The definitions of the documents that a command is given as such, rather than as texts. -/
def Command.given : Command → List Definition
  | .normalize _ t => t.interpolated
  | .canonicalize d => d
  | _ => []

/-- What a command canonicalises was read, or was given to it. -/
theorem Command.wellSpelled_document? {c : Command} (hc : ∀ x ∈ c.given, x.WellSpelled) :
    ∀ d ∈ c.document?, ∀ x ∈ d, x.WellSpelled := by
  have htemplate : ∀ t : Template, (∀ x ∈ t.interpolated, x.WellSpelled) →
      ∀ d ∈ t.definitions?.map dedupe, ∀ x ∈ d, x.WellSpelled := by
    intro t ht d hd x hx
    obtain ⟨ds, hds, rfl⟩ := Option.map_eq_some_iff.1 hd
    rcases Template.isRead_or_mem_interpolated hds x (mem_of_mem_dedupe hx) with hread | hmem
    · exact hread.wellSpelled
    · exact ht x hmem
  cases c with
  | normalize config t => exact htemplate t hc
  | normalizeText config text => exact htemplate (.ofText text) nofun
  | canonicalizeText text => exact fun d hd x hx => Definition.IsRead.wellSpelled ⟨text, d, hd, hx⟩
  | canonicalize d =>
    rintro d ⟨⟩
    exact hc
  | get key => exact nofun
  | wrap d => exact nofun

namespace Session

/-- The instance that a template normalises to is well spelled. -/
theorem wellSpelled_normalize (n : Nat) {history : List Command}
    (h : ∀ c ∈ history, ∀ x ∈ c.given, x.WellSpelled) {t : Template}
    (ht : ∀ x ∈ t.interpolated, x.WellSpelled) {config : Config} {del : Delivery}
    (hdel : ((empty n).run history).normalize config t = some del) :
    ∀ x ∈ del.document.document, x.WellSpelled := by
  obtain ⟨ds, hds, hdocument, -⟩ := normalize_eq_some hdel
  have hall : ((empty n).run history).All Definition.WellSpelled :=
    all_run_empty n fun c hc => Command.wellSpelled_document? (h c hc)
  rw [hdocument]
  refine forall_mem_canonicalize hall ?_
  exact (Command.normalize config t).wellSpelled_document? ht _ (by simp [Command.document?, hds])

/-- After any two histories and with any two settings, a template normalises in both sessions or in
none. What it normalises to has one key; one text, if no cached document collides; and then also as
many definitions, with the same names of fragments and types of operations in the same order, as
long as the documents that are put in are well spelled. -/
theorem normalize_independent (t : Template) (n n' : Nat) (history history' : List Command)
    (config config' : Config) :
    (((empty n).run history).normalize config t = none
        ↔ ((empty n').run history').normalize config' t = none)
      ∧ ∀ del del', ((empty n).run history).normalize config t = some del →
        ((empty n').run history').normalize config' t = some del' →
          del.document.key = del'.document.key
          ∧ (((empty n).run history).NoCollision t → ((empty n').run history').NoCollision t →
            del.document.document.text = del'.document.document.text
            ∧ ((∀ x ∈ t.interpolated, x.WellSpelled) →
              (∀ c ∈ history ++ history', ∀ x ∈ c.given, x.WellSpelled) →
                del.document.document.length = del'.document.document.length
                ∧ fragmentNames del.document.document = fragmentNames del'.document.document
                ∧ del.document.document.filterMap GraphqlClient.Operation.typeOf?
                  = del'.document.document.filterMap GraphqlClient.Operation.typeOf?)) := by
  have hs := coherent_run_empty n history
  have hs' := coherent_run_empty n' history'
  constructor
  · rw [normalize_eq, normalize_eq, Option.map_eq_none_iff, Option.map_eq_none_iff]
  intro del del' hdel hdel'
  obtain ⟨ds, hds, hdocument, -⟩ := normalize_eq_some hdel
  obtain ⟨ds', hds', hdocument', -⟩ := normalize_eq_some hdel'
  obtain rfl : ds = ds' := Option.some.inj (hds.symm.trans hds')
  refine ⟨?_, fun hno hno' => ?_⟩
  · rw [hdocument, hdocument', key_canonicalize hs, key_canonicalize hs']
  have htext : del.document.document.text = del'.document.document.text := by
    rw [text_normalize hs hdel hno hds, text_normalize hs' hdel' hno' hds]
  refine ⟨htext, fun ht hgiven => ?_⟩
  obtain ⟨hhistory, hhistory'⟩ := List.forall_mem_append.1 hgiven
  have hheadings := map_heading_eq_of_text_eq (wellSpelled_normalize n hhistory ht hdel)
    (wellSpelled_normalize n' hhistory' ht hdel') htext
  refine ⟨?_, ?_, ?_⟩
  · simpa using congrArg List.length hheadings
  · rw [fragmentNames_eq, fragmentNames_eq, hheadings]
  · rw [filterMap_typeOf?_eq, filterMap_typeOf?_eq, hheadings]

/-- A selection of a fragment. -/
def spreadText : String := "{...F}"

/-- Two fragments of one name. -/
def repeatedText : String := "fragment F on T {a} fragment F on T {b}"

/-- The selection and the first of the fragments as they are written. -/
def keptText : String := "{
  ...F
}

fragment F on T {
  a
}
"

theorem normalize_independent_keptText :
    ∃ gs del del', Document.ofText? repeatedText = some gs
      ∧ ((empty 3).run []).normalize {} ⟨[spreadText], [.document gs]⟩ = some del
      ∧ ((empty 0).run [.canonicalizeText keptText]).normalize ⟨false⟩
          ⟨[spreadText], [.document gs]⟩ = some del'
      ∧ del.document.key = del'.document.key
      ∧ del.document.document.text = del'.document.document.text
      ∧ del.document.document.length = del'.document.document.length
      ∧ fragmentNames del.document.document = fragmentNames del'.document.document
      ∧ del.document.document.filterMap GraphqlClient.Operation.typeOf?
        = del'.document.document.filterMap GraphqlClient.Operation.typeOf? := by
  obtain ⟨gs, hgs⟩ : ∃ gs, Document.ofText? repeatedText = some gs :=
    Option.isSome_iff_exists.1 (by decide +kernel)
  obtain ⟨d, hd, hdtext⟩ : ∃ d, Document.ofText? keptText = some d ∧ d.text = keptText :=
    Option.map_eq_some_iff.1 (by decide +kernel)
  have hkept : ((Document.ofText? repeatedText).bind fun gs =>
      (Template.definitions? ⟨[spreadText], [.document gs]⟩).map fun ds =>
        Document.text (dedupe ds)) = some keptText := by decide +kernel
  rw [hgs] at hkept
  obtain ⟨ds, hds, htext⟩ := Option.map_eq_some_iff.1 hkept
  have hread : ∀ x ∈ (Template.mk [spreadText] [.document gs]).interpolated, x.WellSpelled := by
    intro x hx
    refine Definition.IsRead.wellSpelled ⟨_, gs, hgs, ?_⟩
    simpa [Template.interpolated, Interpolation.definitions] using hx
  have hno : ((empty 3).run []).NoCollision ⟨[spreadText], [.document gs]⟩ :=
    fun _ _ e he => absurd he List.not_mem_nil
  have hno' : ((empty 0).run [.canonicalizeText keptText]).NoCollision
      ⟨[spreadText], [.document gs]⟩ := by
    rw [run_canonicalizeText _ hd]
    exact noCollision_canonicalize_empty 0 hds (hdtext.trans htext.symm)
  obtain ⟨del, hdel⟩ := ((empty 3).run []).exists_normalize {} hds
  obtain ⟨del', hdel'⟩ :=
    ((empty 0).run [.canonicalizeText keptText]).exists_normalize ⟨false⟩ hds
  obtain ⟨hkey, hall⟩ := (normalize_independent _ 3 0 [] [.canonicalizeText keptText] {} ⟨false⟩).2
    del del' hdel hdel'
  obtain ⟨hsame, hheadings⟩ := hall hno hno'
  exact ⟨gs, del, del', hgs, hdel, hdel', hkey, hsame,
    hheadings hread (List.forall_mem_singleton.2 nofun)⟩

end Session

end GraphqlClient.Normalization
