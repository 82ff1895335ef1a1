import GraphqlClient.Proofs.Normalization.Reading
import GraphqlClient.Proofs.Syntax.Respaced

/-!
# Formatting

Blanks and comments before tokens and behind them do not matter: with them, a text is accepted as it
is without them, and one cache has one instance for both texts, whichever comes first and whatever
comes between (`Session.normalizeText_respaced`).
-/

namespace GraphqlClient.Normalization

open Syntax

namespace Session

theorem normalizeText_congr {text text' : String}
    (h : Document.ofText? text' = Document.ofText? text) (s : Session) (config : Config) :
    s.normalizeText config text' = s.normalizeText config text := by
  rw [normalizeText, normalizeText, normalize_eq, normalize_eq, Template.definitions?_ofText,
    Template.definitions?_ofText, h]

/-- A text that is read as one which was normalised leads to the instance of that one. -/
theorem normalizeText_run_normalizeText {s : Session} (hs : s.Coherent) {text text' : String}
    (h : Document.ofText? text' = Document.ofText? text) {config : Config} {del : Delivery}
    (hdel : s.normalizeText config text = some del) (later : List Command) (config' : Config) :
    ∃ notices, (del.session.run later).normalizeText config' text'
      = some ⟨del.document, notices, del.session.run later⟩ := by
  obtain ⟨ds, hds, hdocument, hsession⟩ := normalize_eq_some hdel
  rw [normalizeText_congr h, normalizeText, normalize_eq, hds, Option.map_some, hdocument, hsession,
    canonicalize_run_canonicalize hs]
  exact ⟨_, rfl⟩

/-- A text and the same text with blanks and comments put before tokens and behind them are accepted
alike, and after any history one cache has one instance for both, whichever comes first. -/
theorem normalizeText_respaced {text text' : String} (h : Respaced text.toList text'.toList) :
    (∀ s config, normalizeText s config text' = s.normalizeText config text)
      ∧ ∀ n history config del,
        (((empty n).run history).normalizeText config text = some del →
          ∀ later config', ∃ notices, (del.session.run later).normalizeText config' text'
            = some ⟨del.document, notices, del.session.run later⟩)
        ∧ (((empty n).run history).normalizeText config text' = some del →
          ∀ later config', ∃ notices, (del.session.run later).normalizeText config' text
            = some ⟨del.document, notices, del.session.run later⟩) := by
  have htexts := ofText?_respaced h
  refine ⟨normalizeText_congr htexts, fun n history config del => ⟨fun hdel => ?_, fun hdel => ?_⟩⟩
  · exact normalizeText_run_normalizeText (coherent_run_empty n history) htexts hdel
  · exact normalizeText_run_normalizeText (coherent_run_empty n history) htexts.symm hdel

/-- A field behind its alias. -/
def denseAlias : String := "{x:a}"

/-- The same with a comment before the colon and a blank behind it. -/
def looseAlias : String := r"{x#:" ++ "\n:\ta" ++ r"}"

theorem normalizeText_respaced_looseAlias :
    Respaced denseAlias.toList looseAlias.toList
      ∧ ∃ del notices, (empty 0).normalizeText {} denseAlias = some del
        ∧ del.session.normalizeText {} looseAlias = some ⟨del.document, notices, del.session⟩ := by
  have hend : Respaced ['a', '}'] ['a', '}'] := by
    obtain ⟨ts, hts⟩ : ∃ ts, tokens? ['a', '}'] = some ts :=
      Option.isSome_iff_exists.1 (by decide +kernel)
    exact .refl_of_scan hts
  have hcomment : Ignored ['#', ':', '\n'] :=
    @Ignored.comment [':'] [] '\n' (List.forall_mem_singleton.2 rfl) rfl .nil
  have hcolon : Respaced ([':'] ++ ['a', '}']) ([':'] ++ (['\t'] ++ ['a', '}'])) :=
    .token rfl .nil (.blank rfl .nil) hend
  have hname := @Respaced.token ['x'] _ _ [] _ _ rfl .nil hcomment hcolon
  have hall := @Respaced.token ['{'] _ _ [] [] _ rfl .nil .nil hname
  have hdense : denseAlias.toList = ['{'] ++ (['x'] ++ ([':'] ++ ['a', '}'])) := by
    decide +kernel
  have hloose : looseAlias.toList
      = ['{'] ++ (['x'] ++ (['#', ':', '\n'] ++ ([':'] ++ (['\t'] ++ ['a', '}'])))) := by
    decide +kernel
  have hrespaced : Respaced denseAlias.toList looseAlias.toList := by
    rw [hdense, hloose]
    exact hall
  obtain ⟨d, hd⟩ : ∃ d, Document.ofText? denseAlias = some d :=
    Option.isSome_iff_exists.1 (by decide +kernel)
  obtain ⟨del, hdel⟩ := (empty 0).exists_normalize {}
    ((Template.definitions?_ofText denseAlias).trans hd)
  obtain ⟨notices, hloose⟩ := ((normalizeText_respaced hrespaced).2 0 [] {} del).1 hdel [] {}
  exact ⟨hrespaced, del, notices, hdel, hloose⟩

end Session

end GraphqlClient.Normalization
