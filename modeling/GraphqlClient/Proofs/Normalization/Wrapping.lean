import GraphqlClient.Proofs.Normalization.Firsts
import GraphqlClient.Proofs.Normalization.Independence

/-!
# Templates around a normalised document

A template that is blank around a normalised document normalises to that document: the same instance
comes back, and the session stays as it is (`Session.normalize_wrapped`). The template stands for
the definitions of the document and whatever definitions follow it. Fragments that follow with names
that the document has are dropped, and the document itself comes through, since it repeats no
fragment.

The instance may be older than the template that it was normalised from, and hold another tree. That
this one repeats no fragment either is read off its text, which tells the names of fragments
(`Session.map_heading_normalize`).
-/

namespace GraphqlClient.Normalization

open Syntax

namespace Interpolation

/-- The value is blank text. -/
def IsBlank : Interpolation → Prop
  | .text s => Text.isBlankText s = true
  | _ => False

/-- The value is the document of an instance, with its key or without. -/
def Holds (d : KeyedDocument) (i : Interpolation) : Prop := i = .keyed d ∨ i = .document d.document

/-- The value is a document of fragments only, each with a name that a fragment of a given document
has. -/
structure Echoes (d : Document) (i : Interpolation) : Prop where
  document : i.isDocument = true
  named : ∀ x ∈ i.definitions, ∃ n ∈ fragmentNames d, x.fragmentName? = some n

variable {d : KeyedDocument} {i : Interpolation}

/-- Blank text and documents leave a body blank. -/
theorem isBlankText_bodyText (h : i.IsBlank ∨ i.isDocument = true) :
    Text.isBlankText i.bodyText = true := by
  cases i with
  | text s => exact h.elim id nofun
  | keyed d => rfl
  | document d => rfl

theorem IsBlank.definitions (h : i.IsBlank) : i.definitions = [] := by
  cases i with
  | text s => rfl
  | keyed d => cases h
  | document d => cases h

theorem Holds.isDocument (h : i.Holds d) : i.isDocument = true := by
  rcases h with rfl | rfl <;> rfl

theorem Holds.definitions (h : i.Holds d) : i.definitions = d.document := by
  rcases h with rfl | rfl <;> rfl

end Interpolation

theorem isBlankText_weave {is : List Interpolation} {segments : List String}
    (his : ∀ i ∈ is, Text.isBlankText i.bodyText = true)
    (hsegments : ∀ s ∈ segments, Text.isBlankText s = true) :
    Text.isBlankText (Template.weave is segments) = true := by
  induction is generalizing segments with
  | nil => exact Text.isBlankText_join hsegments
  | cons i is ih =>
    obtain ⟨hi, his⟩ := List.forall_mem_cons.1 his
    cases segments with
    | nil => exact Text.isBlankText_append hi (ih his nofun)
    | cons s segments =>
      obtain ⟨hs, hsegments⟩ := List.forall_mem_cons.1 hsegments
      exact Text.isBlankText_append (Text.isBlankText_append hi hs) (ih his hsegments)

theorem isBlankText_body {t : Template} (hsegments : ∀ s ∈ t.segments, Text.isBlankText s = true)
    (his : ∀ i ∈ t.interpolations, Text.isBlankText i.bodyText = true) :
    Text.isBlankText t.body = true := by
  unfold Template.body
  cases hsegs : t.segments with
  | nil => exact isBlankText_weave his nofun
  | cons s segments =>
    rw [hsegs] at hsegments
    obtain ⟨hs, hsegments⟩ := List.forall_mem_cons.1 hsegments
    exact Text.isBlankText_append hs (isBlankText_weave his hsegments)

/-- A definition among fragments only has the name of one of them. -/
theorem named_of_isSome {ds : List Definition} (h : ∀ x ∈ ds, x.fragmentName?.isSome = true)
    {x : Definition} (hx : x ∈ ds) : ∃ n ∈ fragmentNames ds, x.fragmentName? = some n := by
  obtain ⟨n, hn⟩ := Option.isSome_iff_exists.1 (h x hx)
  exact ⟨n, List.mem_filterMap.2 ⟨x, hx, hn⟩, hn⟩

theorem definitionsOf_of_isBlank {is : List Interpolation} (h : ∀ i ∈ is, i.IsBlank) :
    definitionsOf is = [] :=
  List.flatMap_eq_nil_iff.2 fun i hi => (h i hi).definitions

/-- A blank template stands for the definitions of its documents, if there are any. -/
theorem definitions?_of_isBlankText {t : Template} (h : Text.isBlankText t.body = true)
    (hne : definitionsOf t.interpolations ≠ []) :
    t.definitions? = some (definitionsOf t.interpolations) := by
  refine Template.definitions?_eq_some_iff.2 ⟨[], ?_, rfl, hne⟩
  rw [Template.bodyDefinitions?, if_pos h]

namespace Command

/-- The template that a normalising command stands for. -/
def template? : Command → Option Template
  | .normalize _ t => some t
  | .normalizeText _ text => some (.ofText text)
  | _ => none

theorem exists_deliver_eq {c : Command} {t : Template} (h : c.template? = some t) (s : Session) :
    ∃ config, c.deliver s = s.normalize config t := by
  cases c with
  | normalize config t' =>
    cases h
    exact ⟨config, rfl⟩
  | normalizeText config text =>
    cases h
    exact ⟨config, rfl⟩
  | _ => cases h

theorem given_eq {c : Command} {t : Template} (h : c.template? = some t) :
    c.given = t.interpolated := by
  cases c with
  | normalize config t' =>
    cases h
    rfl
  | normalizeText config text =>
    cases h
    rfl
  | _ => cases h

end Command

namespace Session

/-- What a template normalises to has the headings of what remains of its definitions. -/
theorem map_heading_normalize (n : Nat) {history : List Command}
    (h : ∀ c ∈ history, ∀ x ∈ c.given, x.WellSpelled) {t : Template}
    (ht : ∀ x ∈ t.interpolated, x.WellSpelled) {config : Config} {del : Delivery}
    (hdel : ((empty n).run history).normalize config t = some del)
    (hno : ((empty n).run history).NoCollision t) {ds : List Definition}
    (hds : t.definitions? = some ds) :
    del.document.document.map Definition.heading = (dedupe ds).map Definition.heading := by
  have hkept : ∀ x ∈ dedupe ds, x.WellSpelled :=
    (Command.normalize config t).wellSpelled_document? ht _ (by simp [Command.document?, hds])
  exact map_heading_eq_of_text_eq (wellSpelled_normalize n h ht hdel) hkept
    (text_normalize (coherent_run_empty n history) hdel hno hds)

/-- A template in which fragments follow definitions that have their names, none of these repeated,
normalises to the instance of the definitions, if there is one. -/
theorem normalize_of_named {s : Session} {t : Template} {ds rest : List Definition}
    (ht : t.definitions? = some (ds ++ rest)) (hnodup : (fragmentNames ds).Nodup)
    (hrest : ∀ x ∈ rest, ∃ n ∈ fragmentNames ds, x.fragmentName? = some n) {found : KeyedDocument}
    (hfound : s.cache.get? (.of ds) = some found) (config : Config) :
    s.normalize config t = some ⟨found,
      (if config.diagnosticsEnabled then conflicts (ds ++ rest) else []).map .conflict ++ [.reused],
      s⟩ := by
  rw [normalize_eq, ht, Option.map_some, dedupe_append_of_named hnodup hrest,
    canonicalize_of_get? hfound]

/-- What a template normalises to is not empty, repeats no fragment, and stays the instance that its
document leads to. -/
theorem kept_normalize (n : Nat) {history : List Command}
    (h : ∀ c ∈ history, ∀ x ∈ c.given, x.WellSpelled) {t : Template}
    (ht : ∀ x ∈ t.interpolated, x.WellSpelled) {config : Config} {del : Delivery}
    (hdel : ((empty n).run history).normalize config t = some del)
    (hno : ((empty n).run history).NoCollision t) :
    del.document.document ≠ [] ∧ (fragmentNames del.document.document).Nodup
      ∧ ∀ later, (del.session.run later).cache.get? (.of del.document.document)
        = some del.document := by
  obtain ⟨ds, hds, hdocument, hsession⟩ := normalize_eq_some hdel
  have hheadings := map_heading_normalize n h ht hdel hno hds
  have hs := coherent_run_empty n history
  refine ⟨?_, ?_, fun later => ?_⟩
  · intro hnil
    rw [hnil, List.map_nil, eq_comm, List.map_eq_nil_iff] at hheadings
    exact dedupe_ne_nil (Template.definitions?_ne_nil hds) hheadings
  · rw [fragmentNames_eq, hheadings, ← fragmentNames_eq]
    exact nodup_fragmentNames_dedupe ds
  · rw [hsession, hdocument, of_document_canonicalize hs, get?_run_canonicalize hs]

/-- A blank template around an instance, in which only fragments with its names follow it. -/
theorem normalize_around {s : Session} {d : KeyedDocument} (hne : d.document ≠ [])
    (hnodup : (fragmentNames d.document).Nodup) (hfound : s.cache.get? (.of d.document) = some d)
    (config : Config) {segments : List String}
    (hsegments : ∀ t ∈ segments, Text.isBlankText t = true) {before after : List Interpolation}
    (hbefore : ∀ i ∈ before, i.IsBlank) {i : Interpolation} (hi : i.Holds d)
    (hafter : ∀ j ∈ after, j.IsBlank ∨ j.isDocument = true)
    (hnamed : ∀ x ∈ definitionsOf after,
      ∃ n ∈ fragmentNames d.document, x.fragmentName? = some n) :
    s.normalize config ⟨segments, before ++ i :: after⟩ = some ⟨d,
      (if config.diagnosticsEnabled then conflicts (d.document ++ definitionsOf after)
        else []).map .conflict ++ [.reused], s⟩ := by
  have hdefinitions : definitionsOf (before ++ i :: after)
      = d.document ++ definitionsOf after := by
    rw [definitionsOf_append, definitionsOf_of_isBlank hbefore, List.nil_append, definitionsOf,
      List.flatMap_cons, hi.definitions]
  have hvalues : ∀ j ∈ before ++ i :: after, j.IsBlank ∨ j.isDocument = true :=
    List.forall_mem_append.2 ⟨fun j hj => .inl (hbefore j hj),
      List.forall_mem_cons.2 ⟨.inr hi.isDocument, hafter⟩⟩
  have hblank : Text.isBlankText (Template.mk segments (before ++ i :: after)).body = true :=
    isBlankText_body hsegments fun j hj => Interpolation.isBlankText_bodyText (hvalues j hj)
  have hds := definitions?_of_isBlankText hblank
    (by rw [hdefinitions]; exact List.append_ne_nil_of_left_ne_nil hne _)
  rw [hdefinitions] at hds
  exact normalize_of_named hds hnodup hnamed hfound config

/-- A template that is blank but for a document that was normalised earlier gives that instance back
and leaves the session as it is, without a notice other than that the instance is used again. If the
document has only fragments it may be repeated, and documents of fragments with its names may follow
it. -/
theorem normalize_wrapped (n : Nat) {history : List Command} {c : Command} {t : Template}
    {del : Delivery} (hgiven : ∀ c' ∈ c :: history, ∀ x ∈ c'.given, x.WellSpelled)
    (htemplate : c.template? = some t) (hdel : c.deliver ((empty n).run history) = some del)
    (hno : ((empty n).run history).NoCollision t) (later : List Command) (config : Config)
    {segments : List String} (hsegments : ∀ s ∈ segments, Text.isBlankText s = true)
    {before after : List Interpolation} (hbefore : ∀ i ∈ before, i.IsBlank) {i : Interpolation}
    (hi : i.Holds del.document) :
    ((∀ j ∈ after, j.IsBlank) →
        (del.session.run later).normalize config ⟨segments, before ++ i :: after⟩
          = some ⟨del.document, [.reused], del.session.run later⟩)
      ∧ ((∀ x ∈ del.document.document, x.fragmentName?.isSome = true) →
        ((∀ j ∈ after, j.IsBlank ∨ j.Holds del.document) →
          (del.session.run later).normalize config ⟨segments, before ++ i :: after⟩
            = some ⟨del.document, [.reused], del.session.run later⟩)
        ∧ ((∀ j ∈ after, j.IsBlank ∨ j.Holds del.document ∨ j.Echoes del.document.document) →
          ∃ notices,
            (del.session.run later).normalize config ⟨segments, before ++ i :: after⟩
              = some ⟨del.document, notices, del.session.run later⟩)) := by
  obtain ⟨config', hdeliver⟩ := c.exists_deliver_eq htemplate ((empty n).run history)
  rw [hdeliver] at hdel
  obtain ⟨hc, hhistory⟩ := List.forall_mem_cons.1 hgiven
  rw [c.given_eq htemplate] at hc
  obtain ⟨hne, hnodup, hfound⟩ := kept_normalize n hhistory hc hdel hno
  have haround := @normalize_around _ _ hne hnodup (hfound later) config segments hsegments before
    after hbefore i hi
  refine ⟨fun hafter => ?_, fun hfragments => ⟨fun hafter => ?_, fun hafter => ?_⟩⟩
  · have hrest := definitionsOf_of_isBlank hafter
    rw [hrest, conflicts_append_of_subset hnodup (List.forall_mem_nil _), ite_self] at haround
    exact haround (fun j hj => .inl (hafter j hj)) (List.forall_mem_nil _)
  · have hcopies : ∀ x ∈ definitionsOf after, x ∈ del.document.document := by
      refine List.forall_mem_flatMap.2 fun j hj => ?_
      rcases hafter j hj with hblank | hholds
      · rw [hblank.definitions]
        exact List.forall_mem_nil _
      · rw [hholds.definitions]
        exact fun x hx => hx
    rw [conflicts_append_of_subset hnodup hcopies, ite_self] at haround
    refine haround (fun j hj => ?_) fun x hx => named_of_isSome hfragments (hcopies x hx)
    exact (hafter j hj).imp_right Interpolation.Holds.isDocument
  · refine ⟨_, haround (fun j hj => ?_) (List.forall_mem_flatMap.2 fun j hj => ?_)⟩
    · rcases hafter j hj with hblank | hholds | hechoes
      · exact .inl hblank
      · exact .inr hholds.isDocument
      · exact .inr hechoes.document
    · rcases hafter j hj with hblank | hholds | hechoes
      · rw [hblank.definitions]
        exact List.forall_mem_nil _
      · rw [hholds.definitions]
        exact fun x hx => named_of_isSome hfragments hx
      · exact hechoes.named

/-- A fragment. -/
def frontFragment : String := "fragment F on T {a}"

/-- Another fragment of its name, and one of another name. -/
def otherFragments : String := "fragment F on T {b} fragment G on T {c}"

/-- What remains of all three. -/
def remainingFragments : String := "fragment F on T {
  a
}

fragment G on T {
  c
}
"

theorem normalize_wrapped_remainingFragments :
    ∃ gs del notices, Document.ofText? otherFragments = some gs
      ∧ ((empty 0).run [.canonicalizeText remainingFragments]).normalize {}
          ⟨[frontFragment], [.document gs]⟩ = some del
      ∧ (del.session.run [.canonicalize gs]).normalize {} ⟨["\n"], [.keyed del.document]⟩
        = some ⟨del.document, [.reused], del.session.run [.canonicalize gs]⟩
      ∧ (del.session.run [.canonicalize gs]).normalize {}
          ⟨["\n", "\u3000"], [.text "\t", .keyed del.document, .document del.document.document]⟩
        = some ⟨del.document, [.reused], del.session.run [.canonicalize gs]⟩
      ∧ (del.session.run [.canonicalize gs]).normalize {} ⟨[], [.keyed del.document, .document gs]⟩
        = some ⟨del.document, notices, del.session.run [.canonicalize gs]⟩ := by
  obtain ⟨gs, hgs, hgsNames⟩ : ∃ gs, Document.ofText? otherFragments = some gs
      ∧ gs.map Definition.fragmentName? = [some "F", some "G"] :=
    Option.map_eq_some_iff.1 (by decide +kernel)
  obtain ⟨d, hd, hdtext⟩ : ∃ d, Document.ofText? remainingFragments = some d
      ∧ d.text = remainingFragments :=
    Option.map_eq_some_iff.1 (by decide +kernel)
  have hkept : ((Document.ofText? otherFragments).bind fun gs =>
      (Template.definitions? ⟨[frontFragment], [.document gs]⟩).map fun ds =>
        (Document.text (dedupe ds), (dedupe ds).map Definition.fragmentName?))
      = some (remainingFragments, [some "F", some "G"]) := by decide +kernel
  rw [hgs] at hkept
  obtain ⟨ds, hds, hdedupe⟩ := Option.map_eq_some_iff.1 hkept
  obtain ⟨htext, hnames⟩ := Prod.mk.inj hdedupe
  have hno : ((empty 0).run [.canonicalizeText remainingFragments]).NoCollision
      ⟨[frontFragment], [.document gs]⟩ := by
    rw [run_canonicalizeText _ hd]
    exact noCollision_canonicalize_empty 0 hds (hdtext.trans htext.symm)
  obtain ⟨del, hdel⟩ :=
    ((empty 0).run [.canonicalizeText remainingFragments]).exists_normalize {} hds
  have hread : ∀ x ∈ (Template.mk [frontFragment] [.document gs]).interpolated, x.IsRead := by
    intro x hx
    exact ⟨_, gs, hgs, by simpa [Template.interpolated, Interpolation.definitions] using hx⟩
  have hallRead :
      ((empty 0).run [.canonicalizeText remainingFragments]).All Definition.IsRead := by
    refine all_run_empty 0 (List.forall_mem_singleton.2 ?_)
    exact fun e he x hx => ⟨_, e, he, hx⟩
  rw [← document_normalize (coherent_run_empty 0 _) hallRead hread hdel hno hds] at hnames
  have hgiven : ∀ c ∈ [Command.normalize {} ⟨[frontFragment], [.document gs]⟩,
      .canonicalizeText remainingFragments], ∀ x ∈ c.given, x.WellSpelled := by
    refine List.forall_mem_cons.2 ⟨fun x hx => (hread x hx).wellSpelled, ?_⟩
    exact List.forall_mem_singleton.2 (List.forall_mem_nil _)
  have hfragments : ∀ x ∈ del.document.document, x.fragmentName?.isSome = true := by
    have hall : ∀ n ∈ del.document.document.map Definition.fragmentName?, n.isSome = true := by
      rw [hnames]
      decide
    exact fun x hx => hall _ (List.mem_map_of_mem hx)
  have hechoes : (Interpolation.document gs).Echoes del.document.document := by
    have hall : fragmentNames del.document.document
        = (del.document.document.map Definition.fragmentName?).filterMap id := by
      rw [fragmentNames, List.filterMap_map]
      rfl
    refine ⟨rfl, fun x hx => ?_⟩
    have hname : x.fragmentName? ∈ gs.map Definition.fragmentName? := List.mem_map_of_mem hx
    rw [hgsNames] at hname
    rw [hall, hnames]
    simpa using hname
  have hwrapped := @normalize_wrapped 0 _ _ _ _ hgiven rfl hdel hno [.canonicalize gs] {}
  obtain ⟨hone, -⟩ := @hwrapped ["\n"] (by decide) [] [] (List.forall_mem_nil _)
    (.keyed del.document) (.inl rfl)
  obtain ⟨-, htwice⟩ := @hwrapped ["\n", "\u3000"] (by decide) [.text "\t"]
    [.document del.document.document] (List.forall_mem_singleton.2 rfl) (.keyed del.document)
    (.inl rfl)
  obtain ⟨-, hechoed⟩ := @hwrapped [] (List.forall_mem_nil _) [] [.document gs]
    (List.forall_mem_nil _) (.keyed del.document) (.inl rfl)
  obtain ⟨notices, hnotices⟩ := (hechoed hfragments).2
    (List.forall_mem_singleton.2 (.inr (.inr hechoes)))
  exact ⟨gs, del, notices, hgs, hdel, hone (List.forall_mem_nil _),
    (htwice hfragments).1 (List.forall_mem_singleton.2 (.inr (.inr rfl))), hnotices⟩

end Session

end GraphqlClient.Normalization
