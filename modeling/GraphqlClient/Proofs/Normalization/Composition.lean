import GraphqlClient.Proofs.Normalization.Reading
import Mathlib.Logic.Relation

/-!
# Composing templates

A normalised document may be put into a template, and so on to any depth. The outcome is the one of
the flat template, in which each normalised document is replaced by the body and the documents that
were normalised (`normalize_unfolds`). A normalised document is not the list of its parts: repeated
fragments are gone from it, and it may be an older instance. But whatever it lost has a name that it
still has, and an older instance of read definitions holds the same document.
-/

namespace GraphqlClient.Normalization

open Syntax

/-- The value is a document whose definitions were read from texts. -/
structure Interpolation.IsRead (i : Interpolation) : Prop where
  document : i.isDocument = true
  definitions : ∀ x ∈ i.definitions, x.IsRead

/-- The document that a body writes, not normalised; nothing if the body is blank. -/
def bodyDocument (body : String) : List Interpolation :=
  if Text.isBlankText body then [] else (Document.ofText? body).toList.map .document

/-- One normalised document among values is replaced by what was normalised: the document that the
body writes and the documents of the template. It may have been normalised in any session that
handled documents that were read. -/
inductive Unfolds : List Interpolation → List Interpolation → Prop
  | intro {n : Nat} {history : List Command} {config : Config} {body : String}
    {parts : List Interpolation} {del : Delivery} (before after : List Interpolation)
    (history_read : ∀ c ∈ history, c.IsRead) (parts_read : ∀ i ∈ parts, i.IsRead)
    (normalized : ((Session.empty n).run history).normalize config ⟨[body], parts⟩ = some del)
    (noCollision : ((Session.empty n).run history).NoCollision ⟨[body], parts⟩) :
    Unfolds (before ++ .keyed del.document :: after)
      (before ++ (bodyDocument body ++ parts) ++ after)

/-! ## One replacement -/

theorem isDocument_bodyDocument (body : String) : ∀ i ∈ bodyDocument body, i.isDocument = true := by
  unfold bodyDocument
  split
  · exact fun _ hi => absurd hi List.not_mem_nil
  · intro i hi
    obtain ⟨d, -, rfl⟩ := List.mem_map.1 hi
    rfl

/-- Documents put into a template do not change its body. -/
theorem definitions?_documents (body : String) {parts : List Interpolation}
    (hparts : ∀ i ∈ parts, i.isDocument = true) :
    (Template.mk [body] parts).definitions?
      = if Text.isBlankText body && !(definitionsOf parts).isEmpty then some (definitionsOf parts)
        else (Document.ofText? body).map (· ++ definitionsOf parts) := by
  have hbody : (Template.mk [body] parts).body = body := by
    rw [Template.body_oneSegment, bodyTextOf_documents hparts, String.append_empty]
  unfold Template.definitions?
  rw [hbody]
  rfl

/-- What was normalised is the body and the parts. -/
theorem definitionsOf_bodyDocument {body : String} {parts : List Interpolation}
    (hparts : ∀ i ∈ parts, i.isDocument = true) {ds : List Definition}
    (h : (Template.mk [body] parts).definitions? = some ds) :
    definitionsOf (bodyDocument body ++ parts) = ds := by
  rw [definitions?_documents body hparts] at h
  rw [definitionsOf_append]
  unfold bodyDocument
  cases hblank : Text.isBlankText body with
  | true =>
    rw [hblank, ofText?_of_isBlankText hblank] at h
    split at h
    · exact Option.some.inj h
    · cases h
  | false =>
    rw [hblank] at h
    obtain ⟨d, hd, rfl⟩ := Option.map_eq_some_iff.1 h
    rw [hd]
    simp [Interpolation.definitions]

theorem definitions?_congr {body : String} {is js : List Interpolation}
    (htext : bodyTextOf is = bodyTextOf js)
    (hempty : (definitionsOf is).isEmpty = (definitionsOf js).isEmpty)
    (hdedupe : ∀ d : List Definition,
      dedupe (d ++ definitionsOf is) = dedupe (d ++ definitionsOf js)) :
    (Template.mk [body] is).definitions?.map dedupe
      = (Template.mk [body] js).definitions?.map dedupe := by
  have hbody : (Template.mk [body] is).body = (Template.mk [body] js).body := by
    rw [Template.body_oneSegment, htext, ← Template.body_oneSegment]
  have hinterpolated : (Template.mk [body] is).interpolated.isEmpty
      = (Template.mk [body] js).interpolated.isEmpty := hempty
  unfold Template.definitions?
  rw [hbody, hinterpolated]
  cases Text.isBlankText (Template.mk [body] js).body
      && !(Template.mk [body] js).interpolated.isEmpty with
  | true => exact congrArg some (hdedupe [])
  | false =>
    show ((Document.ofText? _).map _).map dedupe = ((Document.ofText? _).map _).map dedupe
    rw [Option.map_map, Option.map_map]
    exact congrArg (fun f => Option.map f _) (funext hdedupe)

theorem isRead_interpolated (body : String) {parts : List Interpolation}
    (hparts : ∀ i ∈ parts, i.IsRead) : ∀ x ∈ (Template.mk [body] parts).interpolated, x.IsRead := by
  intro x hx
  obtain ⟨i, hi, hx⟩ := List.mem_flatMap.1 hx
  exact (hparts i hi).definitions x hx

/-- One replacement leaves the document of the template as it is. -/
theorem definitions?_of_unfolds {is js : List Interpolation} (h : Unfolds is js) (outer : String) :
    (Template.mk [outer] is).definitions?.map dedupe
      = (Template.mk [outer] js).definitions?.map dedupe := by
  obtain @⟨n, history, config, body, parts, del, before, after, hhistory, hparts, hdel, hno⟩ := h
  obtain ⟨ds, hds, -, -⟩ := Session.normalize_eq_some hdel
  have hisDocument : ∀ i ∈ parts, i.isDocument = true := fun i hi => (hparts i hi).document
  have hinner : del.document.document = dedupe ds :=
    Session.document_normalize (Session.coherent_run_empty n history)
      (Session.all_run_empty n hhistory) (isRead_interpolated body hparts) hdel hno hds
  have hflat := definitionsOf_bodyDocument hisDocument hds
  have hnested : definitionsOf (before ++ .keyed del.document :: after)
      = definitionsOf before ++ (dedupe ds ++ definitionsOf after) := by
    simp [definitionsOf, Interpolation.definitions, hinner]
  have hunfolded : definitionsOf (before ++ (bodyDocument body ++ parts) ++ after)
      = definitionsOf before ++ (ds ++ definitionsOf after) := by
    rw [List.append_assoc, definitionsOf_append, definitionsOf_append]
    exact congrArg (fun xs => _ ++ (xs ++ _)) hflat
  have hne := Template.definitions?_ne_nil hds
  refine definitions?_congr ?_ ?_ fun d => ?_
  · have hdocuments : ∀ i ∈ bodyDocument body ++ parts, i.isDocument = true :=
      List.forall_mem_append.2 ⟨isDocument_bodyDocument body, hisDocument⟩
    have hkeyed : (Interpolation.keyed del.document).bodyText = "" := rfl
    simp only [bodyTextOf_append, bodyTextOf_cons, hkeyed, bodyTextOf_documents hdocuments,
      String.empty_append, String.append_empty]
  · rw [hnested, hunfolded, List.isEmpty_eq_false_iff.2, List.isEmpty_eq_false_iff.2]
    · simp [hne]
    · simp [dedupe_ne_nil hne]
  · rw [hnested, hunfolded, ← List.append_assoc, ← List.append_assoc d]
    exact dedupe_append_dedupe _ ds _

/-! ## Any number of replacements -/

theorem definitions?_of_reflTransGen {is js : List Interpolation}
    (h : Relation.ReflTransGen Unfolds is js) (outer : String) :
    (Template.mk [outer] is).definitions?.map dedupe
      = (Template.mk [outer] js).definitions?.map dedupe := by
  induction h with
  | refl => rfl
  | tail _ hstep ih => exact ih.trans (definitions?_of_unfolds hstep outer)

/-- A template with normalised documents in it and the flat template, in which they are replaced to
any depth by what was normalised, have one key and one text, in whatever sessions they are
normalised; and they have one instance from then on in the session of the first. -/
theorem normalize_unfolds {is js : List Interpolation} (h : Relation.ReflTransGen Unfolds is js)
    (body : String) (n₁ n₂ : Nat) (history₁ history₂ : List Command) (config₁ config₂ : Config)
    {del₁ : Delivery}
    (hdel₁ : ((Session.empty n₁).run history₁).normalize config₁ ⟨[body], is⟩ = some del₁)
    (hno₁ : ((Session.empty n₁).run history₁).NoCollision ⟨[body], is⟩)
    (hno₂ : ((Session.empty n₂).run history₂).NoCollision ⟨[body], js⟩) :
    (∃ del₂, ((Session.empty n₂).run history₂).normalize config₂ ⟨[body], js⟩ = some del₂
        ∧ del₂.document.key = del₁.document.key
        ∧ del₂.document.document.text = del₁.document.document.text)
      ∧ ∀ later, ((del₁.session.run later).normalize config₂ ⟨[body], js⟩).map Delivery.document
        = some del₁.document := by
  obtain ⟨ds₁, hds₁, hdocument₁, hsession₁⟩ := Session.normalize_eq_some hdel₁
  have hcoherent₁ := Session.coherent_run_empty n₁ history₁
  have hcoherent₂ := Session.coherent_run_empty n₂ history₂
  have hds := definitions?_of_reflTransGen h body
  rw [hds₁, Option.map_some, eq_comm, Option.map_eq_some_iff] at hds
  obtain ⟨ds₂, hds₂, hdedupe⟩ := hds
  constructor
  · obtain ⟨del₂, hdel₂⟩ := ((Session.empty n₂).run history₂).exists_normalize config₂ hds₂
    refine ⟨del₂, hdel₂, ?_, ?_⟩
    · obtain ⟨ds, hds, hdocument₂, -⟩ := Session.normalize_eq_some hdel₂
      obtain rfl : ds₂ = ds := Option.some.inj (hds₂.symm.trans hds)
      rw [hdocument₁, hdocument₂, Session.key_canonicalize hcoherent₁,
        Session.key_canonicalize hcoherent₂, hdedupe]
    · rw [Session.text_normalize hcoherent₁ hdel₁ hno₁ hds₁,
        Session.text_normalize hcoherent₂ hdel₂ hno₂ hds₂, hdedupe]
  · intro later
    rw [Session.normalize_eq, hds₂, Option.map_some, Option.map_some, hdedupe, hsession₁,
      Session.canonicalize_run_canonicalize hcoherent₁, hdocument₁]

/-- Two levels, the outer one of them without text, that both repeat a fragment. -/
theorem normalize_unfolds_twoLevels :
    ∃ fs gs inner middle nested flat,
      Document.ofText? "fragment F on T { b } fragment G on T { c }" = some gs
        ∧ Document.ofText? "fragment F on T { a }" = some fs
        ∧ (Session.empty 0).normalize {} ⟨["fragment F on T { a }"], [.document gs]⟩
          = some inner
        ∧ (Session.empty 0).normalize {} ⟨["\n"], [.keyed inner.document, .document gs]⟩
          = some middle
        ∧ (Session.empty 1).normalize {} ⟨["{ ...G }"], [.keyed middle.document]⟩
          = some nested
        ∧ (Session.empty 2).normalize {} ⟨["{ ...G }"],
            [.document fs, .document gs, .document gs]⟩ = some flat
        ∧ flat.document.key = nested.document.key
        ∧ flat.document.document.text = nested.document.document.text := by
  obtain ⟨gs, hgs⟩ : ∃ gs, Document.ofText?
      "fragment F on T { b } fragment G on T { c }" = some gs :=
    Option.isSome_iff_exists.1 (by decide +kernel)
  obtain ⟨fs, hfs⟩ : ∃ fs, Document.ofText? "fragment F on T { a }" = some fs :=
    Option.isSome_iff_exists.1 (by decide +kernel)
  obtain ⟨os, hos⟩ : ∃ os, Document.ofText? "{ ...G }" = some os :=
    Option.isSome_iff_exists.1 (by decide +kernel)
  have hnone (n : Nat) (t : Template) : ((Session.empty n).run []).NoCollision t :=
    fun _ _ _ he => absurd he List.not_mem_nil
  have hhistory : ∀ c ∈ ([] : List Command), c.IsRead := fun _ hc => absurd hc List.not_mem_nil
  have hallRead := Session.all_run_empty 0 hhistory
  have hgsRead : (Interpolation.document gs).IsRead := ⟨rfl, fun x hx => ⟨_, gs, hgs, hx⟩⟩
  have hdocuments {parts : List Interpolation} (h : ∀ i ∈ parts, i.IsRead) :
      ∀ i ∈ parts, i.isDocument = true := fun i hi => (h i hi).document
  -- the inner template: a fragment `F` of its own before those of `gs`
  have hinnerRead : ∀ i ∈ [Interpolation.document gs], i.IsRead :=
    List.forall_mem_singleton.2 hgsRead
  have hinnerBlank : Text.isBlankText "fragment F on T { a }" = false := by decide
  have hinnerDefinitions := definitions?_documents "fragment F on T { a }"
    (hdocuments hinnerRead)
  rw [hinnerBlank, hfs] at hinnerDefinitions
  obtain ⟨inner, hinner⟩ := (Session.empty 0).exists_normalize {} hinnerDefinitions
  -- the middle template, which is blank
  have hkeyed : (Interpolation.keyed inner.document).IsRead :=
    ⟨rfl, Session.isRead_normalize hallRead (isRead_interpolated _ hinnerRead) hinner⟩
  have hmiddleRead : ∀ i ∈ [Interpolation.keyed inner.document, .document gs], i.IsRead :=
    List.forall_mem_cons.2 ⟨hkeyed, hinnerRead⟩
  have hmiddleDefinitions := definitions?_documents "\n" (hdocuments hmiddleRead)
  have hblank : Text.isBlankText "\n" = true := by decide
  have hgsNonempty : (definitionsOf [.keyed inner.document, .document gs]).isEmpty = false := by
    have hne := (legal_of_ofText? hgs).ne_nil
    simp [definitionsOf, Interpolation.definitions, hne]
  rw [hblank, hgsNonempty] at hmiddleDefinitions
  obtain ⟨middle, hmiddle⟩ := (Session.empty 0).exists_normalize {} hmiddleDefinitions
  -- the outer template, nested and flat
  have houterDocument : ∀ i ∈ [Interpolation.keyed middle.document], i.isDocument = true :=
    List.forall_mem_singleton.2 rfl
  have houterDefinitions := definitions?_documents "{ ...G }" houterDocument
  have houterBlank : Text.isBlankText "{ ...G }" = false := by decide
  rw [houterBlank, hos] at houterDefinitions
  obtain ⟨nested, hnested⟩ := (Session.empty 1).exists_normalize {} houterDefinitions
  have hstep₁ : Unfolds [.keyed middle.document] [.keyed inner.document, .document gs] := by
    have h := Unfolds.intro [] [] hhistory hmiddleRead hmiddle (hnone 0 _)
    simpa [bodyDocument, hblank] using h
  have hstep₂ : Unfolds [.keyed inner.document, .document gs]
      [.document fs, .document gs, .document gs] := by
    have h := Unfolds.intro [] [.document gs] hhistory hinnerRead hinner (hnone 0 _)
    simpa [bodyDocument, hinnerBlank, hfs] using h
  have hsteps := (Relation.ReflTransGen.single hstep₁).tail hstep₂
  obtain ⟨⟨flat, hflat, hkey, htext⟩, -⟩ :=
    normalize_unfolds hsteps "{ ...G }" 1 2 [] [] {} {} hnested (hnone 1 _) (hnone 2 _)
  exact ⟨fs, gs, inner, middle, nested, flat, hgs, hfs, hinner, hmiddle, hnested, hflat, hkey,
    htext⟩

end GraphqlClient.Normalization
