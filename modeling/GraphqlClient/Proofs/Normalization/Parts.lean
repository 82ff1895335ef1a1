import GraphqlClient.Proofs.Normalization.Composition

/-!
# Templates and their parts

The parts of a template are its segments and values in turn (`Template.parts`), however many there
are of either: a segment that is missing is empty, and those that are left come last. A template
normalises like the text of its parts with one document behind it, which holds the definitions of
all (`Session.normalize_parts`). So it does not matter whether text is in a segment or a value,
where documents stand between texts, and whether a document has a key.
-/

namespace GraphqlClient.Normalization

open Syntax

namespace Template

/-- Each value and the segment behind it, from a segment on. A segment that is missing is empty. -/
def followed (segments : List String) (k : Nat) (is : List Interpolation) : List Interpolation :=
  (is.zipIdx k).flatMap fun p => [p.1, .text (segments.getD p.2 "")]

/-- The first segment, each value and the segment behind it, and the segments that are left. -/
def parts (t : Template) : List Interpolation :=
  .text (t.segments.getD 0 "") :: followed t.segments 1 t.interpolations
    ++ (t.segments.drop (1 + t.interpolations.length)).map .text

theorem followed_cons (segments : List String) (k : Nat) (i : Interpolation)
    (is : List Interpolation) :
    followed segments k (i :: is)
      = i :: .text (segments.getD k "") :: followed segments (k + 1) is := rfl

/-! ## The text of the parts -/

theorem weave_nil (segments : List String) :
    weave [] segments = bodyTextOf (segments.map .text) := by
  have hid : Interpolation.bodyText ∘ Interpolation.text = id := rfl
  rw [bodyTextOf, List.map_map, hid, List.map_id]
  cases segments <;> rfl

theorem weave_cons (i : Interpolation) (is : List Interpolation) (segments : List String) :
    weave (i :: is) segments = i.bodyText ++ (segments.getD 0 "" ++ weave is segments.tail) := by
  cases segments with
  | nil => exact congrArg (i.bodyText ++ ·) String.empty_append.symm
  | cons s segments => exact String.append_assoc ..

/-- From a segment on, the body is the text of the parts from there on. -/
theorem weave_drop (segments : List String) (k : Nat) (is : List Interpolation) :
    weave is (segments.drop k)
      = bodyTextOf (followed segments k is ++ (segments.drop (k + is.length)).map .text) := by
  induction is generalizing k with
  | nil => exact weave_nil _
  | cons i is ih =>
    have hhead : (segments.drop k).getD 0 "" = segments.getD k "" := by
      simp [List.getD_eq_getElem?_getD]
    have hlength : k + (i :: is).length = k + 1 + is.length := by
      rw [List.length_cons]
      omega
    rw [weave_cons, hhead, List.tail_drop, ih, hlength, followed_cons, List.cons_append,
      List.cons_append, bodyTextOf_cons, bodyTextOf_cons]
    rfl

theorem body_eq_bodyTextOf (t : Template) : t.body = bodyTextOf t.parts := by
  have hbody : t.body = t.segments.getD 0 "" ++ weave t.interpolations (t.segments.drop 1) := by
    unfold body
    cases t.segments with
    | nil => exact String.empty_append.symm
    | cons s segments => rfl
  rw [hbody, weave_drop, parts, List.cons_append, bodyTextOf_cons]
  rfl

/-- Of a value only its text comes into the body. -/
theorem weave_congr {is js : List Interpolation}
    (h : is.map Interpolation.bodyText = js.map Interpolation.bodyText) (segments : List String) :
    weave is segments = weave js segments := by
  induction is generalizing js segments with
  | nil =>
    obtain rfl := List.map_eq_nil_iff.1 h.symm
    rfl
  | cons i is ih =>
    obtain ⟨j, js, rfl, hj, hjs⟩ := List.map_eq_cons_iff.1 h.symm
    rw [weave_cons, weave_cons, hj, ih hjs.symm]

theorem body_congr {t : Template} {is : List Interpolation}
    (h : t.interpolations.map Interpolation.bodyText = is.map Interpolation.bodyText) :
    t.body = (mk t.segments is).body := by
  unfold body
  cases t.segments with
  | nil => exact weave_congr h []
  | cons s segments => exact congrArg (s ++ ·) (weave_congr h segments)

/-! ## The definitions of the parts -/

theorem definitionsOf_followed (segments : List String) (k : Nat) (is : List Interpolation) :
    definitionsOf (followed segments k is) = definitionsOf is := by
  induction is generalizing k with
  | nil => rfl
  | cons i is ih => exact congrArg (i.definitions ++ ·) (ih (k + 1))

theorem definitionsOf_text (segments : List String) : definitionsOf (segments.map .text) = [] := by
  induction segments with
  | nil => rfl
  | cons s segments ih => exact ih

theorem interpolated_eq_definitionsOf (t : Template) : t.interpolated = definitionsOf t.parts := by
  rw [parts, definitionsOf_append, definitionsOf_text, List.append_nil]
  exact (definitionsOf_followed t.segments 1 t.interpolations).symm

end Template

/-! ## Templates of equal parts -/

namespace Interpolation

/-- Of a document and a text, one adds nothing to the body and the other nothing behind it. -/
theorem swap {i j : Interpolation} (h : i.isDocument ≠ j.isDocument) (after : List Interpolation) :
    bodyTextOf (i :: j :: after) = bodyTextOf (j :: i :: after)
      ∧ definitionsOf (i :: j :: after) = definitionsOf (j :: i :: after) := by
  cases hi : i.isDocument with
  | true =>
    have hj : j.isDocument = false := by simpa [hi] using h
    simp [definitionsOf, bodyText_of_isDocument hi, definitions_of_not_isDocument hj]
  | false =>
    have hj : j.isDocument = true := by simpa [hi] using h
    simp [definitionsOf, bodyText_of_isDocument hj, definitions_of_not_isDocument hi]

end Interpolation

namespace Session

theorem normalize_congr {t t' : Template} (hbody : t.body = t'.body)
    (hinterpolated : t.interpolated = t'.interpolated) (s : Session) (config : Config) :
    s.normalize config t = s.normalize config t' := by
  have hdefinitions : t.definitions? = t'.definitions? := by
    rw [Template.definitions?, hbody, hinterpolated, ← Template.definitions?]
  rw [normalize_eq, normalize_eq, hdefinitions]

/-- What a template normalises to, in any session and with any settings, is what the text of its
parts does with one document behind it that holds the definitions of all parts. So a template whose
values are texts normalises like its text; segments may be put in as values; a document and a text
next to it may change places; and a document may be put in with or without its key. -/
theorem normalize_parts (s : Session) (config : Config) (t : Template) :
    s.normalize config t
        = s.normalize config ⟨[bodyTextOf t.parts], [.document (definitionsOf t.parts)]⟩
      ∧ ((∀ i ∈ t.interpolations, i.isDocument = false) →
        s.normalize config t = s.normalizeText config (bodyTextOf t.parts))
      ∧ (s.normalize config t = s.normalize config ⟨[], t.parts⟩
        ∧ ∀ (before after : List Interpolation) (i j : Interpolation),
          i.isDocument ≠ j.isDocument →
            s.normalize config ⟨[], before ++ i :: j :: after⟩
              = s.normalize config ⟨[], before ++ j :: i :: after⟩)
      ∧ ∀ (before after : List Interpolation) (d : KeyedDocument),
        t.interpolations = before ++ .keyed d :: after →
          s.normalize config t
            = s.normalize config ⟨t.segments, before ++ .document d.document :: after⟩ := by
  have hbody := t.body_eq_bodyTextOf
  have hinterpolated := t.interpolated_eq_definitionsOf
  refine ⟨?_, ?_, ⟨?_, ?_⟩, ?_⟩
  · apply normalize_congr
    · rw [hbody, Template.body_oneSegment]
      exact String.append_empty.symm
    · rw [hinterpolated]
      exact (List.append_nil _).symm
  · intro htexts
    apply normalize_congr
    · rw [hbody]
      exact String.append_empty.symm
    · refine List.flatMap_eq_nil_iff.2 fun i hi => ?_
      exact Interpolation.definitions_of_not_isDocument (htexts i hi)
  · exact normalize_congr (hbody.trans (Template.body_noSegments _).symm) hinterpolated s config
  · intro before after i j h
    obtain ⟨htexts, hdefinitions⟩ := Interpolation.swap h after
    apply normalize_congr
    · rw [Template.body_noSegments, Template.body_noSegments, bodyTextOf_append, htexts,
        ← bodyTextOf_append]
    · show definitionsOf (before ++ i :: j :: after) = definitionsOf (before ++ j :: i :: after)
      rw [definitionsOf_append, hdefinitions, ← definitionsOf_append]
  · intro before after d h
    apply normalize_congr
    · apply Template.body_congr
      rw [h, List.map_append, List.map_append]
      rfl
    · show definitionsOf t.interpolations = definitionsOf (before ++ .document d.document :: after)
      rw [h, definitionsOf_append, definitionsOf_append]
      rfl

/-- Three segments and one text, which stands behind the first. -/
def surplusSegments : Template :=
  ⟨[r"{ a", r" } fragment F on T ", "{ c }"], [.text " b"]⟩

/-- All of it as one text. -/
def surplusText : String := "{ a b } fragment F on T { c }"

theorem normalize_parts_surplusSegments :
    (empty 0).normalize {} surplusSegments = (empty 0).normalizeText {} surplusText
      ∧ ∃ del, (empty 0).normalizeText {} surplusText = some del
        ∧ del.session.normalize {} ⟨[r"{ d", r" }"], [.keyed del.document, .text " e"]⟩
          = del.session.normalize {}
            ⟨[r"{ d", r" }"], [.document del.document.document, .text " e"]⟩
        ∧ del.session.normalize {} ⟨[], [.text r"{ d", .keyed del.document, .text r" }"]⟩
          = del.session.normalize {} ⟨[], [.text r"{ d", .text r" }", .keyed del.document]⟩ := by
  have htext : bodyTextOf surplusSegments.parts = surplusText := by decide +kernel
  have htexts : ∀ i ∈ surplusSegments.interpolations, i.isDocument = false := by
    intro i hi
    obtain rfl := List.mem_singleton.1 hi
    rfl
  obtain ⟨-, hsurplus, -, -⟩ := normalize_parts (empty 0) {} surplusSegments
  obtain ⟨ds, hds⟩ : ∃ ds, Document.ofText? surplusText = some ds :=
    Option.isSome_iff_exists.1 (by decide +kernel)
  obtain ⟨del, hdel⟩ := (empty 0).exists_normalize {}
    ((Template.definitions?_ofText surplusText).trans hds)
  obtain ⟨-, -, ⟨-, hswap⟩, hkeyed⟩ := normalize_parts del.session {}
    ⟨[r"{ d", r" }"], [.keyed del.document, .text " e"]⟩
  refine ⟨htext ▸ hsurplus htexts, del, hdel, ?_, ?_⟩
  · exact hkeyed [] [.text " e"] del.document rfl
  · exact hswap [.text r"{ d"] [] (.keyed del.document) (.text r" }") nofun

end Session

end GraphqlClient.Normalization
