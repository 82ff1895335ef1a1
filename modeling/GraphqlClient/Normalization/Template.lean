import GraphqlClient.Floating.Layout
import GraphqlClient.Normalization.Key
import GraphqlClient.Syntax.Reader
import GraphqlClient.Text.Blank
import GraphqlClient.Text.Numeral

/-!
# Templates

A template is text in segments with values between them. Text values become part of the body, the
definitions of documents follow those of the body.
-/

namespace GraphqlClient.Normalization

open Syntax

/-- A value put into a template. -/
inductive Interpolation
  /-- A normalised document, whose definitions follow the body. -/
  | keyed (d : KeyedDocument)
  /-- A document without key, whose definitions follow the body. -/
  | document (d : Document)
  /-- Text that becomes part of the body. -/
  | text (s : String)

namespace Interpolation

/-- A whole number as text. -/
def ofInt (n : Int) : Interpolation := .text (String.ofList (Text.integerText n))

/-- A truth value as text. -/
def ofBool (b : Bool) : Interpolation := .text (if b then "true" else "false")

/-- A floating-point value as text. -/
def ofFloating {F : Floating.Format} (x : Floating.Datum F) : Interpolation :=
  .text (String.ofList (Floating.Layout.plain.text x))

/-- What the value adds to the body. -/
def bodyText : Interpolation → String
  | .text s => s
  | _ => ""

/-- What the value adds behind the body. -/
def definitions : Interpolation → List Definition
  | .keyed d => d.document
  | .document d => d
  | .text _ => []

/-- The value is a document, normalised or not. -/
def isDocument : Interpolation → Bool
  | .text _ => false
  | _ => true

theorem bodyText_of_isDocument {i : Interpolation} (h : i.isDocument = true) : i.bodyText = "" := by
  cases i with
  | text s => cases h
  | _ => rfl

theorem definitions_of_not_isDocument {i : Interpolation} (h : i.isDocument = false) :
    i.definitions = [] := by
  cases i with
  | text s => rfl
  | _ => cases h

end Interpolation

/-- The text that values add to the body, in order. -/
def bodyTextOf (is : List Interpolation) : String := String.join (is.map Interpolation.bodyText)

@[simp] theorem bodyTextOf_cons (i : Interpolation) (is : List Interpolation) :
    bodyTextOf (i :: is) = i.bodyText ++ bodyTextOf is :=
  String.join_cons

@[simp] theorem bodyTextOf_append (is js : List Interpolation) :
    bodyTextOf (is ++ js) = bodyTextOf is ++ bodyTextOf js := by
  rw [bodyTextOf, List.map_append, String.join_append, bodyTextOf, bodyTextOf]

theorem bodyTextOf_documents {is : List Interpolation} (h : ∀ i ∈ is, i.isDocument = true) :
    bodyTextOf is = "" := by
  induction is with
  | nil => rfl
  | cons i is ih =>
    obtain ⟨hi, his⟩ := List.forall_mem_cons.1 h
    rw [bodyTextOf_cons, Interpolation.bodyText_of_isDocument hi, ih his, String.empty_append]

/-- The definitions of values in order. -/
abbrev definitionsOf (is : List Interpolation) : List Definition :=
  is.flatMap Interpolation.definitions

theorem definitionsOf_append (is js : List Interpolation) :
    definitionsOf (is ++ js) = definitionsOf is ++ definitionsOf js :=
  List.flatMap_append

/-- Segments of text and the values between them. There may be fewer or more segments than values
need. -/
structure Template where
  segments : List String
  interpolations : List Interpolation := []

namespace Template

/-- A text without values. -/
def ofText (text : String) : Template := { segments := [text] }

/-- Values and segments in turn, a value first, and the segments that are left. -/
def weave : List Interpolation → List String → String
  | [], segments => String.join segments
  | i :: is, [] => i.bodyText ++ weave is []
  | i :: is, s :: segments => i.bodyText ++ s ++ weave is segments

/-- Without segments the values stand one behind the other. -/
theorem weave_noSegments (is : List Interpolation) : weave is [] = bodyTextOf is := by
  induction is with
  | nil => rfl
  | cons i is ih => rw [weave, ih, bodyTextOf_cons]

/-- The text of the template. -/
def body (t : Template) : String :=
  match t.segments with
  | [] => weave t.interpolations []
  | s :: segments => s ++ weave t.interpolations segments

theorem body_noSegments (is : List Interpolation) : (mk [] is).body = bodyTextOf is :=
  weave_noSegments is

theorem body_oneSegment (s : String) (is : List Interpolation) :
    (mk [s] is).body = s ++ bodyTextOf is :=
  congrArg (s ++ ·) (weave_noSegments is)

/-- The definitions of the documents in the template. -/
def interpolated (t : Template) : List Definition :=
  t.interpolations.flatMap Interpolation.definitions

/-- All definitions of the template in order; none when its body is no document. A blank body is
accepted when some document brings a definition. -/
def definitions? (t : Template) : Option (List Definition) :=
  if Text.isBlankText t.body && !t.interpolated.isEmpty then some t.interpolated
  else (Document.ofText? t.body).map (· ++ t.interpolated)

theorem definitions?_ofText (text : String) :
    (ofText text).definitions? = Document.ofText? text := by
  have hbody : (ofText text).body = text := by simp [ofText, body, weave]
  have hinterpolated : (ofText text).interpolated = [] := rfl
  simp [definitions?, hbody, hinterpolated]

end Template

end GraphqlClient.Normalization
