import GraphqlClient.Syntax.Writer
import Mathlib.Data.List.Basic

/-!
# How written documents are put together

Written lists come in two forms: items between commas (`commaSeparated`), and items one after the
other, each with what stands before it. What comes next is known from the first token among pieces
(`next?`), on which every decision of the grammar but those on commas depends.
-/

namespace GraphqlClient.Syntax

namespace Piece

/-! ## The first token -/

/-- The first token among pieces. -/
def next? : List Piece → Option TokenKind
  | [] => none
  | .token k :: _ => some k
  | .comma :: ps => next? ps
  | .gap _ :: ps => next? ps

@[simp] theorem next?_append (ps qs : List Piece) :
    next? (ps ++ qs) = (next? ps).or (next? qs) := by
  induction ps with
  | nil => rfl
  | cons p ps ih =>
    cases p with
    | token k => rfl
    | comma => exact ih
    | gap blanks => exact ih

/-- The first token among pieces is the first one of their tokens. -/
theorem head?_tokensOf (b : Bool) (ps : List Piece) :
    (tokensOf b ps).head?.map Token.kind = next? ps := by
  induction ps generalizing b with
  | nil => rfl
  | cons p ps ih =>
    cases p with
    | token k => rfl
    | comma => exact ih true
    | gap blanks => exact ih b

/-! ## Tokens of pieces -/

/-- Commas are no tokens. -/
theorem length_tokensOf (b : Bool) (ps : List Piece) :
    (tokensOf b ps).length = (tokensOf false ps).length := by
  induction ps generalizing b with
  | nil => rfl
  | cons p ps ih =>
    cases p with
    | token k => rfl
    | comma => rfl
    | gap blanks => exact ih b

theorem length_tokensOf_append (b : Bool) (ps qs : List Piece) :
    (tokensOf b (ps ++ qs)).length = (tokensOf b ps).length + (tokensOf false qs).length := by
  induction ps generalizing b with
  | nil => rw [List.nil_append, length_tokensOf, tokensOf, List.length_nil, Nat.zero_add]
  | cons p ps ih =>
    cases p with
    | token k =>
      have h := ih false
      simp only [List.cons_append, tokensOf, List.length_cons, h]
      omega
    | comma => exact ih true
    | gap blanks => exact ih b

/-- Pieces with a token come before fewer tokens than they begin. -/
theorem length_lt_of_next? {ps : List Piece} {k : TokenKind} (h : next? ps = some k) (b : Bool)
    (qs : List Piece) : (tokensOf false qs).length < (tokensOf b (ps ++ qs)).length := by
  have hpos : (tokensOf b ps).length ≠ 0 := by
    intro hzero
    have hhead := head?_tokensOf b ps
    rw [List.eq_nil_of_length_eq_zero hzero, h] at hhead
    cases hhead
  rw [length_tokensOf_append]
  omega

/-! ## Written lists -/

/-- The pieces of an item with a comma before it. -/
def afterComma {α : Type} (f : α → List Piece) (a : α) : List Piece := .comma :: f a

/-- The pieces of items between commas. -/
def commaSeparated {α : Type} (f : α → List Piece) : List α → List Piece
  | [] => []
  | a :: as => f a ++ as.flatMap (afterComma f)

theorem commaSeparated_cons_cons {α : Type} (f : α → List Piece) (a a' : α) (as : List α) :
    commaSeparated f (a :: a' :: as) = f a ++ .comma :: commaSeparated f (a' :: as) := by
  rw [commaSeparated, List.flatMap_cons]
  rfl

end Piece

open Piece

theorem valuesPieces_eq (vs : List Value) : valuesPieces vs = commaSeparated Value.pieces vs := by
  induction vs with
  | nil => rfl
  | cons v vs ih =>
    cases vs with
    | nil => simp [valuesPieces, commaSeparated]
    | cons w vs => rw [commaSeparated_cons_cons, ← ih, valuesPieces]; exact List.cons_ne_nil w vs

/-- The pieces of a name and the value behind it. -/
def fieldPieces (f : Name × Value) : List Piece := .name f.1 :: mark .colon :: space :: f.2.pieces

theorem fieldsPieces_eq (fs : List (Name × Value)) :
    fieldsPieces fs = commaSeparated fieldPieces fs := by
  induction fs with
  | nil => rfl
  | cons f fs ih =>
    cases fs with
    | nil => simp [fieldsPieces, commaSeparated, fieldPieces]
    | cons g fs =>
      rw [commaSeparated_cons_cons, ← ih, fieldsPieces]
      · rfl
      · exact List.cons_ne_nil g fs

theorem variablesListPieces_eq (vs : List VariableDefinition) :
    variablesListPieces vs = commaSeparated VariableDefinition.pieces vs := by
  induction vs with
  | nil => rfl
  | cons v vs ih =>
    cases vs with
    | nil => simp [variablesListPieces, commaSeparated]
    | cons w vs =>
      rw [commaSeparated_cons_cons, ← ih, variablesListPieces]
      exact List.cons_ne_nil w vs

/-- The pieces of a selection on a line of its own. -/
def linePieces (level : Nat) (s : Selection) : List Piece := newLine level :: s.pieces level

theorem selectionsPieces_eq (level : Nat) (ss : List Selection) :
    selectionsPieces level ss
      = ss.flatMap (linePieces (level + 1)) ++ [newLine level, mark .braceClose] := by
  induction ss with
  | nil => rfl
  | cons s ss ih => rw [selectionsPieces, ih, List.flatMap_cons, List.append_assoc]; rfl

/-- The pieces of a selection set behind a field, if there is one. -/
def optionalSetPieces (level : Nat) (ss : List Selection) : List Piece :=
  if ss.isEmpty then [] else space :: mark .braceOpen :: selectionsPieces level ss

theorem pieces_field (level : Nat) (label : Option Name) (n : Name) (args : Arguments)
    (ds : List Directive) (ss : List Selection) :
    (Selection.field label n args ds ss).pieces level
      = (labelPieces label ++ [.name n])
        ++ (argumentsPieces args ++ (directivesPieces ds ++ optionalSetPieces level ss)) := by
  cases ss <;> simp [Selection.pieces, optionalSetPieces]

/-- The pieces of a definition that is not the first one of its document. -/
def laterDefinitionPieces (d : Definition) : List Piece := newLine 0 :: newLine 0 :: d.pieces false

theorem laterPieces_eq (ds : List Definition) :
    laterPieces ds = ds.flatMap laterDefinitionPieces ++ [newLine 0] := by
  induction ds with
  | nil => rfl
  | cons d ds ih => rw [laterPieces, ih, List.flatMap_cons, List.append_assoc]; rfl

end GraphqlClient.Syntax
