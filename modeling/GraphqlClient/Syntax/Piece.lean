import GraphqlClient.Syntax.Token

/-!
# Pieces of written documents

A document is written as a list of pieces, the tokens and what stands between them. The text of the
pieces and the tokens among them are two views of it.
-/

namespace GraphqlClient.Syntax

/-- A piece of a written document. -/
inductive Piece
  | token (kind : TokenKind)
  /-- A comma and a blank. -/
  | comma
  /-- Blanks. -/
  | gap (blanks : List Char)

namespace Piece

/-- A punctuation mark. -/
abbrev mark (m : Mark) : Piece := .token (.mark m)

/-- A name. -/
abbrev name (n : String) : Piece := .token (.name n)

/-- A single blank. -/
abbrev space : Piece := .gap [' ']

/-- A new line at a level of indentation. -/
def newLine (level : Nat) : Piece := .gap ('\n' :: List.replicate (2 * level) ' ')

/-- Text of a piece. -/
def text : Piece → List Char
  | .token k => k.text
  | .comma => [',', ' ']
  | .gap blanks => blanks

/-- Text of pieces. -/
def textOf (ps : List Piece) : List Char := ps.flatMap text

@[simp] theorem textOf_cons (p : Piece) (ps : List Piece) :
    textOf (p :: ps) = p.text ++ textOf ps := by
  simp [textOf]

@[simp] theorem textOf_append (ps qs : List Piece) : textOf (ps ++ qs) = textOf ps ++ textOf qs := by
  simp [textOf]

/-- The tokens among pieces, the first of which stands behind a comma or not. -/
def tokensOf : Bool → List Piece → List Token
  | _, [] => []
  | afterComma, .token k :: ps => ⟨k, afterComma⟩ :: tokensOf false ps
  | _, .comma :: ps => tokensOf true ps
  | afterComma, .gap _ :: ps => tokensOf afterComma ps

end Piece

end GraphqlClient.Syntax
