import GraphqlClient.Syntax.Document
import GraphqlClient.Syntax.Piece

/-!
# Writing documents

The one form in which a document is written: definitions apart by an empty line, each selection on
a line of its own, two blanks to a level.
-/

namespace GraphqlClient.Syntax

open Piece

mutual

/-- A value. -/
def Value.pieces : Value → List Piece
  | .var n => [mark .dollar, .name n]
  | .int s => [.token (.int s)]
  | .float s => [.token (.float s)]
  | .string s => [.token (.string s)]
  | .boolean true => [.name "true"]
  | .boolean false => [.name "false"]
  | .null => [.name "null"]
  | .enum n => [.name n]
  | .list vs => mark .bracketOpen :: valuesPieces vs ++ [mark .bracketClose]
  | .object fs => mark .braceOpen :: fieldsPieces fs ++ [mark .braceClose]

/-- Values between commas. -/
def valuesPieces : List Value → List Piece
  | [] => []
  | [v] => v.pieces
  | v :: vs => v.pieces ++ .comma :: valuesPieces vs

/-- Names and values between commas. -/
def fieldsPieces : List (Name × Value) → List Piece
  | [] => []
  | [(n, v)] => .name n :: mark .colon :: space :: v.pieces
  | (n, v) :: fs => .name n :: mark .colon :: space :: v.pieces ++ .comma :: fieldsPieces fs

end

/-- Arguments between parentheses; nothing when there are none. -/
def argumentsPieces (args : Arguments) : List Piece :=
  if args.isEmpty then [] else mark .parenOpen :: fieldsPieces args ++ [mark .parenClose]

/-- A directive with a blank before it. -/
def Directive.pieces (d : Directive) : List Piece :=
  space :: mark .atSign :: .name d.name :: argumentsPieces d.arguments

/-- Directives in order. -/
def directivesPieces (ds : List Directive) : List Piece := ds.flatMap Directive.pieces

/-- An exclamation mark where a value is required. -/
def requiredPieces (required : Bool) : List Piece := if required then [mark .bang] else []

/-- A type. -/
def TypeRef.pieces : TypeRef → List Piece
  | .named n required => .name n :: requiredPieces required
  | .list item required =>
    mark .bracketOpen :: item.pieces ++ mark .bracketClose :: requiredPieces required

/-- A default value. -/
def initialPieces : Option Value → List Piece
  | none => []
  | some v => space :: mark .equals :: space :: v.pieces

/-- The definition of a variable. -/
def VariableDefinition.pieces (v : VariableDefinition) : List Piece :=
  mark .dollar :: .name v.name :: mark .colon :: space :: v.type.pieces
    ++ initialPieces v.initial ++ directivesPieces v.directives

/-- Definitions of variables between commas. -/
def variablesListPieces : List VariableDefinition → List Piece
  | [] => []
  | [v] => v.pieces
  | v :: vs => v.pieces ++ .comma :: variablesListPieces vs

/-- Definitions of variables between parentheses; nothing when there are none. -/
def variablesPieces (vs : List VariableDefinition) : List Piece :=
  if vs.isEmpty then [] else mark .parenOpen :: variablesListPieces vs ++ [mark .parenClose]

/-- A type condition with a blank before it; nothing when there is none. -/
def typeConditionPieces : Option Name → List Piece
  | none => []
  | some t => [space, .name "on", space, .name t]

/-- The label of a field. -/
def labelPieces : Option Name → List Piece
  | none => []
  | some l => [.name l, mark .colon, space]

mutual

/-- A selection at a level of indentation. -/
def Selection.pieces (level : Nat) : Selection → List Piece
  | .field label n args ds ss =>
    labelPieces label ++ .name n :: argumentsPieces args ++ directivesPieces ds
      ++ match ss with
        | [] => []
        | s :: ss =>
          space :: mark .braceOpen :: selectionsPieces level (s :: ss)
  | .spread n ds => mark .spread :: .name n :: directivesPieces ds
  | .inlineFragment t ds ss =>
    mark .spread :: typeConditionPieces t ++ directivesPieces ds
      ++ space :: mark .braceOpen :: selectionsPieces level ss

/-- The selections of a set at a level of indentation, each on a line, and the closing brace. -/
def selectionsPieces (level : Nat) : List Selection → List Piece
  | [] => [newLine level, mark .braceClose]
  | s :: ss => newLine (level + 1) :: s.pieces (level + 1) ++ selectionsPieces level ss

end

/-- The selection set of a definition. -/
def selectionSetPieces (ss : List Selection) : List Piece :=
  mark .braceOpen :: selectionsPieces 0 ss

/-- Whether an operation may be written as its selection set alone. -/
def Operation.isPlainQuery (o : Operation) : Bool :=
  o.type = .query && o.name.isNone && o.variableDefinitions.isEmpty && o.directives.isEmpty

/-- The name of an operation. -/
def operationNamePieces : Option Name → List Piece
  | none => []
  | some n => [space, .name n]

/-- An operation, the first definition of its document or not. -/
def Operation.pieces (first : Bool) (o : Operation) : List Piece :=
  if first && o.isPlainQuery then selectionSetPieces o.selections
  else .name o.type.keyword :: operationNamePieces o.name ++ variablesPieces o.variableDefinitions
    ++ directivesPieces o.directives ++ space :: selectionSetPieces o.selections

/-- A fragment. -/
def Fragment.pieces (f : Fragment) : List Piece :=
  .name "fragment" :: space :: .name f.name :: typeConditionPieces (some f.typeCondition)
    ++ directivesPieces f.directives ++ space :: selectionSetPieces f.selections

/-- A definition, the first one of its document or not. -/
def Definition.pieces (first : Bool) : Definition → List Piece
  | .operation o => o.pieces first
  | .fragment f => f.pieces

/-- Definitions that follow another one, and the end of the document. -/
def laterPieces : List Definition → List Piece
  | [] => [newLine 0]
  | d :: ds => newLine 0 :: newLine 0 :: d.pieces false ++ laterPieces ds

/-- A document. -/
def Document.pieces : Document → List Piece
  | [] => []
  | d :: ds => d.pieces true ++ laterPieces ds

/-- Text of a single definition. -/
def Definition.text (d : Definition) : String := String.ofList (textOf (d.pieces true))

/-- Text of a document. -/
def Document.text (d : Document) : String := String.ofList (textOf (Document.pieces d))

end GraphqlClient.Syntax
