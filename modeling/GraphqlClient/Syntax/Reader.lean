import GraphqlClient.Syntax.Document
import GraphqlClient.Syntax.Scan

/-!
# Reading documents

The grammar of executable documents over tokens. It leaves out the definitions and extensions of a
type system, which the full grammar has besides, so that a text with one of them is refused here.

Three points are its own. An argument or object field that is a name without colon is read and
dropped. The token behind a field's name or behind three dots is looked at together with the comma
before it. And constructs nest so deep only: every selection set, list type, element of a list and
value of an object field takes one off a budget.
-/

namespace GraphqlClient.Syntax

open Reader

/-! ## Single tokens -/

/-- Whether a punctuation mark stands in front. -/
def opensMark (m : Mark) : List Token → Bool
  | ⟨.mark m', _⟩ :: _ => m' = m
  | _ => false

/-- Whether a name stands in front. -/
def opensName : List Token → Bool
  | ⟨.name _, _⟩ :: _ => true
  | _ => false

/-- A punctuation mark. -/
def readMark (m : Mark) : Reader Token Unit
  | ⟨.mark m', _⟩ :: ts => if m' = m then some ((), ts) else none
  | _ => none

/-- A name. -/
def readName : Reader Token Name
  | ⟨.name n, _⟩ :: ts => some (n, ts)
  | _ => none

/-- A given name. -/
def readKeyword (keyword : Name) : Reader Token Unit
  | ⟨.name n, _⟩ :: ts => if n = keyword then some ((), ts) else none
  | _ => none

/-- What a reader takes when a punctuation mark stands in front, otherwise a given value. -/
def ifMark {α : Type} (m : Mark) (otherwise : α) (r : Reader Token α) : Reader Token α := fun ts =>
  if opensMark m ts then r ts else some (otherwise, ts)

/-- Nothing. -/
def refuse {α : Type} : Reader Token α := fun _ => none

/-- The nesting budget of a document. -/
def maxNesting : Nat := 500

/-! ## Values -/

/-- The value that is a single name. -/
def nameValue (n : Name) : Value :=
  if n = "true" then .boolean true
  else if n = "false" then .boolean false
  else if n = "null" then .null
  else .enum n

/-- A name with a value behind a colon; a name alone is dropped. -/
def readField (value : Reader Token Value) : Reader Token (Option (Name × Value)) := do
  let n ← readName
  ifMark .colon none do
    readMark .colon
    let v ← value
    return some (n, v)

/-- The values of a list behind its opening bracket. -/
def readItems (inner : Reader Token Value) : Reader Token Value := do
  let vs ← many (!opensMark .bracketClose ·) inner
  readMark .bracketClose
  return .list vs

/-- The fields of an object behind its opening brace. -/
def readFields (inner : Reader Token Value) : Reader Token Value := do
  let fs ← many opensName (readField inner)
  readMark .braceClose
  return .object (fs.filterMap id)

/-- A value, with a reader for the values inside it. -/
def readValueWith (constant : Bool) (inner : Reader Token Value) : Reader Token Value
  | ⟨.mark .dollar, _⟩ :: ts => if constant then none else (Value.var <$> readName) ts
  | ⟨.name n, _⟩ :: ts => some (nameValue n, ts)
  | ⟨.int s, _⟩ :: ts => some (.int s, ts)
  | ⟨.float s, _⟩ :: ts => some (.float s, ts)
  | ⟨.string s, _⟩ :: ts => some (.string s, ts)
  | ⟨.mark .bracketOpen, _⟩ :: ts => readItems inner ts
  | ⟨.mark .braceOpen, _⟩ :: ts => readFields inner ts
  | _ => none

/-- A value within a budget; a constant one holds no variable. -/
def readValue (constant : Bool) : Nat → Reader Token Value
  | 0 => readValueWith constant refuse
  | budget + 1 => readValueWith constant (readValue constant budget)

/-- Arguments between parentheses; none without them. -/
def readArguments (value : Reader Token Value) : Reader Token Arguments :=
  ifMark .parenOpen [] do
    readMark .parenOpen
    let fs ← many1 opensName (readField value)
    readMark .parenClose
    return fs.filterMap id

/-- A directive. -/
def readDirective (value : Reader Token Value) : Reader Token Directive := do
  readMark .atSign
  let n ← readName
  let args ← readArguments value
  return ⟨n, args⟩

/-- Directives in order. -/
def readDirectives (value : Reader Token Value) : Reader Token (List Directive) :=
  many (opensMark .atSign) (readDirective value)

/-! ## Variables -/

/-- An exclamation mark or nothing. -/
def readRequired : Reader Token Bool :=
  ifMark .bang false do
    readMark .bang
    return true

/-- A type, with a reader for the type inside it. -/
def readTypeWith (inner : Reader Token TypeRef) : Reader Token TypeRef := do
  if opensMark .bracketOpen (← get) then
    readMark .bracketOpen
    let item ← inner
    readMark .bracketClose
    let required ← readRequired
    return .list item required
  else
    let n ← readName
    let required ← readRequired
    return .named n required

/-- A type within a budget. -/
def readType : Nat → Reader Token TypeRef
  | 0 => readTypeWith refuse
  | budget + 1 => readTypeWith (readType budget)

/-- A default value. -/
def readInitial (value : Reader Token Value) : Reader Token (Option Value) :=
  ifMark .equals none do
    readMark .equals
    let v ← value
    return some v

/-- The definition of a variable. -/
def readVariable : Reader Token VariableDefinition := do
  readMark .dollar
  let n ← readName
  readMark .colon
  let type ← readType maxNesting
  let initial ← readInitial (readValue true maxNesting)
  let ds ← readDirectives (readValue true maxNesting)
  return ⟨n, type, initial, ds⟩

/-- Definitions of variables between parentheses; none without them. -/
def readVariables : Reader Token (List VariableDefinition) :=
  ifMark .parenOpen [] do
    readMark .parenOpen
    let vs ← many1 (opensMark .dollar) readVariable
    readMark .parenClose
    return vs

/-! ## Selections -/

/-- The name of a field and the label before it, which a colon right behind it makes a label. -/
def readFieldName : Reader Token (Option Name × Name) := do
  let n ← readName
  match ← get with
  | ⟨.mark .colon, false⟩ :: _ =>
    readMark .colon
    let m ← readName
    return (some n, m)
  | _ => return (none, n)

/-- A selection set, or nothing. -/
def readOptionalSet (inner : Reader Token (List Selection)) : Reader Token (List Selection) :=
  ifMark .braceOpen [] inner

/-- A field. -/
def readFieldSelection (value : Reader Token Value) (inner : Reader Token (List Selection)) :
    Reader Token Selection := do
  let (label, n) ← readFieldName
  let args ← readArguments value
  let ds ← readDirectives value
  let ss ← readOptionalSet inner
  return .field label n args ds ss

/-- A type condition, or nothing. -/
def readOptionalCondition : Reader Token (Option Name) := fun ts =>
  if opensName ts then (do readKeyword "on"; let t ← readName; return some t : Reader Token _) ts
  else some (none, ts)

/-- A fragment spread behind its dots. -/
def readSpread (value : Reader Token Value) : Reader Token Selection := do
  let n ← readName
  let ds ← readDirectives value
  return .spread n ds

/-- An inline fragment behind its dots. -/
def readInlineFragment (value : Reader Token Value) (inner : Reader Token (List Selection)) :
    Reader Token Selection := do
  let t ← readOptionalCondition
  let ds ← readDirectives value
  let ss ← inner
  return .inlineFragment t ds ss

/-- What stands behind three dots: a spread, unless the name there is the one that opens a type
condition. A comma may not stand between. -/
def readFragmentSelection (value : Reader Token Value) (inner : Reader Token (List Selection)) :
    Reader Token Selection := fun ts =>
  match ts with
  | ⟨.name n, false⟩ :: _ =>
    if n = "on" then readInlineFragment value inner ts else readSpread value ts
  | ⟨_, false⟩ :: _ => readInlineFragment value inner ts
  | _ => none

/-- A selection. -/
def readSelection (value : Reader Token Value) (inner : Reader Token (List Selection)) :
    Reader Token Selection := do
  if opensMark .spread (← get) then
    readMark .spread
    readFragmentSelection value inner
  else readFieldSelection value inner

/-- A selection set within a budget. -/
def readSelectionSet : Nat → Reader Token (List Selection)
  | 0 => refuse
  | budget + 1 => do
    readMark .braceOpen
    let ss ← many1 (!opensMark .braceClose ·)
      (readSelection (readValue false budget) (readSelectionSet budget))
    readMark .braceClose
    return ss

/-! ## Definitions -/

/-- The operation type that a keyword names. -/
def operationType? (n : Name) : Option OperationType :=
  [.query, .mutation, .subscription].find? fun t => t.keyword = n

/-- A name, or nothing. -/
def readOptionalName : Reader Token (Option Name) := fun ts =>
  if opensName ts then (some <$> readName) ts else some (none, ts)

/-- An operation behind its keyword. -/
def readOperation (type : OperationType) : Reader Token Operation := do
  let n ← readOptionalName
  let vs ← readVariables
  let ds ← readDirectives (readValue false maxNesting)
  let ss ← readSelectionSet maxNesting
  return ⟨type, n, vs, ds, ss⟩

/-- A fragment behind its keyword. Its name is not the one that opens a type condition. -/
def readFragment : Reader Token Fragment := do
  let n ← readName
  if n = "on" then refuse
  readKeyword "on"
  let t ← readName
  let ds ← readDirectives (readValue false maxNesting)
  let ss ← readSelectionSet maxNesting
  return ⟨n, t, ds, ss⟩

/-- A definition. -/
def readDefinition : Reader Token Definition
  | ⟨.name n, _⟩ :: ts =>
    if n = "fragment" then (Definition.fragment <$> readFragment) ts
    else match operationType? n with
      | some type => (Definition.operation <$> readOperation type) ts
      | none => none
  | ts => ((fun ss => .operation ⟨.query, none, [], [], ss⟩) <$> readSelectionSet maxNesting) ts

/-- The document that tokens make up. -/
def Document.ofTokens? : List Token → Option Document :=
  Reader.whole (many1 (!·.isEmpty) readDefinition)

/-- The document that a text writes; none when it is not one. -/
def Document.ofText? (text : String) : Option Document :=
  (tokens? text.toList).bind Document.ofTokens?

end GraphqlClient.Syntax
