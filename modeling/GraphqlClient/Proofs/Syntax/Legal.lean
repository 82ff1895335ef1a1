import GraphqlClient.Proofs.Text.NumeralText
import GraphqlClient.Syntax.Reader

/-!
# Documents that can be written down

A syntax tree may hold what no text reads as: a name with a blank in it, a fragment called `on`, a
field of a constant object that is a variable, or selections nested deeper than the grammar allows.
`Definition.Legal` excludes this. The predicates follow the grammar, and each construct that takes
one off the nesting budget takes one off it here.
-/

namespace GraphqlClient.Syntax

open Text

/-! ## Tokens -/

/-- Text of a name. -/
def IsName (n : Name) : Prop :=
  ∃ c cs, n.toList = c :: cs ∧ isNameStart c = true ∧ ∀ d ∈ cs, isNameChar d = true

theorem isName_of_all {n : Name} {c : Char} {cs : List Char} (hn : n.toList = c :: cs)
    (h : (isNameStart c && cs.all isNameChar) = true) : IsName n := by
  obtain ⟨hc, hcs⟩ := Bool.and_eq_true_iff.1 h
  exact ⟨c, cs, hn, hc, List.all_eq_true.1 hcs⟩

/-- Text of a number, a whole one or not. -/
def IsNumber (whole : Bool) (s : String) : Prop :=
  ∃ n : Numeral, n.Regular ∧ n.isWhole = whole ∧ s = String.ofList n.text

/-- The token is one that can be written. -/
def TokenKind.Regular : TokenKind → Prop
  | .mark _ => True
  | .name n => IsName n
  | .int s => IsNumber true s
  | .float s => IsNumber false s
  | .string _ => True

/-! ## Values -/

/-- The value can be written within a nesting budget, as a constant or not. -/
inductive Value.Legal (constant : Bool) : Nat → Value → Prop
  | var {b n} (notConstant : constant = false) (name : IsName n) : Legal constant b (.var n)
  | int {b s} (number : IsNumber true s) : Legal constant b (.int s)
  | float {b s} (number : IsNumber false s) : Legal constant b (.float s)
  | string {b s} : Legal constant b (.string s)
  | boolean {b x} : Legal constant b (.boolean x)
  | null {b} : Legal constant b .null
  | enum {b n} (name : IsName n) (keyword : nameValue n = .enum n) : Legal constant b (.enum n)
  | list {b vs} (nesting : vs ≠ [] → 0 < b) (items : ∀ v ∈ vs, Legal constant (b - 1) v) :
    Legal constant b (.list vs)
  | object {b fs} (nesting : fs ≠ [] → 0 < b) (names : ∀ f ∈ fs, IsName f.1)
    (values : ∀ f ∈ fs, Legal constant (b - 1) f.2) : Legal constant b (.object fs)

/-- The argument can be written. -/
structure ArgumentLegal (constant : Bool) (b : Nat) (a : Name × Value) : Prop where
  name : IsName a.1
  value : a.2.Legal constant b

/-- The directive can be written. -/
structure Directive.Legal (constant : Bool) (b : Nat) (d : Directive) : Prop where
  name : IsName d.name
  arguments : ∀ a ∈ d.arguments, ArgumentLegal constant b a

/-! ## Variables -/

/-- The type can be written within a nesting budget. -/
inductive TypeRef.Legal : Nat → TypeRef → Prop
  | named {b n required} (name : IsName n) : Legal b (.named n required)
  | list {b item required} (nested : Legal b item) : Legal (b + 1) (.list item required)

/-- The definition of a variable can be written. -/
structure VariableDefinition.Legal (v : VariableDefinition) : Prop where
  name : IsName v.name
  type : v.type.Legal maxNesting
  initial : ∀ x ∈ v.initial, x.Legal true maxNesting
  directives : ∀ d ∈ v.directives, d.Legal true maxNesting

/-! ## Selections -/

/-- The selection can be written, where what is inside it has a nesting budget. -/
inductive Selection.Legal : Nat → Selection → Prop
  | field {b l n args ds ss} (label : ∀ m ∈ l, IsName m) (name : IsName n)
    (arguments : ∀ a ∈ args, ArgumentLegal false b a) (directives : ∀ d ∈ ds, d.Legal false b)
    (nesting : ss ≠ [] → 0 < b) (selections : ∀ s ∈ ss, Legal (b - 1) s) :
    Legal b (.field l n args ds ss)
  | spread {b n ds} (name : IsName n) (ne_on : n ≠ "on") (directives : ∀ d ∈ ds, d.Legal false b) :
    Legal b (.spread n ds)
  | inlineFragment {b t ds ss} (typeCondition : ∀ n ∈ t, IsName n)
    (directives : ∀ d ∈ ds, d.Legal false b) (ne_nil : ss ≠ []) (nesting : 0 < b)
    (selections : ∀ s ∈ ss, Legal (b - 1) s) : Legal b (.inlineFragment t ds ss)

/-- The selections can be written as a selection set within a nesting budget. -/
structure SelectionSetLegal (b : Nat) (ss : List Selection) : Prop where
  ne_nil : ss ≠ []
  nesting : 0 < b
  selections : ∀ s ∈ ss, s.Legal (b - 1)

/-! ## Definitions -/

/-- The operation can be written. -/
structure Operation.Legal (o : Operation) : Prop where
  name : ∀ n ∈ o.name, IsName n
  variableDefinitions : ∀ v ∈ o.variableDefinitions, v.Legal
  directives : ∀ d ∈ o.directives, d.Legal false maxNesting
  selections : SelectionSetLegal maxNesting o.selections

/-- The fragment can be written. -/
structure Fragment.Legal (f : Fragment) : Prop where
  name : IsName f.name
  ne_on : f.name ≠ "on"
  typeCondition : IsName f.typeCondition
  directives : ∀ d ∈ f.directives, d.Legal false maxNesting
  selections : SelectionSetLegal maxNesting f.selections

/-- The definition can be written. -/
def Definition.Legal : Definition → Prop
  | .operation o => o.Legal
  | .fragment f => f.Legal

/-- The document can be written: it holds a definition, and its definitions can be written. -/
structure DocumentLegal (d : Document) : Prop where
  ne_nil : d ≠ []
  definitions : ∀ x ∈ d, x.Legal

end GraphqlClient.Syntax
