import GraphqlClient.Json.Number

/-!
# JSON values

Members of an object keep the order in which their keys first arrived. Equality of values
(`Value.same`) does not see that order.
-/

namespace GraphqlClient.Json

/-- A JSON value. -/
inductive Value
  | null
  | bool (b : Bool)
  | number (n : Number)
  | string (s : String)
  | array (items : List Value)
  | object (members : List (String × Value))

/-- Induction over values, with the hypothesis for every item and every member. -/
@[elab_as_elim, induction_eliminator]
theorem Value.induction {motive : Value → Prop} (null : motive .null)
    (bool : ∀ b, motive (.bool b)) (number : ∀ n, motive (.number n))
    (string : ∀ s, motive (.string s))
    (array : ∀ vs, (∀ v ∈ vs, motive v) → motive (.array vs))
    (object : ∀ ms, (∀ m ∈ ms, motive m.2) → motive (.object ms)) (v : Value) : motive v :=
  @Value.rec motive (fun vs => ∀ v ∈ vs, motive v) (fun ms => ∀ m ∈ ms, motive m.2)
    (fun m => motive m.2) null bool number string array object
    (fun _ h => nomatch h) (fun _ _ hv hvs => List.forall_mem_cons.2 ⟨hv, hvs⟩)
    (fun _ h => nomatch h) (fun _ _ hm hms => List.forall_mem_cons.2 ⟨hm, hms⟩)
    (fun _ _ hv => hv) v

/-- The members of an object, in order. -/
abbrev Members := List (String × Value)

namespace Members

/-- The keys in order. -/
abbrev keys (ms : Members) : List String := ms.map Prod.fst

/-- Sets the value of a key: in its place if the key is present, otherwise at the end. -/
def insert (key : String) (value : Value) : Members → Members
  | [] => [(key, value)]
  | (k, v) :: ms => if k = key then (k, value) :: ms else (k, v) :: insert key value ms

/-- Sets every member of `patch` in turn. -/
def merge (ms patch : Members) : Members :=
  patch.foldl (fun acc m => insert m.1 m.2 acc) ms

/-- The members that remain of a list with repeated keys: each key in its first place with its
last value. -/
def collapse (ms : List (String × Value)) : Members := merge [] ms

theorem keys_insert (key : String) (value : Value) (ms : Members) :
    (insert key value ms).keys = if key ∈ ms.keys then ms.keys else ms.keys ++ [key] := by
  induction ms with
  | nil => rfl
  | cons m ms ih => by_cases h : m.1 = key <;> grind [insert]

theorem lookup_insert (key key' : String) (value : Value) (ms : Members) :
    (insert key value ms).lookup key' = if key' = key then some value else ms.lookup key' := by
  induction ms with
  | nil => grind [insert]
  | cons m ms ih => by_cases h : m.1 = key <;> grind [insert]

theorem nodup_keys_insert {key : String} {value : Value} {ms : Members} (h : ms.keys.Nodup) :
    (insert key value ms).keys.Nodup := by
  rw [keys_insert]
  split
  · exact h
  · grind

end Members

mutual

/-- Equality of values, whatever the order of members. -/
def Value.same : Value → Value → Bool
  | .null, .null => true
  | .bool a, .bool b => a == b
  | .number m, .number n => m.same n
  | .string s, .string t => s == t
  | .array xs, .array ys => sameItems xs ys
  | .object ms, .object ns => ms.length == ns.length && sameMembers ms ns
  | _, _ => false

/-- Equality of lists of values, item by item. -/
def sameItems : List Value → List Value → Bool
  | [], [] => true
  | x :: xs, y :: ys => x.same y && sameItems xs ys
  | _, _ => false

/-- Whether every member on the left has an equal one on the right. -/
def sameMembers : List (String × Value) → List (String × Value) → Bool
  | [], _ => true
  | (k, v) :: ms, ns =>
    (match ns.lookup k with
      | some w => v.same w
      | none => false) && sameMembers ms ns

end

/-- Equality of optional values. -/
def sameOption : Option Value → Option Value → Bool
  | none, none => true
  | some v, some w => v.same w
  | _, _ => false

namespace Value

/-- Whether the value is an object or a list. -/
def isContainer : Value → Bool
  | .array _ => true
  | .object _ => true
  | _ => false

/-- Whether the value counts as set: neither null, false, zero nor the empty string. -/
def isTruthy : Value → Bool
  | .null => false
  | .bool b => b
  | .number n => !n.isZero
  | .string s => s ≠ ""
  | .array _ => true
  | .object _ => true

/-- The values that count as set, kind by kind: true, an integer other than zero, a double with a
value other than zero, a string that is not empty, and every list and object. Null is none. -/
inductive Truthy : Value → Prop
  | bool : Truthy (.bool true)
  | integer {n : Int} (nonzero : n ≠ 0) : Truthy (.number (.integer n))
  | double {x : Floating.Finite Floating.binary64}
    (nonzero : Floating.binary64.numerator x.rank ≠ 0) : Truthy (.number (.double x))
  | string {s : String} (nonempty : s ≠ "") : Truthy (.string s)
  | array (items : List Value) : Truthy (.array items)
  | object (members : Members) : Truthy (.object members)

theorem isTruthy_eq_true_iff {v : Value} : v.isTruthy = true ↔ v.Truthy := by
  constructor
  · intro h
    cases v with
    | null => cases h
    | bool b =>
      obtain rfl : b = true := h
      exact .bool
    | number n =>
      have hnonzero : ¬n.isZero = true := by simpa [isTruthy] using h
      rw [Number.isZero_eq_true_iff, not_or] at hnonzero
      cases n with
      | integer n => exact .integer fun hn => hnonzero.1 (congrArg Number.integer hn)
      | double x => exact .double fun hx => hnonzero.2 ⟨x, rfl, hx⟩
    | string s => exact .string (of_decide_eq_true h)
    | array items => exact .array items
    | object members => exact .object members
  · intro h
    cases h with
    | bool => rfl
    | integer nonzero => simpa [isTruthy, Number.isZero] using nonzero
    | double nonzero =>
      rw [Ne, Floating.Format.numerator_eq_zero_iff] at nonzero
      simpa [isTruthy, Number.isZero] using nonzero
    | string nonempty => exact decide_eq_true nonempty
    | array => rfl
    | object => rfl

end Value

end GraphqlClient.Json
