import GraphqlClient.Json.Tree
import GraphqlClient.Proofs.Json.Members
import GraphqlClient.Proofs.Lookup

/-!
# Distinct keys

`Value.Distinct` says that no object inside a value repeats a key. It holds of every value that a
text writes (`Value.distinct_of_ofText?`), whatever keys the text repeats, and setting members keeps
it.
-/

namespace GraphqlClient.Json

open Text

/-- No object inside the value repeats a key. -/
inductive Value.Distinct : Value → Prop
  | null : Distinct .null
  | bool (b : Bool) : Distinct (.bool b)
  | number (n : Number) : Distinct (.number n)
  | string (s : String) : Distinct (.string s)
  | array {vs : List Value} (items : ∀ v ∈ vs, Distinct v) : Distinct (.array vs)
  | object {ms : Members} (keys : ms.keys.Nodup) (members : ∀ m ∈ ms, Distinct m.2) :
    Distinct (.object ms)

attribute [simp] Value.Distinct.null Value.Distinct.bool Value.Distinct.number
  Value.Distinct.string

@[simp] theorem distinct_array {vs : List Value} :
    (Value.array vs).Distinct ↔ ∀ v ∈ vs, v.Distinct := by
  constructor
  · rintro ⟨⟩
    assumption
  · exact .array

@[simp] theorem distinct_object {ms : Members} :
    (Value.object ms).Distinct ↔ ms.keys.Nodup ∧ ∀ m ∈ ms, m.2.Distinct := by
  constructor
  · rintro ⟨⟩
    constructor <;> assumption
  · rintro ⟨keys, members⟩
    exact .object keys members

theorem Value.Distinct.lookup {ms : Members} (h : (Value.object ms).Distinct) {key : String}
    {v : Value} (hv : ms.lookup key = some v) : v.Distinct :=
  (distinct_object.1 h).2 _ (Lookup.mem_of_lookup hv)

theorem Value.Distinct.insert {ms : Members} (h : (Value.object ms).Distinct) (key : String)
    {v : Value} (hv : v.Distinct) : (Value.object (ms.insert key v)).Distinct := by
  obtain ⟨keys, members⟩ := distinct_object.1 h
  apply Distinct.object (Members.nodup_keys_insert keys)
  intro m hm
  rcases Members.mem_insert hm with rfl | hm
  · exact hv
  · exact members m hm

/-- Setting members to values of distinct keys keeps keys distinct. -/
theorem Value.Distinct.merge {ms patch : Members} (h : (Value.object ms).Distinct)
    (hp : ∀ m ∈ patch, m.2.Distinct) : (Value.object (ms.merge patch)).Distinct := by
  induction patch generalizing ms with
  | nil => exact h
  | cons m patch ih =>
    obtain ⟨hm, hp⟩ := List.forall_mem_cons.1 hp
    exact ih (h.insert m.1 hm) hp

/-! ## Values that texts write -/

theorem Value.Distinct.collapse {ms : List (String × Value)} (h : ∀ m ∈ ms, m.2.Distinct) :
    (Value.object (Members.collapse ms)).Distinct :=
  merge (distinct_object.2 ⟨List.nodup_nil, by simp⟩) h

namespace Tree

mutual

/-- The value that a tree writes has distinct keys. -/
theorem distinct_of_value? {depth : Nat} : ∀ {t : Tree} {v : Value}, t.value? depth = some v →
    v.Distinct
  | .null, v, h => by
    cases h
    exact .null
  | .bool b, v, h => by
    cases h
    exact .bool b
  | .number n, v, h => by
    rw [value?] at h
    obtain ⟨m, -, rfl⟩ := Option.map_eq_some_iff.1 h
    exact .number m
  | .string symbols, v, h => by
    rw [value?] at h
    obtain ⟨s, -, rfl⟩ := Option.map_eq_some_iff.1 h
    exact .string s
  | .array ts, v, h => by
    rw [value?] at h
    split at h
    · cases h
    · obtain ⟨vs, hvs, rfl⟩ := Option.map_eq_some_iff.1 h
      exact .array (distinct_of_values? hvs)
  | .object ms, v, h => by
    rw [value?] at h
    split at h
    · cases h
    · obtain ⟨vs, hvs, rfl⟩ := Option.map_eq_some_iff.1 h
      exact .collapse (distinct_of_members? hvs)

theorem distinct_of_values? {depth : Nat} : ∀ {ts : List Tree} {vs : List Value},
    values? depth ts = some vs → ∀ v ∈ vs, v.Distinct
  | [], vs, h => by
    cases h
    exact nofun
  | t :: ts, vs, h => by
    rw [values?] at h
    obtain ⟨v, hv, h⟩ := Option.bind_eq_some_iff.1 h
    obtain ⟨vs, hvs, ⟨⟩⟩ := Option.bind_eq_some_iff.1 h
    exact List.forall_mem_cons.2 ⟨distinct_of_value? hv, distinct_of_values? hvs⟩

theorem distinct_of_members? {depth : Nat} : ∀ {ms : List (List Symbol × Tree)}
    {vs : List (String × Value)}, members? depth ms = some vs → ∀ m ∈ vs, m.2.Distinct
  | [], vs, h => by
    cases h
    exact nofun
  | (key, t) :: ms, vs, h => by
    rw [members?] at h
    obtain ⟨k, -, h⟩ := Option.bind_eq_some_iff.1 h
    obtain ⟨v, hv, h⟩ := Option.bind_eq_some_iff.1 h
    obtain ⟨vs, hvs, ⟨⟩⟩ := Option.bind_eq_some_iff.1 h
    exact List.forall_mem_cons.2 ⟨distinct_of_value? hv, distinct_of_members? hvs⟩

end

end Tree

/-- The value that a text writes has distinct keys. -/
theorem Value.distinct_of_ofText? {text : String} {v : Value} (h : Value.ofText? text = some v) :
    v.Distinct := by
  obtain ⟨t, -, ht⟩ := Option.bind_eq_some_iff.1 h
  exact Tree.distinct_of_value? ht

end GraphqlClient.Json
