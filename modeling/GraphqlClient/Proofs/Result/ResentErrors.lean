import GraphqlClient.Proofs.Response.ErrorShape
import GraphqlClient.Result.Basic

/-!
# Errors sent again

Writing an error and reading what was written gives the error back (`GraphqlError.ofValue_toValue`).
The parts that are left out because they are empty are the parts that are read as empty where they
are absent (`part_optional`), so that the members an error writes are members that write it in the
sense of `GraphqlError.Writes`. Errors that have been read once can therefore be sent on to another
reader, in a list of their own or with the combined error of a result (`errors_resent`).
-/

namespace GraphqlClient.Response

open Json

namespace GraphqlError

/-- A member that is left out where the list that it writes is empty. -/
def optional {α : Type} (key : String) (xs : List α) (v : Value) : Members :=
  if xs.isEmpty then [] else [(key, v)]

/-- The members that write an error. -/
def members (e : GraphqlError) : Members :=
  [("message", .string e.message)]
    ++ optional "locations" e.locations (.array (e.locations.map Location.toValue))
    ++ optional "path" e.path (pathValue e.path)
    ++ optional "extensions" e.extensions (.object e.extensions)

section

variable {α : Type} {key key' : String} {xs : List α} {v : Value}

theorem lookup_optional_of_ne (h : key' ≠ key) : (optional key xs v).lookup key' = none := by
  cases xs with
  | nil => rfl
  | cons x xs =>
    rw [optional, List.isEmpty_cons, if_neg Bool.false_ne_true, List.lookup_cons,
      beq_false_of_ne h]
    rfl

/-- A list that is left out where it is empty is read back. -/
theorem part_optional {writes : Value → List α → Prop} (h : writes v xs) :
    Part writes [] ((optional key xs v).lookup key) xs := by
  cases xs with
  | nil => rfl
  | cons x xs => simpa [optional, List.lookup_cons, Part] using h

end

theorem writesLocations_map (ls : List Location) :
    WritesLocations (.array (ls.map Location.toValue)) ls := by
  refine ⟨_, rfl, List.forall₂_map_left_iff.2 (List.forall₂_same.2 fun l _ => ?_)⟩
  exact .object rfl rfl

theorem writes_members (e : GraphqlError) : e.Writes e.members where
  message := rfl
  locations := by
    simpa [members, List.lookup_append, List.lookup_cons, lookup_optional_of_ne]
      using part_optional (writesLocations_map e.locations)
  path := by
    simpa [members, List.lookup_append, List.lookup_cons, lookup_optional_of_ne] using
      @part_optional _ "path" e.path _ (fun v path => v = pathValue path) rfl
  extensions := by
    simpa [members, List.lookup_append, List.lookup_cons, lookup_optional_of_ne] using
      @part_optional _ "extensions" e.extensions _ (fun v os => v = .object os) rfl

theorem ofValue_toValue (e : GraphqlError) : ofValue e.toValue = e :=
  ofValue_of_writes e.writes_members

end GraphqlError

end GraphqlClient.Response

namespace GraphqlClient.Result

open Json Response

theorem errorsOf?_map_toValue (es : List GraphqlError) :
    errorsOf? (some (.array (es.map GraphqlError.toValue))) = some es := by
  have hid : GraphqlError.ofValue ∘ GraphqlError.toValue = id := funext GraphqlError.ofValue_toValue
  rw [errorsOf?, List.map_map, hid, List.map_id]

/-- Reading undoes writing: for errors, whatever their parts are, and for paths, whose segments keep
their kinds. So errors that have been read and are sent again in a list are read as before, and so
are the errors within a combined error. -/
theorem errors_resent :
    (∀ e : GraphqlError, GraphqlError.ofValue e.toValue = e)
      ∧ (∀ (name : ShapedMember) (path : Path),
        readPathMember name (pathValue path) = .ok path)
      ∧ (∀ es : List GraphqlError,
        errorsOf? (some (.array (es.map GraphqlError.toValue))) = some es)
      ∧ (∀ vs : List Value,
        errorsOf? (some (.array (vs.map fun v => (GraphqlError.ofValue v).toValue)))
          = errorsOf? (some (.array vs)))
      ∧ ∀ e : CombinedError, ∃ ms, e.toValue = .object ms
        ∧ errorsOf? (ms.lookup "graphQLErrors") = some e.graphqlErrors := by
  refine ⟨GraphqlError.ofValue_toValue, ?_, errorsOf?_map_toValue, ?_, ?_⟩
  · exact fun name path => readPathMember_eq_ok_iff.2 rfl
  · intro vs
    show errorsOf? (some (.array (vs.map (GraphqlError.toValue ∘ GraphqlError.ofValue)))) = _
    rw [← List.map_map, errorsOf?_map_toValue, errorsOf?]
  · intro e
    exact ⟨_, rfl, errorsOf?_map_toValue e.graphqlErrors⟩

example :
    readPath (.array [.string "18446744073709551615", .number (.integer 18446744073709551615)])
      = .ok [.field "18446744073709551615", .index 18446744073709551615] := rfl

end GraphqlClient.Result
