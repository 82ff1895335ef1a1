import GraphqlClient.Operation.Basic
import GraphqlClient.Proofs.Json.Reordered
import Mathlib.Data.List.Nodup
import Mathlib.Data.String.Basic

/-!
# The encoding of variables is canonical

Sorting members by key is a canonical form when keys are distinct. So values that differ in the
order of members only have one encoding, and operations on such variables have one key.
-/

namespace GraphqlClient.Json

/-! ## The encoding over lists -/

theorem encodeValues_eq (ms : Members) : encodeValues ms = ms.map fun m => (m.1, m.2.encode) := by
  induction ms with
  | nil => rw [encodeValues, List.map_nil]
  | cons m ms ih =>
    obtain ⟨k, v⟩ := m
    rw [encodeValues, List.map_cons, ih]

/-! ## Sorting -/

theorem pairwise_sortMembers (ms : List (String × List Char)) :
    (sortMembers ms).Pairwise fun m n => m.1 ≤ n.1 := by
  have hsorted : (sortMembers ms).Pairwise fun m n => decide (m.1 ≤ n.1) = true := by
    apply List.pairwise_mergeSort
    · intro a b c hab hbc
      rw [decide_eq_true_eq] at hab hbc ⊢
      exact le_trans hab hbc
    · intro a b
      rw [Bool.or_eq_true, decide_eq_true_eq, decide_eq_true_eq]
      exact le_total a.1 b.1
  exact hsorted.imp of_decide_eq_true

theorem sortMembers_perm (ms : List (String × List Char)) : (sortMembers ms).Perm ms :=
  List.mergeSort_perm ms _

/-- With distinct keys, sorting forgets the order of members. -/
theorem sortMembers_eq_of_perm {ms ns : List (String × List Char)} (h : ms.Perm ns)
    (keys : (ms.map Prod.fst).Nodup) : sortMembers ms = sortMembers ns := by
  have hperm : (sortMembers ms).Perm (sortMembers ns) :=
    (sortMembers_perm ms).trans (h.trans (sortMembers_perm ns).symm)
  apply hperm.eq_of_pairwise _ (pairwise_sortMembers ms) (pairwise_sortMembers ns)
  intro m n hm hn hmn hnm
  -- Two members with one key are one member, since keys are distinct.
  have hm' := (sortMembers_perm ms).subset hm
  have hn' := h.symm.subset ((sortMembers_perm ns).subset hn)
  exact List.inj_on_of_nodup_map keys hm' hn' (le_antisymm hmn hnm)

/-! ## Reordering -/

theorem encodeValues_eq_of_reordered {ms ns : Members}
    (h : List.Forall₂ Value.ReorderedMember ms ns)
    (ih : ∀ m ∈ ms, ∀ w, m.2.Reordered w → m.2.encode = w.encode) :
    encodeValues ms = encodeValues ns := by
  induction h with
  | nil => rfl
  | cons hm _ ihs =>
    cases hm with
    | mk key value =>
      obtain ⟨ihm, ih⟩ := List.forall_mem_cons.1 ih
      rw [encodeValues, encodeValues, ihm _ value, ihs ih]

theorem encodeItems_eq_of_reordered {vs ws : List Value}
    (h : List.Forall₂ Value.Reordered vs ws)
    (ih : ∀ v ∈ vs, ∀ w, v.Reordered w → v.encode = w.encode) :
    encodeItems vs = encodeItems ws := by
  induction h with
  | nil => rfl
  | cons hv _ ihs =>
    obtain ⟨ihv, ih⟩ := List.forall_mem_cons.1 ih
    rw [encodeItems, encodeItems, ihv _ hv, ihs ih]

/-- Values that differ in the order of members only have one encoding. -/
theorem encode_eq_of_reordered {v w : Value} (h : v.Reordered w) (hv : v.Distinct) :
    v.encode = w.encode := by
  induction v generalizing w with
  | null => cases h; rfl
  | bool b => cases h; rfl
  | number n => cases h; rfl
  | string s => cases h; rfl
  | array vs ih =>
    obtain _ | _ | _ | _ | items := h
    rw [distinct_array] at hv
    have ih' : ∀ v ∈ vs, ∀ w, v.Reordered w → v.encode = w.encode := by
      intro v hm w hvw
      exact ih v hm hvw (hv v hm)
    rw [Value.encode, Value.encode, encodeItems_eq_of_reordered items ih']
  | object ms ih =>
    obtain _ | _ | _ | _ | _ | ⟨members, perm⟩ := h
    obtain ⟨keys, distinct⟩ := distinct_object.1 hv
    rename_i ms' ns
    have hvalues : encodeValues ms = encodeValues ms' := by
      apply encodeValues_eq_of_reordered members
      intro m hm w hmw
      exact ih m hm hmw (distinct m hm)
    have hperm : (encodeValues ms').Perm (encodeValues ns) := by
      rw [encodeValues_eq, encodeValues_eq]
      exact perm.map _
    have hkeys : (encodeValues ms').map Prod.fst = Members.keys ms' := by
      rw [encodeValues_eq, List.map_map]
      rfl
    have hsort : sortMembers (encodeValues ms') = sortMembers (encodeValues ns) := by
      refine sortMembers_eq_of_perm hperm ?_
      rw [hkeys, ← keys_eq_of_reordered members]
      exact keys
    rw [Value.encode, Value.encode, encodeObject, encodeObject, hvalues, hsort]

end GraphqlClient.Json

/-! ## Keys of operations -/

namespace GraphqlClient

open Normalization

/-- Variables that differ in the order of members only, at any depth, have one source of a key. -/
theorem OperationKey.source_eq_of_reordered {vs ws : Json.Members}
    (h : (Json.Value.object vs).Reordered (.object ws)) (hvs : (Json.Value.object vs).Distinct)
    (document : DocumentKey) : source document vs = source document ws := by
  unfold source Json.Members.encode
  rw [Json.encode_eq_of_reordered h hvs]

namespace Operation

/-- The key of an operation sees neither the order of members in its variables, at any depth, nor
its kind. -/
theorem key_eq_of_reordered {vs ws : Json.Members}
    (h : (Json.Value.object vs).Reordered (.object ws)) (hvs : (Json.Value.object vs).Distinct)
    (query : KeyedDocument) :
    (ofDocument query vs).key = (ofDocument query ws).key
      ∧ (∀ kind kind' : OperationKind, (ofKind kind query vs).key = (ofKind kind' query ws).key)
      ∧ ∀ (o : Operation) (kind : OperationKind), (o.withKind kind).key = o.key := by
  have hkey : OperationKey.of query.key vs = .of query.key ws := by
    unfold OperationKey.of
    rw [OperationKey.source_eq_of_reordered h hvs]
  exact ⟨hkey, fun _ _ => hkey, key_withKind⟩

/-- Variables with an object inside a list. -/
def nestedVariables : Json.Members :=
  [("b", .array [.object [("y", .null), ("x", .bool true)]]), ("a", .string "t")]

/-- The same variables with both objects in another order. -/
def nestedVariables' : Json.Members :=
  [("a", .string "t"), ("b", .array [.object [("x", .bool true), ("y", .null)]])]

theorem reordered_nestedVariables :
    (Json.Value.object nestedVariables).Reordered (.object nestedVariables') := by
  have hitem : (Json.Value.object [("y", .null), ("x", .bool true)]).Reordered
      (.object [("x", .bool true), ("y", .null)]) := .of_perm (.swap _ _ _)
  have hlist := Json.Value.Reordered.array (.cons hitem .nil)
  exact .object (.cons (.mk "b" hlist) (.cons (.mk "a" (.string "t")) .nil)) (.swap _ _ _)

theorem distinct_nestedVariables : (Json.Value.object nestedVariables).Distinct := by
  simp [nestedVariables]

theorem key_nestedVariables :
    (Json.Value.object nestedVariables).Reordered (.object nestedVariables')
      ∧ (Json.Value.object nestedVariables).Distinct
      ∧ (ofDocument ⟨⟨""⟩, [], 0⟩ nestedVariables).key
        = (ofKind .teardown ⟨⟨""⟩, [], 0⟩ nestedVariables').key := by
  obtain ⟨-, hkey, -⟩ :=
    key_eq_of_reordered reordered_nestedVariables distinct_nestedVariables ⟨⟨""⟩, [], 0⟩
  exact ⟨reordered_nestedVariables, distinct_nestedVariables, hkey .query .teardown⟩

end Operation

end GraphqlClient
