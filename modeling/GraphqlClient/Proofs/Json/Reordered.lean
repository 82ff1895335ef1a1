import GraphqlClient.Proofs.Json.Distinct
import Mathlib.Data.List.Forall2
import Mathlib.Data.List.Perm.Basic

/-!
# Values up to the order of members

`Value.Reordered` says that two values differ in the order of members only, at any depth: lists keep
their order and scalars stay as they are. On distinct keys, values that are reordered are equal in
the sense of `Value.same`.
-/

namespace GraphqlClient.Json

/-! ## Reordering -/

namespace Value

mutual

/-- The values differ in the order of members only. -/
inductive Reordered : Value → Value → Prop
  | null : Reordered .null .null
  | bool (b : Bool) : Reordered (.bool b) (.bool b)
  | number (n : Number) : Reordered (.number n) (.number n)
  | string (s : String) : Reordered (.string s) (.string s)
  | array {vs ws : List Value} (items : List.Forall₂ Reordered vs ws) :
    Reordered (.array vs) (.array ws)
  | object {ms ms' ns : List (String × Value)} (members : List.Forall₂ ReorderedMember ms ms')
    (perm : ms'.Perm ns) : Reordered (.object ms) (.object ns)

/-- The members have one key, and values that differ in the order of members only. -/
inductive ReorderedMember : String × Value → String × Value → Prop
  | mk (key : String) {v w : Value} (value : Reordered v w) : ReorderedMember (key, v) (key, w)

end

namespace Reordered

theorem refl (v : Value) : v.Reordered v := by
  induction v with
  | null => exact .null
  | bool b => exact .bool b
  | number n => exact .number n
  | string s => exact .string s
  | array vs ih => exact .array (List.forall₂_same.2 ih)
  | object ms ih => exact .object (List.forall₂_same.2 fun m hm => .mk m.1 (ih m hm)) (.refl ms)

theorem refl_items (vs : List Value) : List.Forall₂ Reordered vs vs :=
  List.forall₂_same.2 fun v _ => refl v

theorem refl_members (ms : Members) : List.Forall₂ ReorderedMember ms ms :=
  List.forall₂_same.2 fun m _ => .mk m.1 (refl m.2)

/-- Objects with the same members in another order are reordered. -/
theorem of_perm {ms ns : Members} (h : ms.Perm ns) : (Value.object ms).Reordered (.object ns) :=
  .object (refl_members ms) h

/-- Setting a key to values that are reordered gives objects that are. -/
theorem insert (key : String) {v w : Value} (h : v.Reordered w) (ms : Members) :
    (Value.object (ms.insert key v)).Reordered (.object (ms.insert key w)) := by
  suffices members : List.Forall₂ ReorderedMember (ms.insert key v) (ms.insert key w) from
    .object members (.refl _)
  induction ms with
  | nil => exact .cons (.mk key h) .nil
  | cons m ms ih =>
    obtain ⟨k, x⟩ := m
    rw [Members.insert, Members.insert]
    split
    · exact .cons (.mk k h) (refl_members ms)
    · exact .cons (.mk k (refl x)) ih

/-- Setting an item to values that are reordered gives lists that are. -/
theorem set (i : Nat) {v w : Value} (h : v.Reordered w) (vs : List Value) :
    (Value.array (vs.set i v)).Reordered (.array (vs.set i w)) := by
  suffices items : List.Forall₂ Reordered (vs.set i v) (vs.set i w) from .array items
  induction vs generalizing i with
  | nil => exact .nil
  | cons x vs ih =>
    cases i with
    | zero => exact .cons h (refl_items vs)
    | succ i => exact .cons (refl x) (ih i)

end Reordered

end Value

theorem keys_eq_of_reordered {ms ns : Members}
    (h : List.Forall₂ Value.ReorderedMember ms ns) : ms.keys = ns.keys := by
  induction h with
  | nil => rfl
  | cons hm _ ih =>
    cases hm
    simp only [Members.keys, List.map_cons] at ih ⊢
    rw [ih]

theorem exists_reorderedMember {ms ns : Members} (h : List.Forall₂ Value.ReorderedMember ms ns)
    {m : String × Value} (hm : m ∈ ms) : ∃ n ∈ ns, Value.ReorderedMember m n := by
  induction h with
  | nil => simp at hm
  | cons hmn _ ih =>
    rcases List.mem_cons.1 hm with rfl | hm
    · exact ⟨_, List.mem_cons_self, hmn⟩
    · obtain ⟨n, hn, hr⟩ := ih hm
      exact ⟨n, List.mem_cons_of_mem _ hn, hr⟩

/-! ## Equality of values -/

theorem sameItems_iff {vs ws : List Value} :
    sameItems vs ws = true ↔ List.Forall₂ (fun v w => v.same w = true) vs ws := by
  induction vs generalizing ws with
  | nil => cases ws <;> simp [sameItems]
  | cons v vs ih => cases ws <;> simp [sameItems, ih]

theorem sameMembers_iff {ms ns : Members} :
    sameMembers ms ns = true ↔ ∀ m ∈ ms, ∃ w, ns.lookup m.1 = some w ∧ m.2.same w = true := by
  induction ms with
  | nil => simp [sameMembers]
  | cons m ms ih =>
    obtain ⟨k, v⟩ := m
    rw [sameMembers, Bool.and_eq_true, ih, List.forall_mem_cons]
    refine and_congr_left fun _ => ?_
    cases ns.lookup k with
    | none => simp
    | some w => simp

theorem Number.same_refl (n : Number) : n.same n = true := by
  cases n with
  | integer n => exact beq_self_eq_true n
  | double x => exact Floating.Finite.same_iff.2 (.inl rfl)

/-- Values that are reordered are equal, if the keys of the second are distinct. -/
theorem Value.Reordered.same {v w : Value} (h : v.Reordered w) (hw : w.Distinct) :
    v.same w = true := by
  induction v generalizing w with
  | null => cases h; rfl
  | bool b => cases h; simp [Value.same]
  | number n => cases h; exact Number.same_refl n
  | string s => cases h; simp [Value.same]
  | array vs ih =>
    obtain _ | _ | _ | _ | items := h
    rw [Value.same, sameItems_iff]
    rw [distinct_array] at hw
    induction items with
    | nil => exact .nil
    | cons hv _ ih' =>
      obtain ⟨ihv, ih⟩ := List.forall_mem_cons.1 ih
      obtain ⟨hw, hws⟩ := List.forall_mem_cons.1 hw
      exact .cons (ihv hv hw) (ih' ih hws)
  | object ms ih =>
    obtain _ | _ | _ | _ | _ | ⟨members, perm⟩ := h
    obtain ⟨keys, distinct⟩ := distinct_object.1 hw
    rw [Value.same, Bool.and_eq_true, beq_iff_eq, sameMembers_iff]
    refine ⟨members.length_eq.trans perm.length_eq, ?_⟩
    intro m hm
    obtain ⟨m', hm', hr⟩ := exists_reorderedMember members hm
    have hn := perm.subset hm'
    have hlookup := Lookup.lookup_of_mem keys hn
    cases hr with
    | mk key value => exact ⟨_, hlookup, ih _ hm value (distinct _ hn)⟩

end GraphqlClient.Json
