import GraphqlClient.Proofs.Json.Members

/-!
# Counting values

Every value in a JSON value counts as one node, the value itself included. Setting an item or a
member changes the count by the difference of the values.
-/

namespace GraphqlClient.Json

mutual

/-- How many values a value holds, itself included. -/
def Value.nodes : Value → Nat
  | .array items => 1 + itemsNodes items
  | .object ms => 1 + membersNodes ms
  | _ => 1

/-- How many values items hold. -/
def itemsNodes : List Value → Nat
  | [] => 0
  | v :: vs => v.nodes + itemsNodes vs

/-- How many values the members of an object hold. -/
def membersNodes : List (String × Value) → Nat
  | [] => 0
  | (_, v) :: ms => v.nodes + membersNodes ms

end

/-- How many values an optional value holds. -/
def optionNodes (v : Option Value) : Nat := (v.map Value.nodes).getD 0

@[simp] theorem optionNodes_some (v : Value) : optionNodes (some v) = v.nodes := rfl

@[simp] theorem nodes_null : Value.null.nodes = 1 := by simp [Value.nodes]

@[simp] theorem nodes_array (items : List Value) :
    (Value.array items).nodes = 1 + itemsNodes items := by
  rw [Value.nodes]

@[simp] theorem nodes_object (ms : Members) :
    (Value.object ms).nodes = 1 + membersNodes ms := by
  rw [Value.nodes]

theorem nodes_pos (v : Value) : 0 < v.nodes := by
  cases v <;> simp only [Value.nodes] <;> omega

/-! ## Items -/

@[simp] theorem itemsNodes_nil : itemsNodes [] = 0 := by rw [itemsNodes]

@[simp] theorem itemsNodes_cons (v : Value) (vs : List Value) :
    itemsNodes (v :: vs) = v.nodes + itemsNodes vs := by
  rw [itemsNodes]

theorem itemsNodes_append (vs ws : List Value) :
    itemsNodes (vs ++ ws) = itemsNodes vs + itemsNodes ws := by
  induction vs with
  | nil => simp
  | cons v vs ih => simp [ih, Nat.add_assoc]

theorem itemsNodes_replicate_null (n : Nat) : itemsNodes (List.replicate n .null) = n := by
  induction n with
  | zero => simp
  | succ n ih => simp [List.replicate_succ, ih, Nat.add_comm]

theorem itemsNodes_set {i : Nat} {items : List Value} {w : Value} (h : items[i]? = some w)
    (v : Value) : itemsNodes (items.set i v) + w.nodes = itemsNodes items + v.nodes := by
  induction items generalizing i with
  | nil => cases h
  | cons x items ih =>
    cases i with
    | zero =>
      cases h
      simp only [List.set_cons_zero, itemsNodes_cons]
      omega
    | succ i =>
      have hset := ih (List.getElem?_cons_succ ▸ h)
      simp only [List.set_cons_succ, itemsNodes_cons]
      omega

/-! ## Members -/

@[simp] theorem membersNodes_nil : membersNodes [] = 0 := by rw [membersNodes]

@[simp] theorem membersNodes_cons (m : String × Value) (ms : Members) :
    membersNodes (m :: ms) = m.2.nodes + membersNodes ms := by
  rw [membersNodes]

theorem membersNodes_insert_of_lookup {key : String} {ms : Members} {w : Value}
    (h : ms.lookup key = some w) (v : Value) :
    membersNodes (Members.insert key v ms) + w.nodes = membersNodes ms + v.nodes := by
  induction ms with
  | nil => cases h
  | cons m ms ih =>
    obtain ⟨k, x⟩ := m
    by_cases hk : k = key
    · subst hk
      obtain rfl : x = w := by simpa using h
      simp only [Members.insert, if_true, membersNodes_cons]
      omega
    · rw [List.lookup_cons, beq_eq_false_iff_ne.2 (Ne.symm hk)] at h
      have hinsert := ih h
      simp only [Members.insert, if_neg hk, membersNodes_cons]
      omega

theorem membersNodes_insert_of_lookup_eq_none {key : String} {ms : Members}
    (h : ms.lookup key = none) (v : Value) :
    membersNodes (Members.insert key v ms) = membersNodes ms + v.nodes := by
  induction ms with
  | nil => simp [Members.insert]
  | cons m ms ih =>
    obtain ⟨k, x⟩ := m
    rw [List.lookup_cons] at h
    split at h
    · cases h
    · rename_i hk
      have hne : k ≠ key := fun heq => beq_eq_false_iff_ne.1 hk heq.symm
      simp only [Members.insert, if_neg hne, membersNodes_cons, ih h]
      omega

theorem membersNodes_insert_le (key : String) (v : Value) (ms : Members) :
    membersNodes (Members.insert key v ms) ≤ membersNodes ms + v.nodes := by
  cases h : ms.lookup key with
  | none => exact Nat.le_of_eq (membersNodes_insert_of_lookup_eq_none h v)
  | some w =>
    have hinsert := membersNodes_insert_of_lookup h v
    omega

theorem membersNodes_merge_le (ms patch : Members) :
    membersNodes (Members.merge ms patch) ≤ membersNodes ms + membersNodes patch := by
  induction patch generalizing ms with
  | nil => simp [Members.merge]
  | cons m patch ih =>
    have hrest := ih (Members.insert m.1 m.2 ms)
    have hfirst := membersNodes_insert_le m.1 m.2 ms
    rw [membersNodes_cons]
    show membersNodes (Members.merge (Members.insert m.1 m.2 ms) patch) ≤ _
    omega

end GraphqlClient.Json
