import GraphqlClient.Json.Value
import GraphqlClient.Proofs.Lookup
import Mathlib.Data.List.Basic

/-!
# Members of objects

What setting a key leaves, in terms of the list of members, and what setting the members of one
object in another leaves: its keys (`keys_merge`), what they lead to (`lookup_merge`) and, where no
key is repeated, the whole list of members (`merge_eq_overlay`). Setting the members of two objects
in turn is setting those of the first with the second set in it (`merge_merge`), and setting them
again changes nothing (`merge_merge_self`), the order of members included.
-/

namespace GraphqlClient.Json

namespace Members

/-- A member after a key is set is the new one or one that was there. -/
theorem mem_insert {ms : Members} {key : String} {v : Value} {m : String × Value}
    (hm : m ∈ insert key v ms) : m = (key, v) ∨ m ∈ ms := by
  induction ms with
  | nil => exact .inl (List.mem_singleton.1 hm)
  | cons n ms ih =>
    obtain ⟨k, w⟩ := n
    rw [insert] at hm
    split at hm
    · rename_i hk
      rcases List.mem_cons.1 hm with rfl | hm
      · exact .inl (by rw [hk])
      · exact .inr (List.mem_cons_of_mem _ hm)
    · rcases List.mem_cons.1 hm with rfl | hm
      · exact .inr List.mem_cons_self
      · exact (ih hm).imp_right (List.mem_cons_of_mem _)

/-- Of two values set for one key the later one counts. -/
theorem insert_insert_self (key : String) (v w : Value) (ms : Members) :
    insert key w (insert key v ms) = insert key w ms := by
  induction ms with
  | nil => simp [insert]
  | cons n ms ih =>
    obtain ⟨k, x⟩ := n
    by_cases hk : k = key
    · simp [insert, hk]
    · simp [insert, hk, ih]

/-- Two keys can be set in either order, up to the order in which they are added. -/
theorem insert_comm_perm {key key' : String} (hne : key ≠ key') (v w : Value) (ms : Members) :
    (insert key' w (insert key v ms)).Perm (insert key v (insert key' w ms)) := by
  induction ms with
  | nil =>
    simp only [insert, if_neg hne, if_neg hne.symm]
    exact .swap _ _ _
  | cons n ms ih =>
    obtain ⟨k, x⟩ := n
    by_cases hk : k = key
    · subst hk
      simp [insert, hne]
    · by_cases hk' : k = key'
      · subst hk'
        simp [insert, hk]
      · simpa [insert, hk, hk'] using ih

/-! ## Setting the members of another object -/

/-- Setting a key to what it leads to changes nothing. -/
theorem insert_of_lookup {key : String} {v : Value} {ms : Members} (h : ms.lookup key = some v) :
    insert key v ms = ms := by
  induction ms with
  | nil => cases h
  | cons n ms ih =>
    obtain ⟨k, x⟩ := n
    by_cases hk : k = key
    · subst hk
      obtain rfl : x = v := by simpa using h
      rw [insert, if_pos rfl]
    · rw [List.lookup_cons, beq_eq_false_iff_ne.2 (Ne.symm hk)] at h
      rw [insert, if_neg hk, ih h]

theorem insert_of_not_mem {key : String} {ms : Members} (h : key ∉ ms.keys) (v : Value) :
    insert key v ms = ms ++ [(key, v)] := by
  induction ms with
  | nil => rfl
  | cons n ms ih =>
    obtain ⟨hn, hms⟩ := List.ne_and_not_mem_of_not_mem_cons h
    rw [insert, if_neg (Ne.symm hn), ih hms, List.cons_append]

/-- Setting a key changes the first member with the key. -/
theorem insert_append_cons {key : String} {front : Members} (h : key ∉ front.keys) (v w : Value)
    (back : Members) : insert key w (front ++ (key, v) :: back) = front ++ (key, w) :: back := by
  induction front with
  | nil => simp [insert]
  | cons n front ih =>
    obtain ⟨hn, hfront⟩ := List.ne_and_not_mem_of_not_mem_cons h
    rw [List.cons_append, insert, if_neg (Ne.symm hn), ih hfront, List.cons_append]

/-- Setting a key that is there changes the member with the key and no other. -/
theorem insert_of_mem {key : String} {ms : Members} (hms : ms.keys.Nodup) (h : key ∈ ms.keys)
    (v : Value) : insert key v ms = ms.map fun m => (m.1, if m.1 = key then v else m.2) := by
  induction ms with
  | nil => cases h
  | cons n ms ih =>
    obtain ⟨hn, hms⟩ := List.nodup_cons.1 hms
    by_cases hk : n.1 = key
    · have hrest : ms.map (fun m => (m.1, if m.1 = key then v else m.2)) = ms := by
        refine (List.map_congr_left ?_).trans (List.map_id ms)
        intro m hm
        rw [if_neg]
        · rfl
        · rintro rfl
          exact hn (hk ▸ List.mem_map_of_mem hm)
      rw [insert, if_pos hk, List.map_cons, if_pos hk, hrest]
    · rw [insert, if_neg hk, List.map_cons, if_neg hk,
        ih hms (List.mem_of_ne_of_mem (Ne.symm hk) h)]

theorem merge_cons (ms : Members) (m : String × Value) (patch : Members) :
    merge ms (m :: patch) = merge (insert m.1 m.2 ms) patch := rfl

/-- New keys stand behind the old ones, in the order in which they first come. -/
theorem keys_merge (ms patch : Members) :
    (merge ms patch).keys = ms.keys ++ (patch.keys.removeAll ms.keys).eraseDups := by
  induction patch generalizing ms with
  | nil => exact (List.append_nil _).symm
  | cons m patch ih =>
    rw [merge_cons, ih, keys_insert]
    show _ = ms.keys ++ ((m.1 :: keys patch).removeAll ms.keys).eraseDups
    rw [List.cons_removeAll]
    by_cases hm : m.1 ∈ ms.keys
    · rw [if_pos hm, if_neg (by simpa using hm)]
    · have hrest : (keys patch).removeAll (ms.keys ++ [m.1])
          = ((keys patch).removeAll ms.keys).filter fun k => !k == m.1 := by
        rw [List.removeAll, List.removeAll, List.filter_filter]
        apply List.filter_congr
        intro k _
        rw [Bool.eq_iff_iff]
        simp [and_comm]
      rw [if_neg hm, if_pos (by simpa using hm), List.eraseDups_cons, hrest, List.append_assoc]
      rfl

/-- A key leads to the value that was set last. -/
theorem lookup_merge (ms : Members) {patch : Members} (h : patch.keys.Nodup) (key : String) :
    (merge ms patch).lookup key = (patch.lookup key).or (ms.lookup key) := by
  induction patch generalizing ms with
  | nil => rfl
  | cons m patch ih =>
    obtain ⟨hm, hpatch⟩ := List.nodup_cons.1 h
    rw [merge_cons, ih _ hpatch, lookup_insert, List.lookup_cons]
    by_cases hk : key = m.1
    · subst hk
      rw [Lookup.lookup_eq_none_iff.2 hm]
      simp
    · rw [beq_eq_false_iff_ne.2 hk, if_neg hk]

/-- The members of an object overlaid by those of another: its own in their places, with the values
of the other where it has the key, and behind them the members that only the other has. -/
def overlay (ms patch : Members) : Members :=
  ms.map (fun m => (m.1, (patch.lookup m.1).getD m.2)) ++ patch.filter fun m => m.1 ∉ ms.keys

/-- A key that the other object does not have again is overlaid like one that it has first. -/
theorem overlay_insert {key : String} {ms patch : Members} (hms : ms.keys.Nodup)
    (hkey : key ∉ patch.keys) (v : Value) :
    overlay (insert key v ms) patch = overlay ms ((key, v) :: patch) := by
  have hnone : patch.lookup key = none := Lookup.lookup_eq_none_iff.2 hkey
  have hother {k : String} (hk : k ≠ key) : ((key, v) :: patch).lookup k = patch.lookup k := by
    rw [List.lookup_cons, beq_eq_false_iff_ne.2 hk]
  unfold overlay
  rw [keys_insert]
  by_cases hmem : key ∈ ms.keys
  · rw [if_pos hmem, insert_of_mem hms hmem, List.map_map, List.filter_cons,
      if_neg (by simpa using hmem)]
    congr 1
    apply List.map_congr_left
    intro m hm
    by_cases hk : m.1 = key
    · simp [hk, hnone]
    · simp [hk, hother hk]
  · have hold : ms.map (fun m => (m.1, (patch.lookup m.1).getD m.2))
        = ms.map (fun m => (m.1, (((key, v) :: patch).lookup m.1).getD m.2)) := by
      apply List.map_congr_left
      intro m hm
      rw [hother]
      rintro rfl
      exact hmem (List.mem_map_of_mem hm)
    have hnew : (patch.filter fun m => m.1 ∉ ms.keys ++ [key])
        = patch.filter fun m => m.1 ∉ ms.keys := by
      apply List.filter_congr
      intro m hm
      have hk : m.1 ≠ key := by
        rintro rfl
        exact hkey (List.mem_map_of_mem hm)
      simp [hk]
    rw [if_neg hmem, insert_of_not_mem hmem, List.map_append, hold, hnew, List.filter_cons,
      if_pos (by simpa using hmem), List.append_assoc]
    simp [hnone]

theorem merge_eq_overlay {ms patch : Members} (hms : ms.keys.Nodup) (hpatch : patch.keys.Nodup) :
    merge ms patch = overlay ms patch := by
  induction patch generalizing ms with
  | nil => simp [merge, overlay]
  | cons m patch ih =>
    obtain ⟨hm, hpatch⟩ := List.nodup_cons.1 hpatch
    rw [merge_cons, ih (nodup_keys_insert hms) hpatch]
    exact overlay_insert hms hm m.2

/-! ## Setting the members of objects in turn -/

theorem mem_keys_insert_self (key : String) (v : Value) (ms : Members) :
    key ∈ (insert key v ms).keys := by
  rw [keys_insert]
  split
  · assumption
  · exact List.mem_append_right _ List.mem_cons_self

theorem mem_keys_insert {key : String} {ms : Members} (h : key ∈ ms.keys) (key' : String)
    (v : Value) : key ∈ (insert key' v ms).keys := by
  rw [keys_insert]
  split
  · exact h
  · exact List.mem_append_left _ h

theorem mem_keys_merge_iff {key : String} {ms patch : Members} :
    key ∈ (merge ms patch).keys ↔ key ∈ ms.keys ∨ key ∈ patch.keys := by
  rw [keys_merge, List.mem_append, List.mem_eraseDups, List.removeAll, List.mem_filter]
  by_cases h : key ∈ ms.keys <;> simp [h]

theorem mem_keys_merge {key : String} {ms : Members} (h : key ∈ ms.keys) (patch : Members) :
    key ∈ (merge ms patch).keys :=
  mem_keys_merge_iff.2 (.inl h)

/-- A key that is there can be set before another key or after it, the order of members included. -/
theorem insert_comm_of_mem {key key' : String} {ms : Members} (h : key ∈ ms.keys)
    (hne : key ≠ key') (v w : Value) :
    insert key v (insert key' w ms) = insert key' w (insert key v ms) := by
  induction ms with
  | nil => cases h
  | cons n ms ih =>
    obtain ⟨k, x⟩ := n
    by_cases hk : k = key
    · subst hk
      simp [insert, hne]
    · by_cases hk' : k = key'
      · subst hk'
        simp [insert, hk]
      · have hms : key ∈ keys ms := List.mem_of_ne_of_mem (Ne.symm hk) h
        simp [insert, hk, hk', ih hms]

/-- A key that is there can be set before the members of an object without it or after them. -/
theorem insert_merge_of_not_mem {key : String} {ms patch : Members} (h : key ∈ ms.keys)
    (hkey : key ∉ patch.keys) (v : Value) :
    insert key v (merge ms patch) = merge (insert key v ms) patch := by
  induction patch generalizing ms with
  | nil => rfl
  | cons m patch ih =>
    obtain ⟨hm, hpatch⟩ := List.ne_and_not_mem_of_not_mem_cons hkey
    rw [merge_cons, merge_cons, ih (mem_keys_insert h m.1 m.2) hpatch, insert_comm_of_mem h hm]

/-- What a key was set to makes no difference to an object whose members set it again. -/
theorem merge_insert_of_mem {key : String} {ms patch : Members} (h : key ∈ ms.keys)
    (hkey : key ∈ patch.keys) (v : Value) : merge (insert key v ms) patch = merge ms patch := by
  induction patch generalizing ms with
  | nil => cases hkey
  | cons m patch ih =>
    rw [merge_cons, merge_cons]
    by_cases hm : key = m.1
    · subst hm
      rw [insert_insert_self]
    · rw [← insert_comm_of_mem h hm]
      exact ih (mem_keys_insert h m.1 m.2) (List.mem_of_ne_of_mem hm hkey)

/-- Setting the members of an object again changes nothing. -/
theorem merge_merge_self (ms patch : Members) : merge (merge ms patch) patch = merge ms patch := by
  induction patch generalizing ms with
  | nil => rfl
  | cons m patch ih =>
    have hfirst := mem_keys_insert_self m.1 m.2 ms
    rw [merge_cons, merge_cons]
    by_cases hm : m.1 ∈ keys patch
    · rw [merge_insert_of_mem (mem_keys_merge hfirst patch) hm, ih]
    · rw [insert_merge_of_not_mem hfirst hm, insert_insert_self, ih]

/-- What a key leads to stays where the key is not set. -/
theorem lookup_merge_of_not_mem {key : String} (ms : Members) {patch : Members}
    (h : key ∉ patch.keys) : (merge ms patch).lookup key = ms.lookup key := by
  induction patch generalizing ms with
  | nil => rfl
  | cons m patch ih =>
    obtain ⟨hm, hpatch⟩ := List.ne_and_not_mem_of_not_mem_cons h
    rw [merge_cons, ih _ hpatch, lookup_insert, if_neg hm]

/-- Setting members changes nothing exactly if every one of them that is not set again behind it is
there with its value. -/
theorem merge_eq_self_iff {ms patch : Members} :
    merge ms patch = ms ↔ ∀ front key v back, patch = front ++ (key, v) :: back →
      key ∉ keys back → ms.lookup key = some v := by
  constructor
  · rintro h front key v back rfl hback
    rw [← h]
    show (List.foldl _ ms (front ++ (key, v) :: back)).lookup key = some v
    rw [List.foldl_append]
    show (merge (insert key v (merge ms front)) back).lookup key = some v
    rw [lookup_merge_of_not_mem _ hback, lookup_insert, if_pos rfl]
  · intro h
    induction patch with
    | nil => rfl
    | cons m patch ih =>
      have hrest : merge ms patch = ms := ih fun front key v back hpatch =>
        h (m :: front) key v back (congrArg (m :: ·) hpatch)
      rw [merge_cons]
      by_cases hm : m.1 ∈ keys patch
      · -- the key is set again, and the last value that it is set to is there
        have hkey : m.1 ∈ ms.keys := hrest ▸ mem_keys_merge_iff.2 (.inr hm)
        rw [merge_insert_of_mem hkey hm, hrest]
      · rw [insert_of_lookup (h [] m.1 m.2 patch rfl hm), hrest]

/-- A key that is set in an object is set after the members of the object are. -/
theorem merge_insert (ms : Members) {patch : Members} (h : patch.keys.Nodup) (key : String)
    (v : Value) : merge ms (insert key v patch) = insert key v (merge ms patch) := by
  induction patch generalizing ms with
  | nil => rfl
  | cons m patch ih =>
    obtain ⟨hm, hpatch⟩ := List.nodup_cons.1 h
    obtain ⟨k, x⟩ := m
    by_cases hk : k = key
    · subst hk
      rw [insert, if_pos rfl, merge_cons, merge_cons,
        insert_merge_of_not_mem (mem_keys_insert_self k x ms) hm, insert_insert_self]
    · rw [insert, if_neg hk, merge_cons, merge_cons, ih _ hpatch]

/-- Setting the members of two objects in turn is setting those of the first with the second set in
it. -/
theorem merge_merge (ms : Members) {patch : Members} (h : patch.keys.Nodup) (later : Members) :
    merge (merge ms patch) later = merge ms (merge patch later) := by
  induction later generalizing patch with
  | nil => rfl
  | cons m later ih => rw [merge_cons, merge_cons, ← ih (nodup_keys_insert h), merge_insert ms h]

end Members

end GraphqlClient.Json
