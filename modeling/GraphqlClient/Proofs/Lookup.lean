import Mathlib.Data.List.Nodup

/-!
# Looking up in a list of pairs

What a key leads to in a list of keys and values, in terms of the pairs in the list.
-/

namespace GraphqlClient.Lookup

variable {κ α : Type} [BEq κ] [LawfulBEq κ] {ps : List (κ × α)} {key : κ}

theorem mem_of_lookup {a : α} (h : ps.lookup key = some a) : (key, a) ∈ ps := by
  obtain ⟨before, after, rfl, -⟩ := List.lookup_eq_some_iff.1 h
  exact List.mem_append_right before List.mem_cons_self

/-- With distinct keys, looking up the key of a pair finds that pair. -/
theorem lookup_of_mem (keys : (ps.map Prod.fst).Nodup) {p : κ × α} (hp : p ∈ ps) :
    ps.lookup p.1 = some p.2 := by
  obtain ⟨before, after, rfl⟩ := List.append_of_mem hp
  refine List.lookup_eq_some_iff.2 ⟨before, after, rfl, ?_⟩
  intro q hq
  rw [List.map_append, List.map_cons, List.nodup_append] at keys
  have hne := keys.2.2 q.1 (List.mem_map_of_mem hq) p.1 List.mem_cons_self
  exact bne_iff_ne.2 hne.symm

theorem lookup_eq_none_iff : ps.lookup key = none ↔ key ∉ ps.map Prod.fst := by
  rw [List.lookup_eq_none_iff]
  constructor
  · intro h hkey
    obtain ⟨p, hp, rfl⟩ := List.mem_map.1 hkey
    exact bne_iff_ne.1 (h p hp) rfl
  · intro h p hp
    refine bne_iff_ne.2 ?_
    rintro rfl
    exact h (List.mem_map_of_mem hp)

/-- With distinct keys the order of pairs does not matter. -/
theorem lookup_eq_of_perm (keys : (ps.map Prod.fst).Nodup) {qs : List (κ × α)} (h : ps.Perm qs) :
    ps.lookup key = qs.lookup key := by
  cases hps : ps.lookup key with
  | none =>
    have hkeys := (h.map Prod.fst).mem_iff.not.1 (lookup_eq_none_iff.1 hps)
    exact (lookup_eq_none_iff.2 hkeys).symm
  | some a =>
    have hmem := h.mem_iff.1 (mem_of_lookup hps)
    exact (lookup_of_mem ((h.map Prod.fst).nodup_iff.1 keys) hmem).symm

end GraphqlClient.Lookup
