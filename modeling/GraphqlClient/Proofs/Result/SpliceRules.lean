import GraphqlClient.Proofs.Result.Stream

/-!
# Splices told by rules

What a payload leaves of data, told by what stands before and behind the value that it changes. A
rule of `Spliced` shows an object or a list before and after one step of the path, and neither looks
a child up nor sets it nor pads a list up to it. The rules leave no choice, and they derive exactly
what the walk along the path leaves (`spliced_iff`).
-/

namespace GraphqlClient.Result

open Json Response

/-- The second value is the first one with the value rewritten that the path leads to. -/
inductive Spliced (write : Value → Value) : Path → Value → Value → Prop
  /-- The path ends here. -/
  | here (v : Value) : Spliced write [] v (write v)
  /-- The first member with the key changes. -/
  | member {segment : PathSegment} {path : Path} {front back : Members} {v w : Value}
    (first : segment.key ∉ front.keys) (h : Spliced write path v w) :
    Spliced write (segment :: path) (.object (front ++ (segment.key, v) :: back))
      (.object (front ++ (segment.key, w) :: back))
  /-- No member has the key, and one comes behind the others. -/
  | newMember {segment : PathSegment} {path : Path} {ms : Members} {w : Value}
    (new : segment.key ∉ ms.keys) (h : Spliced write path .null w) :
    Spliced write (segment :: path) (.object ms) (.object (ms ++ [(segment.key, w)]))
  /-- The item at the index changes. -/
  | item {segment : PathSegment} {path : Path} {index : UInt64} {front back : List Value}
    {v w : Value} (own : segment.asIndex = some index) (place : index.toNat = front.length)
    (h : Spliced write path v w) :
    Spliced write (segment :: path) (.array (front ++ v :: back)) (.array (front ++ w :: back))
  /-- The list ends before the index, and an item comes there, with nulls before it. -/
  | newItem {segment : PathSegment} {path : Path} {index : UInt64} {items : List Value} {w : Value}
    (own : segment.asIndex = some index) (behind : items.length ≤ index.toNat)
    (reach : index.toNat ≤ items.length + maxPadding) (h : Spliced write path .null w) :
    Spliced write (segment :: path) (.array items)
      (.array (items ++ List.replicate (index.toNat - items.length) .null ++ [w]))
  /-- The index is out of reach, and the list stays as it is. -/
  | outOfReach {segment : PathSegment} {path : Path} {index : UInt64} {items : List Value}
    (own : segment.asIndex = some index) (far : items.length + maxPadding < index.toNat) :
    Spliced write (segment :: path) (.array items) (.array items)
  /-- What is neither an object nor a list that the segment has an index for gives way to an
  object. -/
  | instead {segment : PathSegment} {path : Path} {v w : Value} (object : ∀ ms, v ≠ .object ms)
    (list : ∀ items, v = .array items → segment.asIndex = none) (h : Spliced write path .null w) :
    Spliced write (segment :: path) v (.object [(segment.key, w)])

section

variable {write : Value → Value} {path : Path} {v w : Value}

/-- The rules derive what the walk leaves, and nothing else. -/
theorem Spliced.update_eq (h : Spliced write path v w) : update write path v = w := by
  induction h with
  | here v => rfl
  | @member segment path front back v w first h ih =>
    have hchild : child? segment (.object (front ++ (segment.key, v) :: back)) = some v := by
      rw [child?, List.lookup_append, Lookup.lookup_eq_none_iff.2 first, List.lookup_cons_self,
        Option.none_or]
    rw [update_cons_of_child? hchild, ih]
    exact congrArg Value.object (Members.insert_append_cons first v w back)
  | @newMember segment path ms w new h ih =>
    have hchild : child? segment (.object ms) = none := Lookup.lookup_eq_none_iff.2 new
    rw [update_cons_of_missing hchild rfl, ih]
    exact congrArg Value.object (Members.insert_of_not_mem new w)
  | @item segment path index front back v w own place h ih =>
    have hchild : child? segment (.array (front ++ v :: back)) = some v := by
      simp [child?, own, place]
    rw [update_cons_of_child? hchild, ih]
    simp only [setChild, own, place]
    rw [writeItem_append, List.tail_cons]
  | @newItem segment path index items w own behind reach h ih =>
    have hchild : child? segment (.array items) = none := by simp [child?, own, behind]
    have hreach : isBeyond segment (.array items) = false := by
      simp [isBeyond, own, inReach, reach]
    rw [update_cons_of_missing hchild hreach, ih]
    simp only [setChild, own]
    rw [writeItem_of_length_le behind]
  | outOfReach own far => rw [update_cons, if_pos (isBeyond_eq_true_iff.2 ⟨_, _, rfl, own, far⟩)]
  | @instead segment path v w object list h ih =>
    cases v with
    | object ms => exact absurd rfl (object ms)
    | array items =>
      have hindex := list items rfl
      rw [update_cons_of_missing (by simp [child?, hindex]) (by simp [isBeyond, hindex]), ih]
      simp [setChild, hindex]
    | null | bool | number | string =>
      rw [update_cons_of_missing rfl rfl, ih]
      rfl

/-- There is a rule for every value and every path. -/
theorem exists_spliced (write : Value → Value) (path : Path) (v : Value) :
    ∃ w, Spliced write path v w := by
  induction path generalizing v with
  | nil => exact ⟨_, .here v⟩
  | cons segment path ih =>
    obtain ⟨created, hcreated⟩ := ih .null
    cases v with
    | object ms =>
      cases hms : ms.lookup segment.key with
      | some v =>
        obtain ⟨front, back, rfl, hfront⟩ := List.lookup_eq_some_iff.1 hms
        have first : segment.key ∉ Members.keys front := by
          intro hkey
          obtain ⟨m, hm, hkey⟩ := List.mem_map.1 hkey
          simpa [hkey] using hfront m hm
        obtain ⟨w, hw⟩ := ih v
        exact ⟨_, .member first hw⟩
      | none => exact ⟨_, .newMember (Lookup.lookup_eq_none_iff.1 hms) hcreated⟩
    | array items =>
      cases hindex : segment.asIndex with
      | none => exact ⟨_, .instead nofun (fun _ _ => hindex) hcreated⟩
      | some index =>
        by_cases hbehind : items.length ≤ index.toNat
        · by_cases hreach : index.toNat ≤ items.length + maxPadding
          · exact ⟨_, .newItem hindex hbehind hreach hcreated⟩
          · exact ⟨_, .outOfReach hindex (Nat.lt_of_not_le hreach)⟩
        · obtain ⟨front, v, back, rfl, hfront⟩ :
              ∃ front v back, items = front ++ v :: back ∧ index.toNat = front.length := by
            have hlt : index.toNat < items.length := Nat.lt_of_not_le hbehind
            refine ⟨items.take index.toNat, items[index.toNat], items.drop (index.toNat + 1),
              ?_, ?_⟩
            · rw [List.getElem_cons_drop, List.take_append_drop]
            · rw [List.length_take_of_le (Nat.le_of_lt hlt)]
          obtain ⟨w, hw⟩ := ih v
          exact ⟨_, .item hindex hfront hw⟩
    | null | bool | number | string => exact ⟨_, .instead nofun nofun hcreated⟩

/-- The rules derive exactly what the walk leaves. -/
theorem spliced_iff : Spliced write path v w ↔ update write path v = w := by
  refine ⟨Spliced.update_eq, ?_⟩
  rintro rfl
  obtain ⟨w, hw⟩ := exists_spliced write path v
  rwa [hw.update_eq]

end

end GraphqlClient.Result
