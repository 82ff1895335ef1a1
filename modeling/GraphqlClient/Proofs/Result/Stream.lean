import GraphqlClient.Proofs.Result.Reach

/-!
# Items of a stream

Items are written one by one, and each of them is asked anew whether its index is in reach of the
list as it is by then. Even so all of them are written or none (`insertItems_allOrNone`): the first
item takes the list up to its index, so that every other one replaces an item or stands right behind
the last.

What is no list gives way to an empty one before the first item is asked. Items that are all dropped
therefore leave the data alone only where they find a list or where their path is out of reach
(`insertItems_eq_self_iff`); anything else there is lost (`insertItems_replaces_object`).
-/

namespace GraphqlClient.Result

open Json Response

/-! ## Written items -/

/-- A list with values in the place of as many items from an index on, and with nulls up to that
index if the list ends before it. -/
def splice (index : Nat) (vs items : List Value) : List Value :=
  items.take index ++ List.replicate (index - items.length) .null ++ vs
    ++ items.drop (index + vs.length)

@[simp] theorem length_splice (index : Nat) (vs items : List Value) :
    (splice index vs items).length = max items.length (index + vs.length) := by
  simp only [splice, List.length_append, List.length_take, List.length_replicate, List.length_drop]
  omega

theorem writeItem_eq_splice (index : Nat) (v : Value) (items : List Value) :
    writeItem index v items = splice index [v] items := by
  unfold splice
  by_cases h : index ≤ items.length
  · have hwrite := writeItem_append v (items.take index) (items.drop index)
    rw [List.length_take_of_le h, List.take_append_drop, List.tail_drop] at hwrite
    rw [hwrite, Nat.sub_eq_zero_of_le h]
    simp
  · have hlength : items.length ≤ index := Nat.le_of_not_le h
    have hpad : List.replicate (index + 1 - items.length) Value.null
        = List.replicate (index - items.length) .null ++ [.null] := by
      rw [Nat.succ_sub hlength, List.replicate_succ']
    have hdrop : items.drop (index + 1) = [] := List.drop_eq_nil_of_le (by omega)
    rw [writeItem, padTo, hpad, List.set_append_right _ _ hlength, List.take_of_length_le hlength]
    simp [hdrop]

theorem writeItem_of_length_le {index : Nat} {items : List Value} (h : items.length ≤ index)
    (v : Value) :
    writeItem index v items = items ++ List.replicate (index - items.length) .null ++ [v] := by
  have hdrop : items.drop (index + [v].length) = [] := List.drop_eq_nil_of_le (by simp; omega)
  rw [writeItem_eq_splice, splice, List.take_of_length_le h, hdrop, List.append_nil]

/-- Values that are written from an index in a list on, or right behind it, are all in reach. -/
theorem writeItems_append (vs front back : List Value)
    (h : front.length + vs.length ≤ UInt64.size) :
    writeItems front.length vs (front ++ back) = (front ++ (vs ++ back.drop vs.length), true) := by
  induction vs generalizing front back with
  | nil => rfl
  | cons v vs ih =>
    rw [List.length_cons] at h
    have hreach : inReach (front ++ back).length front.length = true := by
      rw [inReach, List.length_append]
      exact decide_eq_true (by omega)
    have hsize : (front ++ [v]).length + vs.length ≤ UInt64.size := by
      rw [List.length_append, List.length_singleton]
      omega
    have hrest := ih (front ++ [v]) back.tail hsize
    rw [List.length_append, List.append_assoc, List.append_assoc] at hrest
    rw [writeItems, if_pos ⟨by omega, hreach⟩, writeItem_append]
    refine hrest.trans ?_
    rw [List.drop_tail]
    rfl

/-- If the first of some values finds a place, all of them do. -/
theorem writeItems_eq_splice {index : Nat} {vs items : List Value} (hvs : vs ≠ [])
    (hreach : index ≤ items.length + maxPadding) (hsize : index + vs.length ≤ UInt64.size) :
    writeItems index vs items = (splice index vs items, true) := by
  cases vs with
  | nil => exact absurd rfl hvs
  | cons v vs =>
    rw [List.length_cons] at hsize
    -- with the first value in it the list reaches up to the index of the second one
    let front := items.take index ++ List.replicate (index - items.length) Value.null ++ [v]
    have hfront : front.length = index + 1 := by
      simp only [front, List.length_append, List.length_take, List.length_replicate,
        List.length_singleton]
      omega
    have hrest := writeItems_append vs front (items.drop (index + 1)) (by omega)
    rw [hfront, List.drop_drop] at hrest
    have hfirst : writeItem index v items = front ++ items.drop (index + 1) :=
      writeItem_eq_splice index v items
    rw [writeItems, if_pos ⟨by omega, decide_eq_true hreach⟩, hfirst, hrest, splice,
      List.length_cons]
    simp [front, Nat.add_comm, Nat.add_left_comm]

/-- If the first of some values finds no place, none of them is written. -/
theorem writeItems_of_refused {index : Nat} {items : List Value}
    (h : ¬ (index < UInt64.size ∧ inReach items.length index = true)) (vs : List Value) :
    writeItems index vs items = (items, vs.isEmpty) := by
  cases vs with
  | nil => rfl
  | cons v vs =>
    rw [writeItems, if_neg h]
    rfl

theorem writeItems_of_beyond {index : Nat} {items : List Value}
    (h : items.length + maxPadding < index) (vs : List Value) :
    writeItems index vs items = (items, vs.isEmpty) := by
  apply writeItems_of_refused
  rintro ⟨-, hreach⟩
  exact Nat.not_le_of_lt h (of_decide_eq_true hreach)

/-- Behind items that were written, the next one finds a place. -/
theorem inReach_writeItems {index : Nat} {vs items : List Value}
    (hreach : index ≤ items.length + maxPadding) (hsize : index + vs.length ≤ UInt64.size) :
    inReach (writeItems index vs items).1.length (index + vs.length) = true := by
  by_cases hvs : vs = []
  · subst hvs
    exact decide_eq_true hreach
  · rw [writeItems_eq_splice hvs hreach hsize, length_splice]
    exact decide_eq_true (by omega)

/-! ## Items at a path -/

/-- The list that a path leads to; an empty one if the path leads nowhere or to something else. -/
def listAt (path : Path) (root : Value) : List Value :=
  match valueAt? path root with
  | some (.array items) => items
  | _ => []

theorem listAt_eq (path : Path) (root : Value) :
    listAt path root = asItems ((valueAt? path root).getD .null) := by
  unfold listAt
  rcases valueAt? path root with _ | (_ | _ | _ | _ | _ | _) <;> rfl

theorem listAt_of_valueAt? {path : Path} {root : Value} {items : List Value}
    (h : valueAt? path root = some (.array items)) : listAt path root = items := by
  rw [listAt, h]

/-- Along a path in reach, items leave a list at the end of the path and answer whether all of them
are written. -/
theorem valueAt?_insertItems {path : Path} (items : List Value) {root : Value}
    (h : ¬ OutOfReach path.dropLast root) :
    valueAt? path.dropLast (insertItems path items root).1
        = some (.array (writeItems (startIndex path) items (listAt path.dropLast root)).1)
      ∧ (insertItems path items root).2
        = if (writeItems (startIndex path) items (listAt path.dropLast root)).2 then []
          else [.itemsOutOfReach] := by
  constructor
  · rw [insertItems_fst, valueAt?_update _ h, listAt_eq]
  · rw [insertItems, editAt_snd _ h, listAt_eq]
    cases hall : (writeItems (startIndex path) items
      (asItems ((valueAt? path.dropLast root).getD .null))).2 with
    | true => simp [hall]
    | false => simp [hall]

/-- Where items leave the list that they find as it is, all data stays as it is. -/
theorem insertItems_of_list {path : Path} {items : List Value} {root : Value} {list : List Value}
    (hlist : valueAt? path.dropLast root = some (.array list))
    (h : (writeItems (startIndex path) items list).1 = list) :
    (insertItems path items root).1 = root := by
  rw [insertItems_fst]
  exact update_of_valueAt? hlist (congrArg Value.array h)

/-- Along a path in reach, either all items are written at consecutive indices or none is. If the
first index is in reach of the list at the end of the path, every item finds its index in reach when
its turn comes, and the list is the old one with the items in it. Otherwise the list is the old one,
and where there was one all data stays as it was. -/
theorem insertItems_allOrNone (path : Path) (items : List Value) (root : Value)
    (hreach : ¬ OutOfReach path.dropLast root)
    (hlist : (listAt path.dropLast root).length < Nat.pow 2 62)
    (hitems : items.length < Nat.pow 2 62) :
    (items ≠ [] → startIndex path ≤ (listAt path.dropLast root).length + maxPadding →
        valueAt? path.dropLast (insertItems path items root).1
            = some (.array (splice (startIndex path) items (listAt path.dropLast root)))
          ∧ (insertItems path items root).2 = []
          ∧ ∀ front item back, items = front ++ item :: back →
            startIndex path + front.length < UInt64.size
              ∧ inReach (writeItems (startIndex path) front (listAt path.dropLast root)).1.length
                (startIndex path + front.length) = true)
      ∧ ((listAt path.dropLast root).length + maxPadding < startIndex path →
        valueAt? path.dropLast (insertItems path items root).1
            = some (.array (listAt path.dropLast root))
          ∧ (items ≠ [] → (insertItems path items root).2 = [.itemsOutOfReach])
          ∧ ∀ list, valueAt? path.dropLast root = some (.array list) →
            (insertItems path items root).1 = root) := by
  obtain ⟨hafter, hnotices⟩ := valueAt?_insertItems items hreach
  generalize hold : listAt path.dropLast root = old at *
  constructor
  · intro hnonempty hstart
    have hsize : startIndex path + items.length ≤ UInt64.size := by
      have hpow : Nat.pow 2 62 + maxPadding + Nat.pow 2 62 ≤ UInt64.size := by decide
      omega
    rw [writeItems_eq_splice hnonempty hstart hsize] at hafter hnotices
    refine ⟨hafter, hnotices, ?_⟩
    rintro front item back rfl
    rw [List.length_append, List.length_cons] at hsize
    exact ⟨by omega, inReach_writeItems hstart (by omega)⟩
  · intro hstart
    have hnone := writeItems_of_beyond hstart items
    rw [hnone] at hafter hnotices
    refine ⟨hafter, ?_, ?_⟩
    · intro hnonempty
      rw [hnotices, if_neg (by simpa using hnonempty)]
    · intro list hfound
      rw [← hold, listAt_of_valueAt? hfound] at hnone
      exact insertItems_of_list hfound (congrArg Prod.fst hnone)

/-- Items behind the end of the list of `shortList`, and items behind its reach. -/
theorem insertItems_allOrNone_shortList :
    ¬ OutOfReach [.field "list"] shortList
      ∧ (listAt [.field "list"] shortList).length < Nat.pow 2 62
      ∧ valueAt? [.field "list"]
          (insertItems [.field "list", .index 3] [.bool true, .bool false] shortList).1
        = some (.array [.null, .null, .null, .bool true, .bool false])
      ∧ (insertItems [.field "list", .index 1026] [.bool true, .bool false] shortList).1
        = shortList := by
  have hreach : ¬ OutOfReach [.field "list"] shortList :=
    (editAt_snd_eq_none_iff fun v => (v, ())).not.1 (by decide +kernel)
  have hlength : (listAt [.field "list"] shortList).length < Nat.pow 2 62 := by decide
  have hwritten := (insertItems_allOrNone [.field "list", .index 3] [.bool true, .bool false]
    shortList hreach hlength (by decide)).1 nofun (by decide)
  have hdropped := (insertItems_allOrNone [.field "list", .index 1026] [.bool true, .bool false]
    shortList hreach hlength (by decide)).2 (by decide)
  exact ⟨hreach, hlength, hwritten.1, hdropped.2.2 _ rfl⟩

/-! ## Dropped items -/

/-- Items whose first index is out of reach leave the data alone if and only if they find a list or
their path is out of reach. Where a path in reach leads to anything else or nowhere, it leads to an
empty list afterwards. -/
theorem insertItems_eq_self_iff (path : Path) (items : List Value) (root : Value)
    (hstart : (listAt path.dropLast root).length + maxPadding < startIndex path) :
    ((insertItems path items root).1 = root
        ↔ OutOfReach path.dropLast root ∨ ∃ list, valueAt? path.dropLast root = some (.array list))
      ∧ (¬ OutOfReach path.dropLast root →
        (∀ list, valueAt? path.dropLast root ≠ some (.array list)) →
        valueAt? path.dropLast (insertItems path items root).1 = some (.array [])) := by
  have hafter (hreach : ¬ OutOfReach path.dropLast root) :
      valueAt? path.dropLast (insertItems path items root).1
        = some (.array (listAt path.dropLast root)) := by
    rw [(valueAt?_insertItems items hreach).1, writeItems_of_beyond hstart]
  refine ⟨⟨?_, ?_⟩, ?_⟩
  · intro hself
    by_cases hreach : OutOfReach path.dropLast root
    · exact .inl hreach
    · exact .inr ⟨_, hself ▸ hafter hreach⟩
  · rintro (hreach | ⟨list, hlist⟩)
    · rw [insertItems_fst, update_of_outOfReach _ hreach]
    · apply insertItems_of_list hlist
      rw [listAt_of_valueAt? hlist] at hstart
      rw [writeItems_of_beyond hstart]
  · intro hreach hnone
    rw [hafter hreach, listAt]
    split
    · exact absurd ‹_› (hnone _)
    · rfl

/-- Items that find a string, and items that find a list. -/
theorem insertItems_eq_self_iff_shortList :
    (listAt [.field "name"] shortList).length + maxPadding
        < startIndex [.field "name", .index 1025]
      ∧ (insertItems [.field "name", .index 1025] [.null] shortList).1 ≠ shortList
      ∧ (listAt [.field "list"] shortList).length + maxPadding
        < startIndex [.field "list", .index 1026]
      ∧ (insertItems [.field "list", .index 1026] [.null] shortList).1 = shortList := by
  have hname : (listAt [.field "name"] shortList).length + maxPadding
      < startIndex [.field "name", .index 1025] := by decide
  have hlist : (listAt [.field "list"] shortList).length + maxPadding
      < startIndex [.field "list", .index 1026] := by decide
  have hreach : ¬ OutOfReach [.field "name"] shortList :=
    (editAt_snd_eq_none_iff fun v => (v, ())).not.1 (by decide +kernel)
  refine ⟨hname, ?_, hlist, ?_⟩
  · have hself := (insertItems_eq_self_iff [.field "name", .index 1025] [.null] shortList hname).1
    rw [Ne, hself]
    rintro (h | ⟨list, h⟩)
    · exact hreach h
    · cases h
  · have hself := (insertItems_eq_self_iff [.field "list", .index 1026] [.null] shortList hlist).1
    exact hself.2 (.inr ⟨_, rfl⟩)

/-- Items that are dropped do not always leave an object or a list as it was: here an empty list
takes the place of a whole object. -/
theorem insertItems_replaces_object :
    ¬ ∀ (path : Path) (items : List Value) (root : Value), root.isContainer = true → items ≠ [] →
      (listAt path.dropLast root).length + maxPadding < startIndex path →
      (insertItems path items root).1 = root := by
  intro h
  have hself := h [.index 1025] [.null] shortList rfl nofun (by decide)
  have hempty : (insertItems [.index 1025] [.null] shortList).1 = .array [] := rfl
  rw [hempty] at hself
  cases hself

end GraphqlClient.Result
