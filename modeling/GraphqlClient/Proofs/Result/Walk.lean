import GraphqlClient.Proofs.Json.Reordered
import GraphqlClient.Result.Splice

/-!
# What a walk along a path leaves

A walk treats the value at every step as a cell with one child: it reads the child that the segment
designates (`child?`), edits it, and sets it again (`setChild`), unless the segment is an index past
the reach of a list (`isBeyond`). `editChild_eq` says so of one step, and `update` is what a whole
walk leaves of the data.
-/

namespace GraphqlClient.Result

open Json Response

/-! ## One step -/

/-- The child that a segment designates, if the value has it. -/
def child? (segment : PathSegment) : Value → Option Value
  | .array items => segment.asIndex.bind fun index => items[index.toNat]?
  | .object ms => ms.lookup segment.key
  | _ => none

/-- The child that a segment designates, null if the value does not have it. -/
def childOrNull (segment : PathSegment) (parent : Value) : Value :=
  (child? segment parent).getD .null

/-- The value with a child set. A list is padded up to the child, and what can have no such child is
replaced by an object that has. -/
def setChild (segment : PathSegment) (v parent : Value) : Value :=
  match parent, segment.asIndex with
  | .array items, some index => .array (writeItem index.toNat v items)
  | .object ms, _ => .object (Members.insert segment.key v ms)
  | _, _ => .object [(segment.key, v)]

/-- Whether a segment is an index past the reach of a list. -/
def isBeyond (segment : PathSegment) (parent : Value) : Bool :=
  match parent, segment.asIndex with
  | .array items, some index => !inReach items.length index.toNat
  | _, _ => false

/-! ## Written items -/

theorem padTo_of_lt {index : Nat} {items : List Value} (h : index < items.length) :
    padTo index items = items := by
  rw [padTo, Nat.sub_eq_zero_of_le h, List.replicate_zero, List.append_nil]

theorem writeItem_of_lt {index : Nat} (v : Value) {items : List Value} (h : index < items.length) :
    writeItem index v items = items.set index v := by
  rw [writeItem, padTo_of_lt h]

/-- Writing what is there changes nothing. -/
theorem writeItem_of_getElem? {index : Nat} {v : Value} {items : List Value}
    (h : items[index]? = some v) : writeItem index v items = items := by
  obtain ⟨hlt, rfl⟩ := List.getElem?_eq_some_iff.1 h
  rw [writeItem_of_lt _ hlt, List.set_getElem_self]

theorem writeItem_writeItem_self (index : Nat) (v w : Value) (items : List Value) :
    writeItem index w (writeItem index v items) = writeItem index w items := by
  have h : index < (writeItem index v items).length := by
    rw [length_writeItem]
    omega
  rw [writeItem_of_lt w h, writeItem, List.set_set, writeItem]

theorem getD_padTo (index : Nat) (items : List Value) :
    (padTo index items).getD index .null = items[index]?.getD .null := by
  rw [List.getD_eq_getElem?_getD, padTo]
  by_cases h : index < items.length
  · rw [List.getElem?_append_left h]
  · have hle := Nat.le_of_not_lt h
    rw [List.getElem?_append_right hle, List.getElem?_eq_none hle, List.getElem?_replicate]
    split <;> rfl

theorem getElem?_writeItem_of_length_le {index i : Nat} {items : List Value}
    (hlength : items.length ≤ i) (hi : i < index) (v : Value) :
    (writeItem index v items)[i]? = some .null := by
  rw [writeItem, List.getElem?_set_ne (by omega), padTo, List.getElem?_append_right hlength,
    List.getElem?_replicate, if_pos (by omega)]

theorem writeItem_append (v : Value) (front back : List Value) :
    writeItem front.length v (front ++ back) = front ++ v :: back.tail := by
  cases back with
  | nil => simp [writeItem, padTo]
  | cons w back => rw [writeItem_of_lt v (by simp), List.set_append_right _ _ (Nat.le_refl _)]; simp

/-- Values that are written from an index in a list on, or right behind it, are all in reach. -/
theorem overwriteItems_append (vs front back : List Value) :
    overwriteItems front.length vs (front ++ back) = front ++ (vs ++ back.drop vs.length) := by
  induction vs generalizing front back with
  | nil => rfl
  | cons v vs ih =>
    have hreach : inReach (front ++ back).length front.length = true := by
      rw [inReach, List.length_append]
      exact decide_eq_true (by omega)
    have hrest := ih (front ++ [v]) back.tail
    rw [List.length_append, List.append_assoc, List.append_assoc] at hrest
    rw [overwriteItems, if_pos hreach, writeItem_append]
    refine hrest.trans ?_
    rw [List.drop_tail]
    rfl

/-- Data that is a list takes the place of as many items as it has. -/
theorem overwriteItems_zero (vs items : List Value) :
    overwriteItems 0 vs items = vs ++ items.drop vs.length :=
  overwriteItems_append vs [] items

/-! ## A step as reading and setting -/

section

variable {α : Type} (edit : Value → Value × Option α)

theorem editMember_eq (key : String) (ms : Members) :
    editMember edit key ms =
      (ms.insert key (edit ((ms.lookup key).getD .null)).1,
        (edit ((ms.lookup key).getD .null)).2) := by
  induction ms with
  | nil => rfl
  | cons m ms ih =>
    obtain ⟨k, v⟩ := m
    by_cases hk : k = key
    · simp [editMember, Members.insert, hk]
    · rw [editMember, if_neg hk, ih, Members.insert, if_neg hk, List.lookup_cons,
        beq_eq_false_iff_ne.2 (Ne.symm hk)]

theorem editItem_eq (index : Nat) (items : List Value) :
    editItem edit index items =
      if inReach items.length index then
        (writeItem index (edit (items[index]?.getD .null)).1 items,
          (edit (items[index]?.getD .null)).2)
      else (items, none) := by
  unfold editItem
  rw [getD_padTo]

/-- One step of a walk: the child is read, edited and set, if it is in reach. -/
theorem editChild_eq (segment : PathSegment) (parent : Value) :
    editChild edit segment parent =
      if isBeyond segment parent then (parent, none)
      else (setChild segment (edit (childOrNull segment parent)).1 parent,
        (edit (childOrNull segment parent)).2) := by
  cases parent with
  | array items =>
    cases hi : segment.asIndex with
    | none => simp [editChild, isBeyond, setChild, childOrNull, child?, hi, editMember]
    | some index =>
      simp only [editChild, isBeyond, setChild, childOrNull, child?, hi, editItem_eq,
        Option.bind_some]
      by_cases hr : inReach items.length index.toNat = true
      · simp [hr]
      · simp [hr]
  | object ms =>
    simp [editChild, editMember_eq, isBeyond, setChild, childOrNull, child?]
  | null | bool | number | string =>
    simp [editChild, isBeyond, setChild, childOrNull, child?, editMember]

end

/-! ## Laws of reading and setting a child -/

section

variable (segment : PathSegment) (v w : Value) (parent : Value)

/-- A child that is set is in reach. -/
@[simp] theorem isBeyond_setChild : isBeyond segment (setChild segment v parent) = false := by
  cases parent with
  | array items =>
    cases hi : segment.asIndex with
    | none => simp [setChild, isBeyond, hi]
    | some index =>
      simp only [setChild, isBeyond, hi, inReach, length_writeItem, Bool.not_eq_false',
        decide_eq_true_eq]
      omega
  | _ => simp [setChild, isBeyond]

@[simp] theorem child?_setChild_self : child? segment (setChild segment v parent) = some v := by
  cases parent with
  | array items =>
    cases hi : segment.asIndex with
    | none => simp [setChild, child?, hi]
    | some index =>
      simp only [setChild, child?, hi, Option.bind_some]
      exact getElem?_writeItem_self index.toNat v items
  | object ms => simp [setChild, child?, Members.lookup_insert]
  | _ => simp [setChild, child?]

theorem setChild_setChild_self :
    setChild segment w (setChild segment v parent) = setChild segment w parent := by
  cases parent with
  | array items =>
    cases hi : segment.asIndex with
    | none => simp [setChild, hi, Members.insert]
    | some index => simp [setChild, hi, writeItem_writeItem_self]
  | object ms => simp [setChild, Members.insert_insert_self]
  | _ => simp [setChild, Members.insert]

@[simp] theorem childOrNull_setChild_self :
    childOrNull segment (setChild segment v parent) = v := by
  rw [childOrNull, child?_setChild_self, Option.getD_some]

/-- What has a child is an object or a list. -/
theorem isContainer_setChild : (setChild segment v parent).isContainer = true := by
  unfold setChild
  split <;> rfl

end

/-! ## Whole walks -/

/-- The value that a path leads to. -/
def valueAt? : Path → Value → Option Value
  | [], v => some v
  | segment :: path, v => (child? segment v).bind (valueAt? path)

/-- What editing the value at a path leaves of the data. -/
def update (f : Value → Value) (path : Path) (root : Value) : Value :=
  (editAt (fun v => (f v, ())) path root).1

theorem update_cons (f : Value → Value) (segment : PathSegment) (path : Path) (root : Value) :
    update f (segment :: path) root =
      if isBeyond segment root then root
      else setChild segment (update f path (childOrNull segment root)) root := by
  rw [update, editAt, editChild_eq]
  split <;> rfl

/-- A walk stops where an index is out of reach, goes on to a child that is there, or goes on from a
missing value and puts what it creates there. -/
theorem update_cons_cases (f : Value → Value) (segment : PathSegment) (path : Path) (root : Value) :
    isBeyond segment root = true ∧ update f (segment :: path) root = root
      ∨ (∃ w, child? segment root = some w ∧ isBeyond segment root = false
        ∧ update f (segment :: path) root = setChild segment (update f path w) root)
      ∨ child? segment root = none ∧ isBeyond segment root = false
        ∧ update f (segment :: path) root = setChild segment (update f path .null) root := by
  rw [update_cons]
  cases hreach : isBeyond segment root with
  | true => exact .inl ⟨rfl, if_pos rfl⟩
  | false =>
    rw [if_neg Bool.false_ne_true, childOrNull]
    cases hchild : child? segment root with
    | some w => exact .inr (.inl ⟨w, rfl, rfl, rfl⟩)
    | none => exact .inr (.inr ⟨rfl, rfl, rfl⟩)

/-- A child that is there is in reach. -/
theorem isBeyond_of_child? {segment : PathSegment} {parent w : Value}
    (h : child? segment parent = some w) : isBeyond segment parent = false := by
  cases parent with
  | array items =>
    obtain ⟨index, hindex, hw⟩ := Option.bind_eq_some_iff.1 h
    obtain ⟨hlt, -⟩ := List.getElem?_eq_some_iff.1 hw
    simp only [isBeyond, hindex, inReach, Bool.not_eq_false', decide_eq_true_eq]
    omega
  | _ => rfl

theorem update_cons_of_child? {segment : PathSegment} {root w : Value}
    (h : child? segment root = some w) (f : Value → Value) (path : Path) :
    update f (segment :: path) root = setChild segment (update f path w) root := by
  rw [update_cons, isBeyond_of_child? h, if_neg Bool.false_ne_true, childOrNull, h,
    Option.getD_some]

theorem update_cons_of_missing {segment : PathSegment} {root : Value}
    (h : child? segment root = none) (hreach : isBeyond segment root = false) (f : Value → Value)
    (path : Path) :
    update f (segment :: path) root = setChild segment (update f path .null) root := by
  rw [update_cons, hreach, if_neg Bool.false_ne_true, childOrNull, h, Option.getD_none]

/-- A walk that starts at a missing value creates an object for every step. -/
theorem update_cons_null (f : Value → Value) (segment : PathSegment) (path : Path) :
    update f (segment :: path) .null = .object [(segment.key, update f path .null)] := by
  rw [update_cons]
  rfl

theorem valueAt?_setChild (segment : PathSegment) (c : Path) (v parent : Value) :
    valueAt? (segment :: c) (setChild segment v parent) = valueAt? c v := by
  rw [valueAt?, child?_setChild_self, Option.bind_some]

theorem valueAt?_cons {segment : PathSegment} {root w : Value} (h : child? segment root = some w)
    (c : Path) : valueAt? (segment :: c) root = valueAt? c w := by
  rw [valueAt?, h, Option.bind_some]

/-- Two walks along one path are one walk: the second comes through everything that the first has
created and is refused where the first was. -/
theorem update_update (f g : Value → Value) (path : Path) (root : Value) :
    update g path (update f path root) = update (fun v => g (f v)) path root := by
  induction path generalizing root with
  | nil => rfl
  | cons segment path ih =>
    rw [update_cons f, update_cons fun v => g (f v)]
    by_cases hb : isBeyond segment root = true
    · rw [if_pos hb, if_pos hb, update_cons, if_pos hb]
    · rw [if_neg hb, if_neg hb, update_cons, isBeyond_setChild, if_neg Bool.false_ne_true,
        childOrNull_setChild_self, setChild_setChild_self, ih]

/-- The data that a walk leaves does not hang on its answer. -/
theorem editAt_fst {α : Type} (edit : Value → Value × α) (path : Path) (root : Value) :
    (editAt edit path root).1 = update (fun v => (edit v).1) path root := by
  induction path generalizing root with
  | nil => rfl
  | cons segment path ih =>
    rw [editAt, editChild_eq, update_cons]
    split
    · rfl
    · rw [ih]

theorem mergeAt_fst (path : Path) (data : Option Value) (root : Value) :
    (mergeAt path data root).1 = update (fun v => mergeFields (asContainer v) data) path root := by
  rw [mergeAt, editAt_fst]

theorem insertItems_fst (path : Path) (items : List Value) (root : Value) :
    (insertItems path items root).1
      = update (fun v => .array (writeItems (startIndex path) items (asItems v)).1) path.dropLast
        root := by
  rw [insertItems, editAt_fst]
  rfl

/-- A walk of one step at least out of a container leaves a container. -/
theorem isContainer_update_cons (f : Value → Value) (segment : PathSegment) (path : Path)
    {root : Value} (h : root.isContainer = true) :
    (update f (segment :: path) root).isContainer = true := by
  rw [update_cons]
  split
  · exact h
  · exact isContainer_setChild ..

/-! ## Distinct keys -/

theorem distinct_writeItem {items : List Value} (h : ∀ v ∈ items, v.Distinct) (index : Nat)
    {v : Value} (hv : v.Distinct) : ∀ w ∈ writeItem index v items, w.Distinct := by
  intro w hw
  rcases List.mem_or_eq_of_mem_set hw with hw | rfl
  · rcases List.mem_append.1 hw with hw | hw
    · exact h w hw
    · rw [List.eq_of_mem_replicate hw]
      exact .null
  · exact hv

theorem distinct_childOrNull {parent : Value} (h : parent.Distinct) (segment : PathSegment) :
    (childOrNull segment parent).Distinct := by
  unfold childOrNull
  cases hc : child? segment parent with
  | none => exact .null
  | some v =>
    rw [Option.getD_some]
    cases parent with
    | array items =>
      obtain ⟨index, -, hv⟩ := Option.bind_eq_some_iff.1 hc
      exact distinct_array.1 h v (List.mem_of_getElem? hv)
    | object ms => exact h.lookup hc
    | null | bool | number | string => simp [child?] at hc

theorem distinct_setChild {parent : Value} (h : parent.Distinct) (segment : PathSegment) {v : Value}
    (hv : v.Distinct) : (setChild segment v parent).Distinct := by
  unfold setChild
  split
  · exact distinct_array.2 (distinct_writeItem (distinct_array.1 h) _ hv)
  · exact h.insert segment.key hv
  · exact distinct_object.2 ⟨by simp, by simpa using hv⟩

/-- A walk keeps keys distinct if the edit at its end does. -/
theorem distinct_update {f : Value → Value} (hf : ∀ v : Value, v.Distinct → (f v).Distinct)
    (path : Path) {root : Value} (h : root.Distinct) : (update f path root).Distinct := by
  induction path generalizing root with
  | nil => exact hf root h
  | cons segment path ih =>
    rw [update_cons]
    split
    · exact h
    · exact distinct_setChild h segment (ih (distinct_childOrNull h segment))

end GraphqlClient.Result
