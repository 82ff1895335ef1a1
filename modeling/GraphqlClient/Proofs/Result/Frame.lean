import GraphqlClient.Proofs.Result.Reach

/-!
# What a payload leaves alone

A payload edits the value at the end of a walk. This module says what becomes of the rest of the
data (`framed_mergeAt_insertItems`). Values are told by concrete places, keys of members and
indices of items, since one segment of a path may be either. A place leaves the path of the walk
where it goes another way from a container that the path goes on from (`Leaves`), and what is there
stays. What is new there is null, and it pads one list (`Padding`). Containers on the way keep their
members and items in order.
-/

namespace GraphqlClient.Result

open Json Response

/-! ## Places -/

/-- A step into a container. -/
inductive Step
  | member (key : String)
  | item (index : Nat)

/-- Where a value stands in another. -/
abbrev Place := List Step

/-- The value that a step leads to, if there is one. -/
def getStep? : Step → Value → Option Value
  | .member key, .object ms => ms.lookup key
  | .item index, .array items => items[index]?
  | _, _ => none

/-- The value at a place, if there is one. -/
def getAt? : Place → Value → Option Value
  | [], v => some v
  | step :: place, v => (getStep? step v).bind (getAt? place)

/-- The step that a segment takes at an object, or at a list that it has an index for. -/
def ownStep? (segment : PathSegment) : Value → Option Step
  | .object _ => some (.member segment.key)
  | .array _ => segment.asIndex.map fun index => .item index.toNat
  | _ => none

/-- A step to another member than that of the segment, or to another item of a list that the segment
has an index for. -/
inductive Departs (segment : PathSegment) : Step → Value → Prop
  | member {key : String} {ms : Members} (other : key ≠ segment.key) :
    Departs segment (.member key) (.object ms)
  | item {i : Nat} {items : List Value} {index : UInt64} (own : segment.asIndex = some index)
    (other : i ≠ index.toNat) : Departs segment (.item i) (.array items)

/-- The place goes along the path for some steps and then departs from it. -/
inductive Leaves : Path → Place → Value → Prop
  | departs {segment : PathSegment} {path : Path} {step : Step} {place : Place} {v : Value}
    (h : Departs segment step v) : Leaves (segment :: path) (step :: place) v
  | follows {segment : PathSegment} {path : Path} {step : Step} {place : Place} {v w : Value}
    (own : ownStep? segment v = some step) (child : getStep? step v = some w)
    (h : Leaves path place w) : Leaves (segment :: path) (step :: place) v

/-- The place is behind the end of a list on the path, and before the index with which the path
goes on from there. -/
inductive Padding : Path → Place → Value → Prop
  | here {segment : PathSegment} {path : Path} {items : List Value} {index : UInt64} {i : Nat}
    (own : segment.asIndex = some index) (behind : items.length ≤ i) (before : i < index.toNat) :
    Padding (segment :: path) [.item i] (.array items)
  | further {segment : PathSegment} {path : Path} {step : Step} {place : Place} {v w : Value}
    (own : ownStep? segment v = some step) (child : getStep? step v = some w)
    (h : Padding path place w) : Padding (segment :: path) (step :: place) v

/-- What a walk along a path leaves alone: `before` is the data it starts from and `after` the data
it leaves. -/
structure Framed (path : Path) (before after : Value) : Prop where
  /-- What is at a place that leaves the path stays there. -/
  kept : ∀ place, Leaves path place before →
    Leaves path place after ∧ ∀ v, getAt? place before = some v → getAt? place after = some v
  /-- What is new at such a place is null and pads a list. -/
  padding : ∀ place v, Leaves path place after → getAt? place after = some v →
    getAt? place before = some v ∨ v = .null ∧ Padding path place before
  /-- All padding is in one list. -/
  onePadded : ∀ place place', Padding path place before → Padding path place' before →
    place.dropLast = place'.dropLast
  /-- An object on the way keeps its keys in order and gets one at most, at its end. -/
  keys : ∀ c segment rest (ms : Members), path = c ++ segment :: rest →
    valueAt? c before = some (.object ms) →
    ∃ ms' : Members, valueAt? c after = some (.object ms') ∧ (ms'.keys = ms.keys
      ∨ segment.key ∉ ms.keys ∧ ms'.keys = ms.keys ++ [segment.key])
  /-- A list that the path goes on from by an index is not shortened. -/
  lengths : ∀ c segment rest items, path = c ++ segment :: rest →
    valueAt? c before = some (.array items) → segment.asIndex.isSome →
    ∃ items', valueAt? c after = some (.array items') ∧ items.length ≤ items'.length

/-! ## One step -/

section

variable {segment : PathSegment} {step : Step} {parent v w : Value}

theorem child?_eq (segment : PathSegment) (parent : Value) :
    child? segment parent = (ownStep? segment parent).bind fun step => getStep? step parent := by
  cases parent with
  | array items => cases hindex : segment.asIndex <;> simp [child?, ownStep?, hindex, getStep?]
  | _ => rfl

theorem exists_ownStep? (h : child? segment parent = some w) :
    ∃ step, ownStep? segment parent = some step ∧ getStep? step parent = some w := by
  rw [child?_eq] at h
  exact Option.bind_eq_some_iff.1 h

theorem getStep?_of_ownStep? (own : ownStep? segment parent = some step) :
    getStep? step parent = child? segment parent := by
  rw [child?_eq, own, Option.bind_some]

theorem getStep?_setChild (own : ownStep? segment (setChild segment w parent) = some step) :
    getStep? step (setChild segment w parent) = some w := by
  rw [getStep?_of_ownStep? own, child?_setChild_self]

theorem ownStep?_setChild (h : ownStep? segment parent = some step) (v : Value) :
    ownStep? segment (setChild segment v parent) = some step := by
  cases parent with
  | array items =>
    obtain ⟨index, hindex, rfl⟩ := Option.map_eq_some_iff.1 h
    simp [setChild, hindex, ownStep?]
  | object ms => exact h
  | null | bool | number | string => cases h

theorem Departs.setChild (h : Departs segment step parent) (v : Value) :
    Departs segment step (setChild segment v parent) := by
  cases h with
  | member other => exact .member other
  | item own other =>
    simp only [Result.setChild, own]
    exact .item own other

/-- Setting the child of a segment leaves the others. -/
theorem Departs.getStep?_setChild (h : Departs segment step parent)
    (hw : getStep? step parent = some w) (v : Value) :
    getStep? step (Result.setChild segment v parent) = some w := by
  cases h with
  | member other =>
    simp only [Result.setChild, getStep?] at hw ⊢
    rw [Members.lookup_insert, if_neg other, hw]
  | item own other =>
    simp only [Result.setChild, own, getStep?] at hw ⊢
    obtain ⟨hlt, -⟩ := List.getElem?_eq_some_iff.1 hw
    rw [getElem?_writeItem_of_lt v hlt other, hw]

/-- An object that is created on the way has no other child. -/
theorem Departs.getStep?_created
    (h : Departs segment step (.object [(segment.key, v)])) :
    getStep? step (.object [(segment.key, v)]) = none := by
  cases h with
  | member other =>
    rw [getStep?, List.lookup_cons, beq_eq_false_iff_ne.2 other]
    rfl

/-- A child that is set brings no others, but for the nulls that pad a list up to it. -/
theorem Departs.of_getStep?_setChild (h : Departs segment step (Result.setChild segment v parent))
    (hw : getStep? step (Result.setChild segment v parent) = some w) :
    getStep? step parent = some w
      ∨ w = .null ∧ ∀ path, Padding (segment :: path) [step] parent := by
  have hcreated (hset : Result.setChild segment v parent = .object [(segment.key, v)]) : False := by
    rw [hset] at h hw
    rw [h.getStep?_created] at hw
    cases hw
  cases parent with
  | array items =>
    cases hindex : segment.asIndex with
    | none => exact (hcreated (by simp [Result.setChild, hindex])).elim
    | some index =>
      simp only [Result.setChild, hindex] at h hw
      cases h with
      | @item i _ _ own other =>
        obtain rfl : index = _ := Option.some.inj (hindex.symm.trans own)
        by_cases hi : i < items.length
        · exact .inl ((getElem?_writeItem_of_lt v hi other).symm.trans hw)
        · have hlength := Nat.le_of_not_lt hi
          have hlt := (List.getElem?_eq_some_iff.1 hw).1
          rw [length_writeItem] at hlt
          have hbefore : i < index.toNat := by omega
          have hnull := getElem?_writeItem_of_length_le hlength hbefore v
          exact .inr ⟨Option.some.inj (hw.symm.trans hnull), fun path => .here own hlength hbefore⟩
  | object ms =>
    simp only [Result.setChild] at h hw
    cases h with
    | member other =>
      rw [getStep?, Members.lookup_insert, if_neg other] at hw
      exact .inl hw
  | null | bool | number | string => exact (hcreated rfl).elim

end

/-! ## Whole walks -/

section

variable {path : Path} {place : Place} {root v : Value}

/-- Where a place leaves the path before the walk, it does so afterwards. -/
theorem Leaves.update (f : Value → Value) (h : Leaves path place root) :
    Leaves path place (Result.update f path root) := by
  induction h with
  | @departs segment path step place v h =>
    rw [update_cons]
    split
    · exact .departs h
    · exact .departs (h.setChild _)
  | @follows segment path step place v w own child h ih =>
    rw [update_cons_of_child? (getStep?_of_ownStep? own ▸ child)]
    have hown := ownStep?_setChild own (Result.update f path w)
    exact .follows hown (getStep?_setChild hown) ih

/-- A walk leaves what is at places that leave its path. -/
theorem Leaves.getAt?_update (f : Value → Value) (h : Leaves path place root)
    (hv : getAt? place root = some v) : getAt? place (Result.update f path root) = some v := by
  induction h with
  | @departs segment path step place parent h =>
    obtain ⟨w, hw, hv⟩ := Option.bind_eq_some_iff.1 hv
    rw [update_cons]
    split
    · exact Option.bind_eq_some_iff.2 ⟨w, hw, hv⟩
    · exact Option.bind_eq_some_iff.2 ⟨w, h.getStep?_setChild hw _, hv⟩
  | @follows segment path step place parent w own child h ih =>
    rw [getAt?, child, Option.bind_some] at hv
    rw [update_cons_of_child? (getStep?_of_ownStep? own ▸ child), getAt?,
      getStep?_setChild (ownStep?_setChild own _), Option.bind_some, ih hv]

/-- Where a walk starts from a missing value, nothing is off its path. -/
theorem Leaves.getAt?_created {f : Value → Value}
    (h : Leaves path place (Result.update f path .null)) :
    getAt? place (Result.update f path .null) = none := by
  induction path generalizing place with
  | nil => cases h
  | cons segment path ih =>
    rw [update_cons_null] at h ⊢
    cases h with
    | departs h => rw [getAt?, h.getStep?_created, Option.bind_none]
    | @follows _ _ step place _ w own child h =>
      have hw : getStep? step (.object [(segment.key, Result.update f path .null)])
          = some (Result.update f path .null) := by
        rw [getStep?_of_ownStep? own]
        exact child?_setChild_self segment _ .null
      obtain rfl := Option.some.inj (hw.symm.trans child)
      rw [getAt?, child, Option.bind_some, ih h]

/-- A child that is set brings no values at other places, but for one of the nulls that pad a
list. -/
theorem Departs.of_getAt?_setChild {segment : PathSegment} {step : Step} {w : Value}
    (h : Departs segment step (Result.setChild segment w root))
    (hv : getAt? (step :: place) (Result.setChild segment w root) = some v) :
    getAt? (step :: place) root = some v
      ∨ v = .null ∧ Padding (segment :: path) (step :: place) root := by
  obtain ⟨x, hx, hv⟩ := Option.bind_eq_some_iff.1 hv
  obtain hold | ⟨rfl, hpadding⟩ := h.of_getStep?_setChild hx
  · exact .inl (Option.bind_eq_some_iff.2 ⟨x, hold, hv⟩)
  · cases place with
    | nil => exact .inr ⟨(Option.some.inj hv).symm, hpadding path⟩
    | cons below place => cases below <;> cases hv

/-- What a walk adds off its path pads a list. -/
theorem getAt?_of_leaves_update {f : Value → Value} (h : Leaves path place (update f path root))
    (hv : getAt? place (update f path root) = some v) :
    getAt? place root = some v ∨ v = .null ∧ Padding path place root := by
  induction path generalizing place root with
  | nil => cases h
  | cons segment path ih =>
    obtain ⟨-, heq⟩ | ⟨w, hw, -, heq⟩ | ⟨-, -, heq⟩ := update_cons_cases f segment path root
    · rw [heq] at hv
      exact .inl hv
    · rw [heq] at h hv
      cases h with
      | departs h => exact h.of_getAt?_setChild hv
      | follows own child h =>
        obtain ⟨step, hown, hstep⟩ := exists_ownStep? hw
        obtain rfl := Option.some.inj ((ownStep?_setChild hown _).symm.trans own)
        obtain rfl := Option.some.inj ((getStep?_setChild own).symm.trans child)
        rw [getAt?, child, Option.bind_some] at hv
        obtain hold | ⟨hnull, hpadding⟩ := ih h hv
        · exact .inl (Option.bind_eq_some_iff.2 ⟨w, hstep, hold⟩)
        · exact .inr ⟨hnull, .further hown hstep hpadding⟩
    · rw [heq] at h hv
      cases h with
      | departs h => exact h.of_getAt?_setChild hv
      | follows own child h =>
        -- the child is created here, and so is all that the walk meets below it
        obtain rfl := Option.some.inj ((getStep?_setChild own).symm.trans child)
        rw [getAt?, child, Option.bind_some, h.getAt?_created] at hv
        cases hv

theorem Padding.ne_nil (h : Padding path place root) : place ≠ [] := by
  cases h <;> exact List.cons_ne_nil _ _

/-- Only a list that ends before the next step of the path is padded, and the path comes to no list
behind it. -/
theorem Padding.dropLast_eq {place' : Place} (h : Padding path place root)
    (h' : Padding path place' root) : place.dropLast = place'.dropLast := by
  have hends {segment : PathSegment} {items : List Value} {index : UInt64} {i : Nat} {step : Step}
      {w : Value} (hindex : segment.asIndex = some index) (hlength : items.length ≤ i)
      (hi : i < index.toNat) (own : ownStep? segment (.array items) = some step)
      (child : getStep? step (.array items) = some w) : False := by
    rw [ownStep?, hindex] at own
    obtain rfl := Option.some.inj own
    obtain ⟨hlt, -⟩ := List.getElem?_eq_some_iff.1 child
    omega
  induction h generalizing place' with
  | here hindex hlength hi =>
    cases h' with
    | here => rfl
    | further own child => exact (hends hindex hlength hi own child).elim
  | further own child h ih =>
    cases h' with
    | here hindex hlength hi => exact (hends hindex hlength hi own child).elim
    | further own' child' h' =>
      obtain rfl := Option.some.inj (own.symm.trans own')
      obtain rfl := Option.some.inj (child.symm.trans child')
      rw [List.dropLast_cons_of_ne_nil h.ne_nil, List.dropLast_cons_of_ne_nil h'.ne_nil, ih h']

/-- At a value on its way, a walk leaves what the rest of the walk makes of the value. -/
theorem valueAt?_update_append (f : Value → Value) {c : Path} (h : valueAt? c root = some v) :
    valueAt? c (update f (c ++ path) root) = some (update f path v) := by
  induction c generalizing root with
  | nil =>
    cases h
    rfl
  | cons segment c ih =>
    obtain ⟨w, hw, h⟩ := Option.bind_eq_some_iff.1 h
    rw [List.cons_append, update_cons_of_child? hw, valueAt?_setChild, ih h]

end

/-! ## Payloads -/

theorem framed_update (f : Value → Value) (path : Path) (root : Value) :
    Framed path root (update f path root) where
  kept place h := ⟨h.update f, fun _ hv => h.getAt?_update f hv⟩
  padding place v h hv := getAt?_of_leaves_update h hv
  onePadded place place' h h' := h.dropLast_eq h'
  keys := by
    rintro c segment rest ms rfl hms
    refine ⟨_, (valueAt?_update_append f hms).trans (by rw [update_cons]; rfl), ?_⟩
    rw [Members.keys_insert]
    by_cases hkey : segment.key ∈ ms.keys
    · exact .inl (if_pos hkey)
    · exact .inr ⟨hkey, if_neg hkey⟩
  lengths := by
    rintro c segment rest items rfl hitems hindex
    obtain ⟨index, hindex⟩ := Option.isSome_iff_exists.1 hindex
    have hafter : valueAt? c (update f (c ++ segment :: rest) root)
        = some (update f (segment :: rest) (.array items)) := valueAt?_update_append f hitems
    rw [update_cons] at hafter
    split at hafter
    · exact ⟨items, hafter, Nat.le_refl _⟩
    · simp only [setChild, hindex] at hafter
      refine ⟨_, hafter, ?_⟩
      rw [length_writeItem]
      omega

/-- Whatever data or items a payload brings, it leaves alone what is off the way to the value that
it edits, except that it may pad one list with nulls. -/
theorem framed_mergeAt_insertItems (path : Path) (root : Value) :
    (∀ data, Framed path root (mergeAt path data root).1)
      ∧ ∀ items, Framed path.dropLast root (insertItems path items root).1 := by
  constructor
  · intro data
    rw [mergeAt_fst]
    exact framed_update _ path root
  · intro items
    rw [insertItems_fst]
    exact framed_update _ path.dropLast root

/-- A path that pads the list of `shortList` and goes on from an item that is created. -/
def paddingPath : Path := [.field "list", .index 3, .field "tags"]

theorem framed_mergeAt_insertItems_paddingPath :
    Leaves paddingPath [.member "name"] shortList
      ∧ getAt? [.member "name"] (mergeAt paddingPath none shortList).1 = some (.string "short")
      ∧ getAt? [.member "list", .item 2] shortList = none
      ∧ getAt? [.member "list", .item 2] (mergeAt paddingPath none shortList).1 = some .null
      ∧ Padding paddingPath [.member "list", .item 2] shortList := by
  have frame := (framed_mergeAt_insertItems paddingPath shortList).1 none
  have hname : Leaves paddingPath [.member "name"] shortList := .departs (.member (by decide))
  have hitem : Leaves paddingPath [.member "list", .item 2] shortList :=
    .follows rfl rfl (.departs (.item rfl (by decide)))
  have hnew : getAt? [.member "list", .item 2] (mergeAt paddingPath none shortList).1
      = some .null := rfl
  refine ⟨hname, (frame.kept _ hname).2 _ rfl, rfl, hnew, ?_⟩
  obtain hold | ⟨-, hpadding⟩ := frame.padding _ _ (frame.kept _ hitem).1 hnew
  · cases hold
  · exact hpadding

end GraphqlClient.Result
