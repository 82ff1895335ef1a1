import GraphqlClient.Proofs.Result.Walk

/-!
# Where a walk ends

A path is out of reach if it comes to a list and goes on with an index past the reach of that list
(`OutOfReach`). The walk then ends there and leaves the data as it was
(`mergeAt_insertItems_of_outOfReach`), although it edits the data at every step: up to the list it
has only come through children that were there, and setting a child to what it is changes nothing.

Any other path is walked to its end. Behind the first child that is missing the walk meets only what
it has just created, so the value that it comes to is the one that the path leads to, or null if the
path leads nowhere. `valueAt?_mergeAt` says what data leaves there.
-/

namespace GraphqlClient.Result

open Json Response

/-! ## Paths out of reach -/

/-- The path comes to a list and goes on with an index past the reach of that list. -/
def OutOfReach (path : Path) (root : Value) : Prop :=
  ∃ c segment rest items index, path = c ++ segment :: rest
    ∧ valueAt? c root = some (.array items) ∧ segment.asIndex = some index
    ∧ items.length + maxPadding < index.toNat

theorem isBeyond_eq_true_iff {segment : PathSegment} {parent : Value} :
    isBeyond segment parent = true ↔ ∃ items index, parent = .array items
      ∧ segment.asIndex = some index ∧ items.length + maxPadding < index.toNat := by
  cases parent with
  | array items =>
    cases hindex : segment.asIndex with
    | none => simp [isBeyond, hindex]
    | some index => simp [isBeyond, hindex, inReach]
  | _ => simp [isBeyond]

theorem not_outOfReach_nil (root : Value) : ¬ OutOfReach [] root := by
  rintro ⟨c, segment, rest, items, index, hpath, -⟩
  cases c <;> cases hpath

theorem outOfReach_cons {segment : PathSegment} {path : Path} {root : Value} :
    OutOfReach (segment :: path) root ↔
      isBeyond segment root = true ∨ ∃ w, child? segment root = some w ∧ OutOfReach path w := by
  rw [isBeyond_eq_true_iff]
  constructor
  · rintro ⟨c, s, rest, items, index, hpath, hlist, hindex, hlong⟩
    cases c with
    | nil =>
      obtain ⟨rfl, rfl⟩ := List.cons.inj hpath
      exact .inl ⟨items, index, Option.some.inj hlist, hindex, hlong⟩
    | cons t c =>
      rw [List.cons_append] at hpath
      obtain ⟨rfl, rfl⟩ := List.cons.inj hpath
      obtain ⟨w, hw, hlist⟩ := Option.bind_eq_some_iff.1 hlist
      exact .inr ⟨w, hw, c, s, rest, items, index, rfl, hlist, hindex, hlong⟩
  · rintro (⟨items, index, rfl, hindex, hlong⟩ | ⟨w, hw, c, s, rest, items, index, rfl, h⟩)
    · exact ⟨[], segment, path, items, index, rfl, rfl, hindex, hlong⟩
    · rw [← valueAt?_cons hw] at h
      exact ⟨segment :: c, s, rest, items, index, rfl, h⟩

theorem not_outOfReach_null (path : Path) : ¬ OutOfReach path .null := by
  cases path with
  | nil => exact not_outOfReach_nil .null
  | cons segment path =>
    rw [outOfReach_cons]
    rintro (h | ⟨w, h, -⟩) <;> cases h

/-- What is created on the way to a missing value is in reach. -/
theorem outOfReach_childOrNull {segment : PathSegment} {path : Path} {root : Value} :
    OutOfReach path (childOrNull segment root) ↔
      ∃ w, child? segment root = some w ∧ OutOfReach path w := by
  unfold childOrNull
  cases child? segment root with
  | none => simp [not_outOfReach_null]
  | some w => simp

/-- A walk ends early if and only if the path is out of reach. -/
theorem editAt_snd_eq_none_iff {α : Type} (edit : Value → Value × α) {path : Path} {root : Value} :
    (editAt edit path root).2 = none ↔ OutOfReach path root := by
  induction path generalizing root with
  | nil => exact iff_of_false nofun (not_outOfReach_nil root)
  | cons segment path ih =>
    rw [editAt, editChild_eq, outOfReach_cons]
    by_cases hb : isBeyond segment root = true
    · simp [hb]
    · rw [if_neg hb, ih, outOfReach_childOrNull]
      exact (or_iff_right hb).symm

/-! ## Walks that end early -/

theorem setChild_of_child? {segment : PathSegment} {parent w : Value}
    (h : child? segment parent = some w) : setChild segment w parent = parent := by
  cases parent with
  | array items =>
    obtain ⟨index, hindex, hw⟩ := Option.bind_eq_some_iff.1 h
    simp only [setChild, hindex]
    rw [writeItem_of_getElem? hw]
  | object ms =>
    show Value.object (Members.insert segment.key w ms) = .object ms
    rw [Members.insert_of_lookup h]
  | null | bool | number | string => cases h

/-- A walk along a path out of reach leaves the data as it was. -/
theorem update_of_outOfReach (f : Value → Value) {path : Path} {root : Value}
    (h : OutOfReach path root) : update f path root = root := by
  induction path generalizing root with
  | nil => exact absurd h (not_outOfReach_nil root)
  | cons segment path ih =>
    obtain hb | ⟨w, hw, h⟩ := outOfReach_cons.1 h
    · rw [update_cons, if_pos hb]
    · rw [update_cons_of_child? hw, ih h, setChild_of_child? hw]

/-- A payload is refused as out of reach if and only if its path is, for items the path without the
index of the first one. The data is then as it was. -/
theorem mergeAt_insertItems_of_outOfReach (path : Path) (root : Value) :
    (∀ data, ((mergeAt path data root).2 = [.patchOutOfReach] ↔ OutOfReach path root)
        ∧ (OutOfReach path root → (mergeAt path data root).1 = root))
      ∧ ∀ items,
        ((insertItems path items root).2 = [.streamOutOfReach] ↔ OutOfReach path.dropLast root)
          ∧ (OutOfReach path.dropLast root → (insertItems path items root).1 = root) := by
  refine ⟨fun data => ⟨?_, ?_⟩, fun items => ⟨?_, ?_⟩⟩
  · rw [← editAt_snd_eq_none_iff fun v => (mergeFields (asContainer v) data, ()), mergeAt]
    cases (editAt _ path root).2 <;> simp
  · intro h
    rw [mergeAt_fst, update_of_outOfReach _ h]
  · rw [← editAt_snd_eq_none_iff
      fun v => (writeItems (startIndex path) items (asItems v)).map .array id, insertItems]
    rcases (editAt _ path.dropLast root).2 with _ | (_ | _) <;> simp
  · intro h
    rw [insertItems_fst, update_of_outOfReach _ h]

/-- An object with a list of one item. -/
def shortList : Value := .object [("list", .array [.null]), ("name", .string "short")]

/-- A path that goes on from the list with the first index past its reach. -/
def farPath : Path := [.field "list", .field "1026", .field "tags"]

theorem mergeAt_insertItems_farPath :
    OutOfReach farPath shortList
      ∧ (mergeAt farPath (some (.object [("first", .null)])) shortList).1 = shortList
      ∧ (mergeAt farPath none shortList).2 = [.patchOutOfReach]
      ∧ OutOfReach (farPath ++ [PathSegment.index 0]).dropLast shortList
      ∧ (insertItems (farPath ++ [PathSegment.index 0]) [.null, .null] shortList).1 = shortList := by
  have hfar : OutOfReach farPath shortList :=
    ⟨[.field "list"], .field "1026", [.field "tags"], [.null], 1026, rfl, rfl, by decide +kernel,
      by decide⟩
  have hmerge := (mergeAt_insertItems_of_outOfReach farPath shortList).1
  have hinsert := (mergeAt_insertItems_of_outOfReach (farPath ++ [PathSegment.index 0]) shortList).2
  exact ⟨hfar, (hmerge _).2 hfar, (hmerge none).1.2 hfar, hfar, (hinsert _).2 hfar⟩

/-! ## The value at the end of a path -/

theorem getD_valueAt?_null (path : Path) : (valueAt? path .null).getD .null = .null := by
  cases path <;> rfl

theorem getD_valueAt?_cons (segment : PathSegment) (path : Path) (root : Value) :
    (valueAt? (segment :: path) root).getD .null
      = (valueAt? path (childOrNull segment root)).getD .null := by
  rw [valueAt?, childOrNull]
  cases child? segment root with
  | none => exact (getD_valueAt?_null path).symm
  | some w => rfl

/-- Along a path in reach a walk answers what the edit at its end does. -/
theorem editAt_snd {α : Type} (edit : Value → Value × α) {path : Path} {root : Value}
    (h : ¬ OutOfReach path root) :
    (editAt edit path root).2 = some (edit ((valueAt? path root).getD .null)).2 := by
  induction path generalizing root with
  | nil => rfl
  | cons segment path ih =>
    rw [outOfReach_cons, ← outOfReach_childOrNull, not_or] at h
    rw [editAt, editChild_eq, if_neg h.1, ih h.2, getD_valueAt?_cons]

/-- An edit that leaves the value at the end of a path as it is leaves all data as it is. -/
theorem update_of_valueAt? {f : Value → Value} {path : Path} {root v : Value}
    (h : valueAt? path root = some v) (hv : f v = v) : update f path root = root := by
  induction path generalizing root with
  | nil =>
    cases h
    exact hv
  | cons segment path ih =>
    obtain ⟨w, hw, h⟩ := Option.bind_eq_some_iff.1 h
    rw [update_cons_of_child? hw, ih h, setChild_of_child? hw]

/-- Where a path in reach led to a value, it leads to the edited value. Where it led nowhere, it
leads to what the edit makes of null. -/
theorem valueAt?_update (f : Value → Value) {path : Path} {root : Value}
    (h : ¬ OutOfReach path root) :
    valueAt? path (update f path root) = some (f ((valueAt? path root).getD .null)) := by
  induction path generalizing root with
  | nil => rfl
  | cons segment path ih =>
    rw [outOfReach_cons, ← outOfReach_childOrNull, not_or] at h
    rw [update_cons, if_neg h.1, valueAt?_setChild, ih h.2, getD_valueAt?_cons]

theorem distinct_valueAt? {path : Path} {root v : Value} (h : root.Distinct)
    (hv : valueAt? path root = some v) : v.Distinct := by
  induction path generalizing root with
  | nil =>
    cases hv
    exact h
  | cons segment path ih =>
    obtain ⟨w, hw, hv⟩ := Option.bind_eq_some_iff.1 hv
    have hchild := distinct_childOrNull h segment
    rw [childOrNull, hw, Option.getD_some] at hchild
    exact ih hchild hv

/-! ## Data over a value -/

/-- The container that data at a path goes into: the one that the path leads to, or an empty object
if the path leads nowhere or to a scalar. -/
def containerAt (path : Path) (root : Value) : Value :=
  ((valueAt? path root).filter Value.isContainer).getD (.object [])

/-- Data over a value: an object over an object, member by member; a list over a list, in the place
of as many items as it has; and any other data not at all. -/
def overlay : Value → Option Value → Value
  | .object ms, some (.object patch) => .object (Members.overlay ms patch)
  | .array items, some (.array patch) => .array (patch ++ items.drop patch.length)
  | target, _ => target

theorem mergeFields_eq_overlay {target : Value} (h : target.Distinct) {data : Option Value}
    (hdata : ∀ v ∈ data, v.Distinct) : mergeFields target data = overlay target data := by
  unfold mergeFields
  split
  · rename_i ms patch
    have hpatch := (distinct_object.1 (hdata _ rfl)).1
    rw [Members.merge_eq_overlay (distinct_object.1 h).1 hpatch, overlay]
  · rw [overwriteItems_zero, overlay]
  · rename_i hobject harray
    unfold overlay
    split
    · exact (hobject _ _ rfl rfl).elim
    · exact (harray _ _ rfl rfl).elim
    · rfl

theorem containerAt_eq (path : Path) (root : Value) :
    containerAt path root = asContainer ((valueAt? path root).getD .null) := by
  unfold containerAt asContainer
  cases valueAt? path root with
  | none => rfl
  | some v =>
    rw [Option.filter_some, Option.getD_some]
    split <;> rfl

theorem distinct_containerAt {root : Value} (h : root.Distinct) (path : Path) :
    (containerAt path root).Distinct := by
  unfold containerAt
  cases hv : (valueAt? path root).filter Value.isContainer with
  | none => exact .object List.nodup_nil nofun
  | some v => exact distinct_valueAt? h (Option.filter_eq_some_iff.1 hv).1

/-- Along a path in reach, data leaves at the end of the path what it makes of the container there:
an object with its members overwritten and new ones behind them, a list with its first items
overwritten, or the container as it was if the data is absent, scalar or of the other kind. -/
theorem valueAt?_mergeAt {path : Path} {root : Value} {data : Option Value}
    (hreach : ¬ OutOfReach path root) (hroot : root.Distinct) (hdata : ∀ v ∈ data, v.Distinct) :
    valueAt? path (mergeAt path data root).1 = some (overlay (containerAt path root) data) := by
  rw [mergeAt_fst, valueAt?_update _ hreach, ← containerAt_eq,
    mergeFields_eq_overlay (distinct_containerAt hroot path) hdata]

/-- Data for the object as a whole, and for an item that pads the list. -/
theorem valueAt?_mergeAt_shortList :
    ¬ OutOfReach [] shortList ∧ ¬ OutOfReach [.field "list", .index 3] shortList
      ∧ shortList.Distinct
      ∧ valueAt? [] (mergeAt [] (some (.object [("tags", .null), ("list", .bool true)]))
          shortList).1
        = some (.object [("list", .bool true), ("name", .string "short"), ("tags", .null)])
      ∧ valueAt? [.field "list", .index 3]
          (mergeAt [.field "list", .index 3] (some (.array [.null])) shortList).1
        = some (.object []) := by
  have hitem : ¬ OutOfReach [.field "list", .index 3] shortList :=
    (editAt_snd_eq_none_iff fun v => (v, ())).not.1 (by decide +kernel)
  have hroot : shortList.Distinct := by simp [shortList]
  exact ⟨not_outOfReach_nil _, hitem, hroot,
    valueAt?_mergeAt (not_outOfReach_nil _) hroot (by simp),
    valueAt?_mergeAt hitem hroot (by simp)⟩

end GraphqlClient.Result
