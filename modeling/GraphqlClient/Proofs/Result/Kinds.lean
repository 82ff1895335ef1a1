import GraphqlClient.Proofs.Result.Frame
import GraphqlClient.Proofs.Result.SameSite

/-!
# Containers on the way of a payload

An object or a list that a payload meets on the way to its site stays one of its kind, except where
it cannot hold what comes (`GivesWay`). A list has no place for a member: if the site goes on from
it by a segment that is no index, an object takes its place. An object has no place for items: if
the site of items is an object, a list takes its place. So a payload does not leave the kinds of all
containers alone (`applyPayload_changes_kinds`), but these are all the exceptions
(`keepsKinds_applyPatch`).

Only the value at the end of the walk is edited (`sameKind_write`). Every other one on its way gets
a child set or stays as it is (`sameKind_setChild`).
-/

namespace GraphqlClient.Result

open Json Response

/-- Both values are objects, or both are lists. -/
inductive SameKind : Value → Value → Prop
  | object (ms ms' : Members) : SameKind (.object ms) (.object ms')
  | array (items items' : List Value) : SameKind (.array items) (.array items')

/-- A container on the way of a payload that cannot hold what comes. The path is what is left of the
way from there. -/
inductive GivesWay (p : IncrementalPayload) : Path → Value → Prop
  | list {segment : PathSegment} {rest : Path} {items : List Value}
    (noIndex : segment.asIndex = none) : GivesWay p (segment :: rest) (.array items)
  | object {ms : Members} (items : p.items.isSome = true) : GivesWay p [] (.object ms)

/-- What a payload makes of the containers on its way. -/
structure KeepsKinds (p : IncrementalPayload) (before after : Value) : Prop where
  /-- A container on the way stays one of its kind if it does not give way. -/
  kept : ∀ c rest v, p.site = c ++ rest → valueAt? c before = some v → v.isContainer = true →
    ¬ GivesWay p rest v → ∃ w, valueAt? c after = some w ∧ SameKind v w
  /-- A list that the site goes on from by no index is an object of one member afterwards. -/
  lists : ∀ c segment rest items, p.site = c ++ segment :: rest →
    valueAt? c before = some (.array items) → segment.asIndex = none →
    ∃ w, valueAt? c after = some (.object [(segment.key, w)])
  /-- An object at the site of items is a list of them afterwards, if their first index is within
  reach of an empty list. -/
  objects : ∀ ms item items, p.items = some (item :: items) →
    valueAt? p.site before = some (.object ms) → startIndex p.path ≤ maxPadding →
    ∃ list, valueAt? p.site after = some (.array list) ∧ list[startIndex p.path]? = some item

/-- All containers on the way of a payload are of their kind afterwards. -/
def KeepsAllKinds (p : IncrementalPayload) (before after : Value) : Prop :=
  ∀ c rest v, p.site = c ++ rest → valueAt? c before = some v → v.isContainer = true →
    ∃ w, valueAt? c after = some w ∧ SameKind v w

/-! ## One value -/

section

variable {v parent : Value}

theorem SameKind.refl (h : v.isContainer = true) : SameKind v v := by
  cases v with
  | array items => exact .array items items
  | object ms => exact .object ms ms
  | _ => cases h

theorem sameKind_mergeFields (h : v.isContainer = true) (data : Option Value) :
    SameKind v (mergeFields v data) := by
  unfold mergeFields
  split
  · exact .object _ _
  · exact .array _ _
  · exact .refl h

/-- A child that is set leaves an object an object, and a list a list if the segment is an index. -/
theorem sameKind_setChild {p : IncrementalPayload} {segment : PathSegment} {rest : Path}
    (hparent : parent.isContainer = true) (h : ¬ GivesWay p (segment :: rest) parent) (v : Value) :
    SameKind parent (setChild segment v parent) := by
  cases parent with
  | array items =>
    cases hindex : segment.asIndex with
    | none => exact absurd (.list hindex) h
    | some index =>
      simp only [setChild, hindex]
      exact .array _ _
  | object ms => exact .object _ _
  | _ => cases hparent

/-- Data leaves a container of its kind at the site, and items leave a list there. -/
theorem sameKind_write {p : IncrementalPayload} (hv : v.isContainer = true)
    (h : ¬ GivesWay p [] v) : SameKind v (p.write v) := by
  unfold IncrementalPayload.write
  cases hitems : p.items with
  | none =>
    show SameKind v (mergeFields (asContainer v) p.data)
    rw [asContainer_of_isContainer hv]
    exact sameKind_mergeFields hv p.data
  | some items =>
    cases v with
    | array old => exact .array _ _
    | object ms => exact absurd (.object (hitems ▸ rfl)) h
    | _ => cases hv

theorem sameKind_update {p : IncrementalPayload} {rest : Path} (hv : v.isContainer = true)
    (h : ¬ GivesWay p rest v) : SameKind v (update p.write rest v) := by
  cases rest with
  | nil => exact sameKind_write hv h
  | cons segment rest =>
    rw [update_cons]
    split
    · exact .refl hv
    · exact sameKind_setChild hv h _

/-- Items that find no list are written into an empty one. -/
theorem getElem?_writeItems_nil {index : Nat} (h : index ≤ maxPadding) (item : Value)
    (items : List Value) : (writeItems index (item :: items) []).1[index]? = some item := by
  have hsize : index < UInt64.size := Nat.lt_of_le_of_lt h (by decide)
  have hreach : inReach ([] : List Value).length index = true := decide_eq_true (by simpa using h)
  have hwritten : index < (writeItem index item []).length := by
    rw [length_writeItem]
    omega
  rw [writeItems, if_pos ⟨hsize, hreach⟩,
    getElem?_writeItems_of_lt (Nat.lt_succ_self index) hwritten, getElem?_writeItem_self]

end

/-! ## All values on the way -/

theorem keepsKinds_update (p : IncrementalPayload) (root : Value) :
    KeepsKinds p root (update p.write p.site root) where
  kept c rest v hsite hv hcontainer h := by
    rw [hsite]
    exact ⟨_, valueAt?_update_append p.write hv, sameKind_update hcontainer h⟩
  lists c segment rest items hsite hitems hindex := by
    have hafter : valueAt? c (update p.write (c ++ segment :: rest) root)
        = some (update p.write (segment :: rest) (.array items)) :=
      valueAt?_update_append p.write hitems
    rw [← hsite, update_cons] at hafter
    simp only [isBeyond, setChild, hindex] at hafter
    exact ⟨_, hafter⟩
  objects ms item items hitems hms hstart := by
    have hafter : valueAt? p.site (update p.write (p.site ++ []) root)
        = some (p.write (.object ms)) := valueAt?_update_append p.write hms
    have hwrite : p.write (.object ms)
        = .array (writeItems (startIndex p.path) (item :: items) []).1 := by
      rw [IncrementalPayload.write, hitems]
      rfl
    rw [List.append_nil] at hafter
    exact ⟨_, hafter.trans (congrArg some hwrite), getElem?_writeItems_nil hstart item items⟩

namespace OperationResult

/-- Where the data is an object or a list, every container on the way of a payload stays one of its
kind, the data itself included, unless it gives way. That holds of an entry of a batch and of a
patch with a path. -/
theorem keepsKinds_applyPatch (r : OperationResult) {root : Value} (hdata : r.data = some root)
    (hroot : root.isContainer = true) (response : Option Value) :
    (∀ p : IncrementalPayload, ∃ root', (r.applyPayload p response).1.data = some root'
        ∧ KeepsKinds p root root')
      ∧ ∀ (patch : ExecutionResult) (path : Path), patch.path = some path →
        patch.incremental = none → ∃ root', (r.applyPatch patch response).1.data = some root'
          ∧ KeepsKinds (payloadAt path patch) root root' := by
  have hdataRoot : r.dataRoot = root := by
    rw [dataRoot, hdata, Option.getD_some, asContainer_of_isContainer hroot]
  constructor
  · intro p
    rw [data_applyPayload, hdataRoot]
    exact ⟨_, rfl, keepsKinds_update p root⟩
  · intro patch path hpath hbatch
    rw [applyPatch_of_path hpath hbatch, hdataRoot]
    exact ⟨_, rfl, keepsKinds_update _ root⟩

/-- A result with the data `shortList`. -/
def shortResult : OperationResult := { twoItems with data := some shortList }

/-- Data for a member of a list. -/
def listMember : IncrementalPayload where
  path := [.field "list", .field "tags"]
  data := some (.object [("first", .bool true)])

/-- Items at the root of the data. -/
def rootItems : ExecutionResult where
  path := some [.index 1]
  items := some [.bool true]
  hasNext := false

theorem keepsKinds_applyPatch_shortList :
    shortResult.data = some shortList ∧ shortList.isContainer = true
      ∧ (∃ ms w, (shortResult.applyPayload listMember none).1.data = some (.object ms)
        ∧ valueAt? [.field "list"] (.object ms) = some (.object [("tags", w)]))
      ∧ rootItems.path = some [.index 1] ∧ rootItems.incremental = none
      ∧ ∃ list, (shortResult.applyPatch rootItems none).1.data = some (.array list)
        ∧ list[1]? = some (.bool true) := by
  obtain ⟨hpayload, hpatch⟩ := @keepsKinds_applyPatch shortResult shortList rfl rfl none
  refine ⟨rfl, rfl, ?_, rfl, rfl, ?_⟩
  · obtain ⟨root', hdata, hkinds⟩ := hpayload listMember
    obtain ⟨v, hv, hkind⟩ := hkinds.kept [] _ shortList rfl rfl rfl nofun
    obtain ⟨w, hw⟩ := hkinds.lists [.field "list"] (.field "tags") [] [.null] rfl rfl
      (by decide +kernel)
    cases hv
    cases hkind with
    | object _ ms => exact ⟨ms, w, hdata, hw⟩
  · obtain ⟨root', hdata, hkinds⟩ := hpatch rootItems [.index 1] rfl rfl
    obtain ⟨list, hlist, hitem⟩ := hkinds.objects _ (.bool true) [] rfl rfl (by decide)
    cases hlist
    exact ⟨list, hdata, hitem⟩

/-- The containers on the way of a payload do not all stay of their kind. The data of `listMember`
makes an object of a list, and items at the root make a list of a whole object. -/
theorem applyPayload_changes_kinds :
    (¬ ∀ (r : OperationResult) (root : Value) (p : IncrementalPayload) (response : Option Value),
        r.data = some root → root.isContainer = true → p.items = none →
        ∃ root', (r.applyPayload p response).1.data = some root' ∧ KeepsAllKinds p root root')
      ∧ ¬ ∀ (r : OperationResult) (root : Value) (p : IncrementalPayload) (response : Option Value),
        r.data = some root → root.isContainer = true → p.items.isSome = true →
        ∃ root', (r.applyPayload p response).1.data = some root' ∧ KeepsAllKinds p root root' := by
  have hupdate (p : IncrementalPayload) : (shortResult.applyPayload p none).1.data
      = some (update p.write p.site shortList) := data_applyPayload shortResult p none
  constructor
  · intro h
    obtain ⟨root', hdata, hkinds⟩ := h shortResult shortList listMember none rfl rfl rfl
    obtain rfl := Option.some.inj ((hupdate listMember).symm.trans hdata)
    obtain ⟨w, hw, hkind⟩ := hkinds [.field "list"] [.field "tags"] (.array [.null]) rfl rfl rfl
    obtain ⟨v, hv⟩ := (keepsKinds_update listMember shortList).lists [.field "list"]
      (.field "tags") [] [.null] rfl rfl (by decide +kernel)
    cases hw.symm.trans hv
    cases hkind
  · intro h
    obtain ⟨root', hdata, hkinds⟩ := h shortResult shortList (payloadAt [.index 1] rootItems) none
      rfl rfl rfl
    obtain rfl := Option.some.inj ((hupdate _).symm.trans hdata)
    obtain ⟨w, hw, hkind⟩ := hkinds [] [] shortList rfl rfl rfl
    obtain ⟨list, hlist, -⟩ := (keepsKinds_update (payloadAt [.index 1] rootItems)
      shortList).objects _ (.bool true) [] rfl rfl (by decide)
    cases hw.symm.trans hlist
    cases hkind

end OperationResult

end GraphqlClient.Result
