import GraphqlClient.Proofs.Result.Batches
import GraphqlClient.Proofs.Result.Stream

/-!
# Payloads at one site

Two walks along one path are one walk (`update_update`), whatever the first has created, replaced or
padded on its way. What payloads leave that go to one site in turn therefore hangs on nothing but
what their edits make of the value there.

Items that come in chunks leave what they leave together, and an object and then another what the
first leaves with the second set in it (`insertItems_mergeAt_chunks`). A patch that comes twice
leaves what it leaves once, but for its errors, which are reported again (`applyPatch_redelivered`).
-/

namespace GraphqlClient.Result

open Json Response

/-! ## Items in turn -/

/-- Behind a value that finds no place, no other value does. -/
theorem refused_of_le {index index' : Nat} {items : List Value}
    (h : ¬ (index < UInt64.size ∧ inReach items.length index = true)) (hle : index ≤ index') :
    ¬ (index' < UInt64.size ∧ inReach items.length index' = true) := by
  rintro ⟨hsize, hreach⟩
  have hlength := of_decide_eq_true hreach
  exact h ⟨by omega, decide_eq_true (by omega)⟩

/-- Values in two chunks, the second from where the first ends, are written like all of them. -/
theorem writeItems_writeItems (index : Nat) (vs ws items : List Value) :
    (writeItems (index + vs.length) ws (writeItems index vs items).1).1
      = (writeItems index (vs ++ ws) items).1 := by
  induction vs generalizing index items with
  | nil => rfl
  | cons v vs ih =>
    by_cases h : index < UInt64.size ∧ inReach items.length index = true
    · have hindex : index + (v :: vs).length = index + 1 + vs.length := by
        rw [List.length_cons]
        omega
      rw [List.cons_append, writeItems, if_pos h, hindex, ih, writeItems, if_pos h]
    · have hrest := refused_of_le h (Nat.le_add_right index (v :: vs).length)
      rw [writeItems_of_refused h, writeItems_of_refused h, writeItems_of_refused hrest]

/-- Writing leaves the items before its first index alone. -/
theorem getElem?_writeItems_of_lt {index i : Nat} {items : List Value} (hindex : i < index)
    (hlength : i < items.length) (vs : List Value) :
    (writeItems index vs items).1[i]? = items[i]? := by
  induction vs generalizing index items with
  | nil => rfl
  | cons v vs ih =>
    rw [writeItems]
    split
    · have hwritten : i < (writeItem index v items).length := by
        rw [length_writeItem]
        omega
      rw [ih (Nat.lt_succ_of_lt hindex) hwritten, getElem?_writeItem_of_lt v hlength (by omega)]
    · rfl

/-- Values that are written again change nothing. -/
theorem writeItems_writeItems_self (index : Nat) (vs items : List Value) :
    (writeItems index vs (writeItems index vs items).1).1 = (writeItems index vs items).1 := by
  induction vs generalizing index items with
  | nil => rfl
  | cons v vs ih =>
    by_cases h : index < UInt64.size ∧ inReach items.length index = true
    · -- the other values go behind the first, which is there to be written over when it comes again
      have hrest : writeItems index (v :: vs) items
          = writeItems (index + 1) vs (writeItem index v items) := by
        rw [writeItems, if_pos h]
      have hwritten : index < (writeItem index v items).length := by
        rw [length_writeItem]
        omega
      have hv : (writeItems index (v :: vs) items).1[index]? = some v := by
        rw [hrest, getElem?_writeItems_of_lt (Nat.lt_succ_self index) hwritten,
          getElem?_writeItem_self]
      obtain ⟨hlt, -⟩ := List.getElem?_eq_some_iff.1 hv
      rw [writeItems, if_pos ⟨h.1, decide_eq_true (by omega)⟩, writeItem_of_getElem? hv, hrest, ih]
    · rw [writeItems_of_refused h, writeItems_of_refused h]

/-! ## Data in turn -/

/-- An object, and then another, is overwritten by the first with the second set in it. -/
theorem mergeFields_object (v : Value) {ms : Members} (h : ms.keys.Nodup) (ns : Members) :
    mergeFields (asContainer (mergeFields (asContainer v) (some (.object ms)))) (some (.object ns))
      = mergeFields (asContainer v) (some (.object (ms.merge ns))) := by
  cases v with
  | array items => rfl
  | object old => exact congrArg Value.object (Members.merge_merge old h ns)
  | null | bool | number | string => exact congrArg Value.object (Members.merge_merge [] h ns)

theorem isContainer_mergeFields {target : Value} (h : target.isContainer = true)
    (data : Option Value) : (mergeFields target data).isContainer = true := by
  unfold mergeFields
  split
  · rfl
  · rfl
  · exact h

/-- A container that is overwritten again by the same data stays as it is. -/
theorem mergeFields_mergeFields_self (target : Value) (data : Option Value) :
    mergeFields (mergeFields target data) data = mergeFields target data := by
  rcases target with _ | _ | _ | _ | items | ms
  case array =>
    rcases data with _ | (_ | _ | _ | _ | patch | _)
    case some.array =>
      show Value.array (overwriteItems 0 patch (overwriteItems 0 patch items)) = .array _
      rw [overwriteItems_zero, overwriteItems_zero, List.drop_left]
    all_goals rfl
  case object =>
    rcases data with _ | (_ | _ | _ | _ | _ | patch)
    case some.object => exact congrArg Value.object (Members.merge_merge_self ms patch)
    all_goals rfl
  all_goals rfl

/-! ## Chunks -/

theorem startIndex_concat (parent : Path) {segment : PathSegment} {index : UInt64}
    (h : segment.asIndex = some index) : startIndex (parent ++ [segment]) = index.toNat := by
  rw [startIndex, List.getLast?_concat, Option.bind_some, h]

/-- It makes no difference how a delivery to one place is cut. Items in two chunks, the second from
the index on at which the first ends, leave what all of them leave from the first index on, whether
they are in reach or not and whatever the path leads to. Two objects for one path leave what the
first leaves with the members of the second set in it, in the same order. -/
theorem insertItems_mergeAt_chunks (root : Value) :
    (∀ (parent : Path) (first second : PathSegment) (i j : UInt64) (xs ys : List Value),
        first.asIndex = some i → second.asIndex = some j → j.toNat = i.toNat + xs.length →
        (insertItems (parent ++ [second]) ys (insertItems (parent ++ [first]) xs root).1).1
          = (insertItems (parent ++ [first]) (xs ++ ys) root).1)
      ∧ ∀ (path : Path) (ms ns : Members), ms.keys.Nodup →
        (mergeAt path (some (.object ns)) (mergeAt path (some (.object ms)) root).1).1
          = (mergeAt path (some (.object (ms.merge ns))) root).1 := by
  constructor
  · intro parent first second i j xs ys hfirst hsecond hindex
    have hstart := startIndex_concat parent hfirst
    have hnext := (startIndex_concat parent hsecond).trans hindex
    rw [insertItems_fst, insertItems_fst, insertItems_fst, List.dropLast_concat,
      List.dropLast_concat, update_update, hstart, hnext]
    congr 1
    funext v
    exact congrArg Value.array (writeItems_writeItems i.toNat xs ys (asItems v))
  · intro path ms ns hms
    rw [mergeAt_fst, mergeAt_fst, mergeAt_fst, update_update]
    congr 1
    funext v
    exact mergeFields_object v hms ns

/-- Two chunks from the last index in reach on, the second below a field name, and two objects that
share a key. -/
theorem insertItems_mergeAt_chunks_shortList :
    (PathSegment.index 1025).asIndex = some 1025 ∧ (PathSegment.field "1027").asIndex = some 1027
      ∧ (insertItems [.field "list", .field "1027"] [.bool false]
          (insertItems [.field "list", .index 1025] [.null, .bool true] shortList).1).1
        = (insertItems [.field "list", .index 1025] [.null, .bool true, .bool false] shortList).1
      ∧ (mergeAt [.field "owner"] (some (.object [("id", .bool true), ("name", .null)]))
          (mergeAt [.field "owner"] (some (.object [("name", .string "a"), ("tags", .array [])]))
            shortList).1).1
        = (mergeAt [.field "owner"]
            (some (.object [("name", .null), ("tags", .array []), ("id", .bool true)]))
            shortList).1 := by
  have hsecond : (PathSegment.field "1027").asIndex = some 1027 := by decide +kernel
  obtain ⟨hitems, hdata⟩ := insertItems_mergeAt_chunks shortList
  exact ⟨rfl, hsecond,
    hitems [.field "list"] (.index 1025) (.field "1027") 1025 1027 [.null, .bool true]
      [.bool false] rfl hsecond rfl,
    hdata [.field "owner"] [("name", .string "a"), ("tags", .array [])]
      [("id", .bool true), ("name", .null)] (by decide)⟩

end GraphqlClient.Result

namespace GraphqlClient.Response.IncrementalPayload

open Json Result

theorem isContainer_write (p : IncrementalPayload) (v : Value) :
    (p.write v).isContainer = true := by
  unfold write
  cases p.items with
  | some items => rfl
  | none => exact isContainer_mergeFields (OperationResult.isContainer_asContainer v) p.data

/-- A value at which a payload is written again stays as it is. -/
theorem write_write (p : IncrementalPayload) (v : Value) : p.write (p.write v) = p.write v := by
  have hcontainer := asContainer_of_isContainer (p.isContainer_write v)
  unfold write at hcontainer ⊢
  cases hitems : p.items with
  | some items =>
    exact congrArg Value.array (writeItems_writeItems_self (startIndex p.path) items (asItems v))
  | none =>
    rw [hitems] at hcontainer
    show mergeFields (asContainer (mergeFields (asContainer v) p.data)) p.data = _
    rw [hcontainer, mergeFields_mergeFields_self]

end GraphqlClient.Response.IncrementalPayload

namespace GraphqlClient.Result

open Json Response

namespace OperationResult

/-! ## Patches taken in twice -/

theorem isContainer_update_write (p : IncrementalPayload) (path : Path) {root : Value}
    (h : root.isContainer = true) : (update p.write path root).isContainer = true := by
  cases path with
  | nil => exact p.isContainer_write root
  | cons segment path => exact isContainer_update_cons _ _ _ h

/-- A patch with a path leaves the data of a walk, and else what it would leave at the end of a
batch. -/
theorem applyPatch_of_path {patch : ExecutionResult} {path : Path} (hpath : patch.path = some path)
    (hbatch : patch.incremental = none) (r : OperationResult) (response : Option Value) :
    (r.applyPatch patch response).1
      = { r.closeBatch patch response with
          data := some (update (payloadAt path patch).write (payloadAt path patch).site
            r.dataRoot) } := by
  calc (r.applyPatch patch response).1
      = ((r.withHasNext patch.hasNext).applyPayload (payloadAt path patch) response).1 := by
        simp only [applyPatch, hbatch, hpath]
        rfl
    _ = { ((r.withHasNext patch.hasNext).appendErrors patch.errors response).mergeExtensions
            patch.extensions with
          data := ((r.withHasNext patch.hasNext).applyPayload (payloadAt path patch)
            response).1.data } := rfl
    _ = _ := by
        rw [data_applyPayload, appendErrors_withHasNext, mergeExtensions_withHasNext,
          appendErrors_mergeExtensions]
        rfl

/-- The end of a batch that is taken in again adds its errors once more, and nothing else. -/
theorem closeBatch_closeBatch (r : OperationResult) (patch : ExecutionResult)
    (response : Option Value) :
    (r.closeBatch patch response).closeBatch patch response
      = { r.closeBatch patch response with
          error := (r.closeBatch patch response).error.map fun e =>
            { e with graphqlErrors := e.graphqlErrors ++ (errorsOf? patch.errors).getD [] } } := by
  unfold closeBatch
  cases errorsOf? patch.errors <;> cases extensionsOf? patch.extensions <;>
    simp [Members.merge_merge_self]

/-- The end of a batch adds its errors. -/
theorem graphqlErrors_closeBatch (r : OperationResult) (patch : ExecutionResult)
    (response : Option Value) :
    ((r.closeBatch patch response).error.map CombinedError.graphqlErrors).getD []
      = (r.error.map CombinedError.graphqlErrors).getD [] ++ (errorsOf? patch.errors).getD [] := by
  unfold closeBatch
  cases errorsOf? patch.errors <;> simp

/-- A patch with a path that is taken in twice leaves what it leaves once, the order of members
included, except that its errors are reported once more: everything else about the error, and every
other part of the result, is the same. -/
theorem applyPatch_redelivered (r : OperationResult) (patch : ExecutionResult)
    (hpath : patch.path.isSome = true) (hbatch : patch.incremental = none)
    (response : Option Value) :
    ((r.applyPatch patch response).1.applyPatch patch response).1
        = { (r.applyPatch patch response).1 with
            error := (r.applyPatch patch response).1.error.map fun e =>
              { e with graphqlErrors := e.graphqlErrors ++ (errorsOf? patch.errors).getD [] } }
      ∧ (((r.applyPatch patch response).1.applyPatch patch response).1.error.map
            CombinedError.graphqlErrors).getD []
        = ((r.applyPatch patch response).1.error.map CombinedError.graphqlErrors).getD []
          ++ (errorsOf? patch.errors).getD [] := by
  obtain ⟨path, hpath⟩ := Option.isSome_iff_exists.1 hpath
  have hpatch := applyPatch_of_path hpath hbatch
  generalize payloadAt path patch = p at hpatch
  constructor
  · have hroot : (update p.write p.site r.dataRoot).isContainer = true :=
      isContainer_update_write p p.site (isContainer_asContainer _)
    have hdata : update p.write p.site (asContainer (update p.write p.site r.dataRoot))
        = update p.write p.site r.dataRoot := by
      rw [asContainer_of_isContainer hroot, update_update]
      exact congrArg (update · p.site r.dataRoot) (funext p.write_write)
    rw [hpatch (r.applyPatch patch response).1, hpatch r]
    -- the second walk starts from what the first has left, a root whatever data there was before
    show { (r.closeBatch patch response).closeBatch patch response with
        data := some (update p.write p.site (asContainer (update p.write p.site r.dataRoot))) } = _
    rw [hdata, closeBatch_closeBatch]
  · rw [hpatch (r.applyPatch patch response).1]
    exact graphqlErrors_closeBatch _ patch response

/-- Items behind a null, with an error and extensions: the null has given way to an object when the
patch comes again. -/
def lateTags : ExecutionResult where
  path := some [.field "list", .field "1", .field "tags", .index 2]
  items := some [.bool true]
  errors := some (.array [.string "late"])
  extensions := some (.object [("cost", .null)])
  hasNext := true

theorem applyPatch_redelivered_lateTags :
    lateTags.path.isSome = true ∧ lateTags.incremental = none
      ∧ ((twoItems.applyPatch lateTags none).1.applyPatch lateTags none).1.data
        = (twoItems.applyPatch lateTags none).1.data
      ∧ (((twoItems.applyPatch lateTags none).1.applyPatch lateTags none).1.error.map
          CombinedError.graphqlErrors).getD [] = [.bare "late", .bare "late"] := by
  obtain ⟨htwice, herrors⟩ := applyPatch_redelivered twoItems lateTags rfl rfl none
  exact ⟨rfl, rfl, (congrArg data htwice).trans rfl, herrors⟩

end OperationResult

end GraphqlClient.Result
