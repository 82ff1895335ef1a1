import GraphqlClient.Proofs.Json.Nodes
import GraphqlClient.Proofs.Result.Commutation
import GraphqlClient.Proofs.Result.Run
import Mathlib.Algebra.GroupWithZero.Nat

/-!
# Payloads make data grow little

A payload may name any list indices, but the data grows by a bounded amount beside what the payload
brings (`growth_le`). The limit on padding is one for each list. That the whole walk pads one list
only is another matter: behind the first child that is missing, the walk meets nothing but objects
that it creates itself, so lists are padded before it at most once. A list that items are streamed
into may be padded once more.
-/

namespace GraphqlClient.Result

open Json Response

/-! ## Written items -/

theorem itemsNodes_writeItem_of_getElem? {index : Nat} {items : List Value} {w : Value}
    (h : items[index]? = some w) (v : Value) :
    itemsNodes (writeItem index v items) + w.nodes = itemsNodes items + v.nodes := by
  obtain ⟨hlt, -⟩ := List.getElem?_eq_some_iff.1 h
  rw [writeItem_of_lt v hlt]
  exact itemsNodes_set h v

/-- One of the nulls that pad a list gives way to the written item. -/
theorem itemsNodes_writeItem_of_le {index : Nat} {items : List Value} (h : items.length ≤ index)
    (v : Value) :
    itemsNodes (writeItem index v items) = itemsNodes items + (index - items.length) + v.nodes := by
  have hlast : (padTo index items)[index]? = some .null := by
    rw [padTo, List.getElem?_append_right h, List.getElem?_replicate, if_pos (by omega)]
  have hset := itemsNodes_set hlast v
  rw [padTo, itemsNodes_append, itemsNodes_replicate_null, nodes_null] at hset
  rw [writeItem, padTo]
  omega

theorem itemsNodes_writeItem_le (index : Nat) (v : Value) (items : List Value) :
    itemsNodes (writeItem index v items) ≤ itemsNodes items + (index - items.length) + v.nodes := by
  by_cases h : index < items.length
  · have hwrite := itemsNodes_writeItem_of_getElem? (List.getElem?_eq_getElem h) v
    omega
  · exact Nat.le_of_eq (itemsNodes_writeItem_of_le (Nat.le_of_not_lt h) v)

/-- Items are written without padding once the first of them is. -/
theorem itemsNodes_writeItems_le (index : Nat) (vs items : List Value) :
    itemsNodes (writeItems index vs items).1
      ≤ itemsNodes items + min (index - items.length) maxPadding + itemsNodes vs := by
  induction vs generalizing index items with
  | nil =>
    show itemsNodes items ≤ _
    omega
  | cons v vs ih =>
    rw [writeItems]
    split
    · rename_i hreach
      have hle : index ≤ items.length + maxPadding := of_decide_eq_true hreach.2
      have hrest := ih (index + 1) (writeItem index v items)
      have hfirst := itemsNodes_writeItem_le index v items
      rw [length_writeItem] at hrest
      rw [itemsNodes_cons]
      omega
    · show itemsNodes items ≤ _
      omega

theorem length_writeItems_le (index : Nat) (vs items : List Value) :
    (writeItems index vs items).1.length
      ≤ items.length + min (index - items.length) maxPadding + vs.length := by
  induction vs generalizing index items with
  | nil =>
    show items.length ≤ _
    omega
  | cons v vs ih =>
    rw [writeItems]
    split
    · rename_i hreach
      have hle : index ≤ items.length + maxPadding := of_decide_eq_true hreach.2
      have hrest := ih (index + 1) (writeItem index v items)
      rw [length_writeItem] at hrest
      rw [List.length_cons]
      omega
    · show items.length ≤ _
      omega

/-! ## One step -/

section

variable {segment : PathSegment} {parent w : Value}

/-- Setting a child that is there replaces it. -/
theorem nodes_setChild_of_some (h : child? segment parent = some w) (v : Value) :
    (setChild segment v parent).nodes + w.nodes = parent.nodes + v.nodes := by
  cases parent with
  | array items =>
    obtain ⟨index, hindex, hw⟩ := Option.bind_eq_some_iff.1 h
    have hwrite := itemsNodes_writeItem_of_getElem? hw v
    simp only [setChild, hindex, nodes_array]
    omega
  | object ms =>
    have hinsert := membersNodes_insert_of_lookup h v
    simp only [setChild, nodes_object]
    omega
  | null | bool | number | string => cases h

/-- Setting a child that is missing pads a list, adds a member, or puts an object in the place of
what can have no such child. -/
theorem nodes_setChild_of_none (h : child? segment parent = none)
    (hreach : isBeyond segment parent = false) (v : Value) :
    (setChild segment v parent).nodes ≤ parent.nodes + maxPadding + v.nodes := by
  have hnew : (Value.object [(segment.key, v)]).nodes ≤ parent.nodes + maxPadding + v.nodes := by
    have hpos := nodes_pos parent
    simp only [nodes_object, membersNodes_cons, membersNodes_nil]
    omega
  cases parent with
  | array items =>
    cases hindex : segment.asIndex with
    | none =>
      simp only [setChild, hindex]
      exact hnew
    | some index =>
      simp only [child?, hindex, Option.bind_some, List.getElem?_eq_none_iff] at h
      simp only [isBeyond, hindex, inReach, Bool.not_eq_false', decide_eq_true_eq] at hreach
      have hwrite := itemsNodes_writeItem_of_le h v
      simp only [setChild, hindex, nodes_array]
      omega
  | object ms =>
    have hinsert := membersNodes_insert_of_lookup_eq_none h v
    simp only [setChild, nodes_object]
    omega
  | null | bool | number | string => exact hnew

end

/-! ## Whole walks -/

section

variable {f : Value → Value} {growth : Nat}

theorem nodes_update_null (f : Value → Value) (path : Path) :
    (update f path .null).nodes = path.length + (f .null).nodes := by
  induction path with
  | nil =>
    show (f .null).nodes = 0 + (f .null).nodes
    omega
  | cons segment path ih =>
    rw [update_cons_null, nodes_object, membersNodes_cons, membersNodes_nil, ih, List.length_cons]
    omega

/-- A walk pads by the limit at most, whatever lists it comes through. -/
theorem nodes_update_le (hf : ∀ v, (f v).nodes ≤ v.nodes + growth) (path : Path) (root : Value) :
    (update f path root).nodes ≤ root.nodes + maxPadding + path.length + growth := by
  induction path generalizing root with
  | nil =>
    have hroot := hf root
    show (f root).nodes ≤ root.nodes + maxPadding + 0 + growth
    omega
  | cons segment path ih =>
    rw [List.length_cons]
    obtain ⟨-, heq⟩ | ⟨w, hchild, -, heq⟩ | ⟨hchild, hreach, heq⟩ :=
      update_cons_cases f segment path root
    · rw [heq]
      omega
    · have hset := nodes_setChild_of_some hchild (update f path w)
      have hrest := ih w
      rw [heq]
      omega
    · -- nothing is below: what is padded here is all that is padded
      have hset := nodes_setChild_of_none hchild hreach (update f path .null)
      have hnull := hf .null
      rw [nodes_null] at hnull
      rw [nodes_update_null] at hset
      rw [heq]
      omega

end

/-! ## Lists on the way -/

/-- How long a value is as a list; what is no list has length zero. -/
def listLength : Option Value → Nat
  | some (.array items) => items.length
  | _ => 0

/-- A list that the way along a path comes through, before its end, is longer afterwards. -/
def Padded (path c : Path) (before after : Option Value) : Prop :=
  (∃ segment rest, path = c ++ segment :: rest)
    ∧ listLength (before.bind (valueAt? c)) < listLength (after.bind (valueAt? c))

section

variable {f : Value → Value} {segment : PathSegment} {root w : Value}

theorem listLength_setChild_of_some (h : child? segment root = some w) (v : Value) :
    listLength (some (setChild segment v root)) = listLength (some root) := by
  cases root with
  | array items =>
    obtain ⟨index, hindex, hw⟩ := Option.bind_eq_some_iff.1 h
    obtain ⟨hlt, -⟩ := List.getElem?_eq_some_iff.1 hw
    simp only [setChild, hindex, listLength, writeItem_of_lt v hlt, List.length_set]
  | object ms => rfl
  | null | bool | number | string => cases h

theorem listLength_setChild_le (hreach : isBeyond segment root = false) (v : Value) :
    listLength (some (setChild segment v root)) ≤ listLength (some root) + (maxPadding + 1) := by
  cases root with
  | array items =>
    cases hindex : segment.asIndex with
    | none =>
      simp only [setChild, hindex, listLength]
      omega
    | some index =>
      simp only [isBeyond, hindex, inReach, Bool.not_eq_false', decide_eq_true_eq] at hreach
      simp only [setChild, hindex, listLength, length_writeItem]
      omega
  | object ms => exact Nat.zero_le _
  | null | bool | number | string => exact Nat.zero_le _

/-- On its way from a missing value a walk comes through objects only. -/
theorem valueAt?_update_null (f : Value → Value) (c : Path) (segment : PathSegment) (rest : Path) :
    valueAt? c (update f (c ++ segment :: rest) .null)
      = some (.object [(segment.key, update f rest .null)]) := by
  induction c with
  | nil => rw [List.nil_append, update_cons_null, valueAt?]
  | cons s c ih =>
    rw [List.cons_append, update_cons_null, valueAt?]
    simp [child?, ih]

/-- A walk pads the list it is at when the child is missing, and otherwise lists below the child. -/
theorem padded_cons {path c : Path}
    (h : Padded (segment :: path) c (some root) (some (update f (segment :: path) root))) :
    c = [] ∧ child? segment root = none
      ∨ ∃ w c', c = segment :: c' ∧ child? segment root = some w
        ∧ Padded path c' (some w) (some (update f path w)) := by
  obtain ⟨⟨s, rest, hpath⟩, hlength⟩ := h
  rw [Option.bind_some, Option.bind_some] at hlength
  obtain ⟨-, heq⟩ | ⟨w, hchild, -, heq⟩ | ⟨hchild, -, heq⟩ := update_cons_cases f segment path root
  · rw [heq] at hlength
    exact absurd hlength (Nat.lt_irrefl _)
  · rw [heq] at hlength
    cases c with
    | nil =>
      rw [valueAt?, valueAt?, listLength_setChild_of_some hchild] at hlength
      exact absurd hlength (Nat.lt_irrefl _)
    | cons t c =>
      rw [List.cons_append] at hpath
      obtain ⟨rfl, rfl⟩ := List.cons.inj hpath
      rw [valueAt?_setChild, valueAt?_cons hchild] at hlength
      exact .inr ⟨w, c, rfl, hchild, ⟨s, rest, rfl⟩, hlength⟩
  · rw [heq] at hlength
    cases c with
    | nil => exact .inl ⟨rfl, hchild⟩
    | cons t c =>
      rw [List.cons_append] at hpath
      obtain ⟨rfl, rfl⟩ := List.cons.inj hpath
      rw [valueAt?_setChild, valueAt?_update_null] at hlength
      exact absurd hlength (Nat.not_lt_zero _)

/-- A walk pads one list at most on its way. -/
theorem padded_unique {path c c' : Path}
    (h : Padded path c (some root) (some (update f path root)))
    (h' : Padded path c' (some root) (some (update f path root))) : c = c' := by
  induction path generalizing root c c' with
  | nil =>
    obtain ⟨⟨s, rest, hpath⟩, -⟩ := h
    cases c <;> cases hpath
  | cons segment path ih =>
    obtain ⟨rfl, hnone⟩ | ⟨w, d, rfl, hw, hd⟩ := padded_cons h
    · obtain ⟨rfl, -⟩ | ⟨w', d', rfl, hw', -⟩ := padded_cons h'
      · rfl
      · rw [hnone] at hw'
        cases hw'
    · obtain ⟨rfl, hnone⟩ | ⟨w', d', rfl, hw', hd'⟩ := padded_cons h'
      · rw [hw] at hnone
        cases hnone
      · obtain rfl : w = w' := Option.some.inj (hw.symm.trans hw')
        rw [ih hd hd']

/-- A list that is padded on the way is padded by the limit at most. -/
theorem listLength_le_of_padded {path c : Path}
    (h : Padded path c (some root) (some (update f path root))) :
    listLength (valueAt? c (update f path root))
      ≤ listLength (valueAt? c root) + (maxPadding + 1) := by
  induction path generalizing root c with
  | nil =>
    obtain ⟨⟨s, rest, hpath⟩, -⟩ := h
    cases c <;> cases hpath
  | cons segment path ih =>
    obtain ⟨-, heq⟩ | ⟨w, hchild, hreach, heq⟩ | ⟨hchild, hreach, heq⟩ :=
      update_cons_cases f segment path root
    · rw [heq]
      omega
    · obtain ⟨rfl, hnone⟩ | ⟨w', d, rfl, hw', hd⟩ := padded_cons h
      · rw [hchild] at hnone
        cases hnone
      · rw [heq, valueAt?_setChild, valueAt?_cons hw']
        obtain rfl : w = w' := Option.some.inj (hchild.symm.trans hw')
        exact ih hd
    · obtain ⟨rfl, -⟩ | ⟨w', d, rfl, hw', -⟩ := padded_cons h
      · rw [heq]
        exact listLength_setChild_le hreach _
      · rw [hchild] at hw'
        cases hw'

/-- A list at which the walk ends grows by what the edit there lets it grow. -/
theorem listLength_update_le {growth : Nat}
    (hf : ∀ v, listLength (some (f v)) ≤ listLength (some v) + growth) (path : Path)
    (root : Value) :
    listLength (valueAt? path (update f path root)) ≤ listLength (valueAt? path root) + growth := by
  induction path generalizing root with
  | nil => exact hf root
  | cons segment path ih =>
    obtain ⟨-, heq⟩ | ⟨w, hchild, -, heq⟩ | ⟨hchild, -, heq⟩ :=
      update_cons_cases f segment path root
    · rw [heq]
      omega
    · rw [heq, valueAt?_setChild, valueAt?_cons hchild]
      exact ih w
    · have hrest := ih .null
      have hnull : listLength (valueAt? path .null) = 0 := by
        cases path <;> rfl
      rw [heq, valueAt?_setChild]
      omega

end

/-! ## Payloads -/

theorem nodes_asContainer_le (v : Value) : (asContainer v).nodes ≤ v.nodes := by
  unfold asContainer
  split
  · exact Nat.le_refl _
  · exact nodes_pos v

theorem nodes_asItems_le (v : Value) : 1 + itemsNodes (asItems v) ≤ v.nodes := by
  cases v with
  | array items => exact Nat.le_of_eq (nodes_array items).symm
  | _ => exact nodes_pos _

theorem nodes_mergeFields_le (target : Value) (data : Option Value) :
    (mergeFields target data).nodes ≤ target.nodes + optionNodes data := by
  unfold mergeFields
  split
  · rename_i ms patch
    have hmerge := membersNodes_merge_le ms patch
    simp only [nodes_object, optionNodes_some]
    omega
  · rename_i items patch
    have hsplit := itemsNodes_append (items.take patch.length) (items.drop patch.length)
    rw [List.take_append_drop] at hsplit
    simp only [nodes_array, optionNodes_some, overwriteItems_zero, itemsNodes_append]
    omega
  · exact Nat.le_add_right _ _

theorem length_asItems (v : Value) : (asItems v).length = listLength (some v) := by
  cases v <;> rfl

theorem listLength_mergeFields_le (v : Value) (data : Option Value) :
    listLength (some (mergeFields (asContainer v) data))
      ≤ listLength (some v) + listLength data := by
  have hcontainer : listLength (some (asContainer v)) ≤ listLength (some v) := by
    cases v with
    | array items => exact Nat.le_refl _
    | _ => exact Nat.zero_le _
  unfold mergeFields
  split
  · exact Nat.zero_le _
  · rename_i items patch hitems
    rw [hitems] at hcontainer
    simp only [listLength, overwriteItems_zero, List.length_append, List.length_drop]
      at hcontainer ⊢
    omega
  · omega

end GraphqlClient.Result

namespace GraphqlClient.Response

open Json Result

namespace IncrementalPayload

/-- How many values the payload brings: its items, or else its data. -/
def nodes (p : IncrementalPayload) : Nat :=
  match p.items with
  | some items => itemsNodes items
  | none => optionNodes p.data

/-- By how much the payload may make data grow. -/
def allowance (p : IncrementalPayload) : Nat := 2 * (maxPadding + 1) + p.path.length + p.nodes

theorem nodes_write_le (p : IncrementalPayload) (v : Value) :
    (p.write v).nodes ≤ v.nodes + (maxPadding + p.nodes) := by
  unfold write nodes
  cases p.items with
  | some items =>
    have hwrite := itemsNodes_writeItems_le (startIndex p.path) items (asItems v)
    have hitems := nodes_asItems_le v
    simp only [nodes_array]
    omega
  | none =>
    have hmerge := nodes_mergeFields_le (asContainer v) p.data
    have hcontainer := nodes_asContainer_le v
    show (mergeFields (asContainer v) p.data).nodes ≤ v.nodes + (maxPadding + optionNodes p.data)
    omega

/-- By how much the payload may make the list at its site grow: padded by the limit and with the
items behind, or by the items of data that is a list. -/
def listAllowance (p : IncrementalPayload) : Nat :=
  match p.items with
  | some items => maxPadding + items.length
  | none => listLength p.data

theorem listLength_write_le (p : IncrementalPayload) (v : Value) :
    listLength (some (p.write v)) ≤ listLength (some v) + p.listAllowance := by
  unfold write listAllowance
  cases p.items with
  | some items =>
    have hwrite := length_writeItems_le (startIndex p.path) items (asItems v)
    rw [length_asItems] at hwrite
    show (writeItems (startIndex p.path) items (asItems v)).1.length
      ≤ listLength (some v) + (maxPadding + items.length)
    omega
  | none => exact listLength_mergeFields_le v p.data

theorem length_site_le (p : IncrementalPayload) : p.site.length ≤ p.path.length := by
  unfold site
  cases p.items with
  | some items => exact (List.dropLast_sublist p.path).length_le
  | none => exact Nat.le_refl _

end IncrementalPayload

/-- By how much a patch may make data grow: by what its payloads may, or by the data it sets. -/
def ExecutionResult.allowance (patch : ExecutionResult) : Nat :=
  match patch.incremental, patch.path with
  | some batch, _ => (batch.map IncrementalPayload.allowance).sum
  | none, some path => (OperationResult.payloadAt path patch).allowance
  | none, none => optionNodes patch.data

end GraphqlClient.Response

namespace GraphqlClient.Result

open Json Response

namespace OperationResult

theorem nodes_dataRoot_le (r : OperationResult) : r.dataRoot.nodes ≤ optionNodes r.data + 1 := by
  unfold dataRoot
  cases r.data with
  | none => exact Nat.le_refl _
  | some v => exact Nat.le_succ_of_le (nodes_asContainer_le v)

/-- One payload makes the data grow by its allowance at most. -/
theorem optionNodes_applyPayload_le (r : OperationResult) (p : IncrementalPayload)
    (response : Option Value) :
    optionNodes (r.applyPayload p response).1.data ≤ optionNodes r.data + p.allowance := by
  have hwalk := nodes_update_le p.nodes_write_le p.site r.dataRoot
  have hroot := r.nodes_dataRoot_le
  have hsite := p.length_site_le
  rw [data_applyPayload, optionNodes_some, IncrementalPayload.allowance]
  omega

theorem optionNodes_applyPayloads_le (r : OperationResult) (ps : List IncrementalPayload)
    (response : Option Value) :
    optionNodes (applyPayloads response r ps).1.data
      ≤ optionNodes r.data + (ps.map IncrementalPayload.allowance).sum := by
  induction ps generalizing r with
  | nil => exact Nat.le_refl _
  | cons p ps ih =>
    have hfirst := r.optionNodes_applyPayload_le p response
    have hrest := ih (r.applyPayload p response).1
    rw [List.map_cons, List.sum_cons]
    show optionNodes (applyPayloads response (r.applyPayload p response).1 ps).1.data ≤ _
    omega

theorem optionNodes_applyPatch_le (r : OperationResult) (patch : ExecutionResult)
    (response : Option Value) :
    optionNodes (r.applyPatch patch response).1.data ≤ optionNodes r.data + patch.allowance := by
  cases hincremental : patch.incremental with
  | some batch =>
    simp only [applyPatch, ExecutionResult.allowance, hincremental, data_mergeExtensions,
      data_appendErrors]
    exact optionNodes_applyPayloads_le { r with hasNext := patch.hasNext } batch response
  | none =>
    cases hpath : patch.path with
    | some path =>
      simp only [applyPatch, ExecutionResult.allowance, hincremental, hpath]
      exact optionNodes_applyPayload_le { r with hasNext := patch.hasNext } _ response
    | none =>
      simp only [applyPatch, ExecutionResult.allowance, hincremental, hpath]
      cases patch.data with
      | some data => exact Nat.le_add_left _ _
      | none => exact Nat.le_add_right _ _

theorem optionNodes_applyPatches_le (r : OperationResult) (patches : List Arrival) :
    optionNodes (r.applyPatches patches).data
      ≤ optionNodes r.data + (patches.map fun d => d.1.allowance).sum := by
  induction patches generalizing r with
  | nil => exact Nat.le_refl _
  | cons d patches ih =>
    have hfirst := r.optionNodes_applyPatch_le d.1 d.2
    have hrest := ih (r.applyPatch d.1 d.2).1
    rw [List.map_cons, List.sum_cons]
    show optionNodes ((r.applyPatch d.1 d.2).1.applyPatches patches).data ≤ _
    omega

/-- The object that stands in for missing or scalar data holds no lists. -/
theorem listLength_dataRoot (r : OperationResult) (c : Path) :
    listLength (valueAt? c r.dataRoot) = listLength (r.data.bind (valueAt? c)) := by
  have hempty : listLength (valueAt? c (.object [])) = 0 := by
    cases c <;> rfl
  unfold dataRoot
  cases r.data with
  | none => exact hempty
  | some v =>
    cases v with
    | array items => rfl
    | object ms => rfl
    | null | bool | number | string =>
      refine hempty.trans ?_
      cases c <;> rfl

/-- Lists on the way to the site of a payload, and the one at the site. -/
theorem listLength_applyPayload (r : OperationResult) (p : IncrementalPayload)
    (response : Option Value) :
    (∀ c, Padded p.site c r.data (r.applyPayload p response).1.data →
        (∀ c', Padded p.site c' r.data (r.applyPayload p response).1.data → c = c')
          ∧ listLength ((r.applyPayload p response).1.data.bind (valueAt? c))
            ≤ listLength (r.data.bind (valueAt? c)) + (maxPadding + 1))
      ∧ listLength ((r.applyPayload p response).1.data.bind (valueAt? p.site))
        ≤ listLength (r.data.bind (valueAt? p.site)) + p.listAllowance := by
  have hpadded (c : Path) : Padded p.site c r.data (r.applyPayload p response).1.data →
      Padded p.site c (some r.dataRoot) (some (update p.write p.site r.dataRoot)) := by
    rintro ⟨hway, hlength⟩
    rw [data_applyPayload, ← listLength_dataRoot] at hlength
    exact ⟨hway, hlength⟩
  constructor
  · intro c hc
    refine ⟨fun c' hc' => padded_unique (hpadded c hc) (hpadded c' hc'), ?_⟩
    rw [data_applyPayload, ← listLength_dataRoot]
    exact listLength_le_of_padded (hpadded c hc)
  · rw [data_applyPayload, ← listLength_dataRoot]
    exact listLength_update_le p.listLength_write_le p.site r.dataRoot

/-- For every result and every payload, and every run of patches: the data grows by the allowances
of the payloads at most. No path, whatever indices are in it, pads more than one list on its way,
and that one by the limit; the list at its end is padded only if items are streamed into it. -/
theorem growth_le (r : OperationResult) :
    (∀ p response, optionNodes (r.applyPayload p response).1.data
        ≤ optionNodes r.data + (2 * (maxPadding + 1) + p.path.length + p.nodes))
      ∧ (∀ patches, optionNodes (r.applyPatches patches).data
        ≤ optionNodes r.data + (patches.map fun d => d.1.allowance).sum)
      ∧ ∀ p response,
        (∀ c, Padded p.site c r.data (r.applyPayload p response).1.data →
            (∀ c', Padded p.site c' r.data (r.applyPayload p response).1.data → c = c')
              ∧ listLength ((r.applyPayload p response).1.data.bind (valueAt? c))
                ≤ listLength (r.data.bind (valueAt? c)) + (maxPadding + 1))
          ∧ listLength ((r.applyPayload p response).1.data.bind (valueAt? p.site))
            ≤ listLength (r.data.bind (valueAt? p.site)) + p.listAllowance :=
  ⟨r.optionNodes_applyPayload_le, r.optionNodes_applyPatches_le, r.listLength_applyPayload⟩

/-- Items below an index as far as a list may be padded, and below another index. -/
def farTags : IncrementalPayload where
  path := [.field "list", .index 1026, .index 1024, .index 3]
  items := some [.bool true, .bool false]

theorem growth_farTags :
    Padded farTags.site [.field "list"] twoItems.data (twoItems.applyPayload farTags none).1.data
      ∧ (∀ c, Padded farTags.site c twoItems.data (twoItems.applyPayload farTags none).1.data →
        [.field "list"] = c)
      ∧ listLength ((twoItems.applyPayload farTags none).1.data.bind (valueAt? [.field "list"]))
        = 1027
      ∧ listLength ((twoItems.applyPayload farTags none).1.data.bind (valueAt? farTags.site)) = 5
      ∧ optionNodes (twoItems.applyPatches [(farTags.asPatch true, none), ({}, none)]).data
        ≤ 5 + 2050 + 4 + 2 := by
  have hpadded : Padded farTags.site [.field "list"] twoItems.data
      (twoItems.applyPayload farTags none).1.data :=
    ⟨⟨.index 1026, [.index 1024], rfl⟩, by decide +kernel⟩
  obtain ⟨-, hrun, hlists⟩ := growth_le twoItems
  have hnodes := hrun [(farTags.asPatch true, none), ({}, none)]
  have hallowance : optionNodes twoItems.data = 5
      ∧ ([(farTags.asPatch true, (none : Option Value)), ({}, none)].map
        fun d => d.1.allowance).sum = 2050 + 4 + 2 := by decide +kernel
  rw [hallowance.1, hallowance.2] at hnodes
  have hunique := ((hlists farTags none).1 _ hpadded).1
  exact ⟨hpadded, hunique, by decide +kernel, by decide +kernel, hnodes⟩

end OperationResult

end GraphqlClient.Result
