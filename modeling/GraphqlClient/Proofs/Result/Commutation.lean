import GraphqlClient.Proofs.Result.Walk
import GraphqlClient.Result.Basic

/-!
# Payloads with separate sites commute

The site of a payload is the place it writes to: its path, or for list items its path without the
index of the first one. When the sites of two payloads part at some value of the data, the payloads
can be taken in in either order (`sameOption_data_applyPatch_comm`): what one creates, replaces,
pads or leaves alone is not seen by the other. Only the order in which an object gets new members
may differ.

The induction runs along the common part of the sites. Below it the two walks meet different
children of one value, where reading and setting commute (`setChild_comm`).
-/

namespace GraphqlClient.Response.IncrementalPayload

open Json Result

/-- Where the payload writes. -/
def site (p : IncrementalPayload) : Path :=
  match p.items with
  | some _ => p.path.dropLast
  | none => p.path

/-- What the payload makes of the value at its site. -/
def write (p : IncrementalPayload) (target : Value) : Value :=
  match p.items with
  | some items => .array (writeItems (startIndex p.path) items (asItems target)).1
  | none => mergeFields (asContainer target) p.data

/-- The payload as a patch of its own. -/
def asPatch (p : IncrementalPayload) (hasNext : Bool) : ExecutionResult :=
  { data := p.data, errors := p.errors, extensions := p.extensions, hasNext,
    path := some p.path, items := p.items }

/-- No object in the data or the items of the payload repeats a key. -/
def Distinct (p : IncrementalPayload) : Prop :=
  (∀ v ∈ p.data, v.Distinct) ∧ ∀ vs ∈ p.items, ∀ v ∈ vs, v.Distinct

end GraphqlClient.Response.IncrementalPayload

namespace GraphqlClient.Result

open Json Response

/-! ## The data that a payload leaves -/

theorem distinct_writeItems {vs : List Value} (hvs : ∀ v ∈ vs, v.Distinct) (index : Nat)
    {items : List Value} (h : ∀ v ∈ items, v.Distinct) :
    ∀ w ∈ (writeItems index vs items).1, w.Distinct := by
  induction vs generalizing index items with
  | nil => exact h
  | cons v vs ih =>
    obtain ⟨hv, hvs⟩ := List.forall_mem_cons.1 hvs
    rw [writeItems]
    split
    · exact ih hvs (index + 1) (distinct_writeItem h index hv)
    · exact h

theorem distinct_asContainer {v : Value} (h : v.Distinct) : (asContainer v).Distinct := by
  unfold asContainer
  split
  · exact h
  · exact distinct_object.2 ⟨List.nodup_nil, by simp⟩

theorem distinct_mergeFields {target : Value} (h : target.Distinct) {data : Option Value}
    (hd : ∀ v ∈ data, v.Distinct) : (mergeFields target data).Distinct := by
  unfold mergeFields
  split
  · exact h.merge (distinct_object.1 (hd _ rfl)).2
  · rw [overwriteItems_zero]
    refine distinct_array.2 (List.forall_mem_append.2 ⟨distinct_array.1 (hd _ rfl), ?_⟩)
    intro v hv
    exact distinct_array.1 h v (List.mem_of_mem_drop hv)
  · exact h

/-- A payload of distinct keys keeps them distinct at its site. -/
theorem distinct_write {p : IncrementalPayload} (hp : p.Distinct) {target : Value}
    (h : target.Distinct) : (p.write target).Distinct := by
  unfold IncrementalPayload.write
  cases hi : p.items with
  | none => exact distinct_mergeFields (distinct_asContainer h) hp.1
  | some items =>
    refine distinct_array.2 (distinct_writeItems (hp.2 items hi) _ ?_)
    cases target with
    | array vs => exact distinct_array.1 h
    | _ => simp [asItems]

namespace OperationResult

@[simp] theorem data_appendErrors (r : OperationResult) (errors response : Option Value) :
    (r.appendErrors errors response).data = r.data := by
  unfold appendErrors
  split <;> rfl

@[simp] theorem data_mergeExtensions (r : OperationResult) (extensions : Option Value) :
    (r.mergeExtensions extensions).data = r.data := by
  unfold mergeExtensions
  split <;> rfl

/-- The data that a payload leaves: that of a walk to its site. -/
theorem data_applyPayload (r : OperationResult) (p : IncrementalPayload)
    (response : Option Value) :
    (r.applyPayload p response).1.data = some (update p.write p.site r.dataRoot) := by
  have hroot : ((r.appendErrors p.errors response).mergeExtensions p.extensions).dataRoot
      = r.dataRoot := by
    rw [dataRoot, data_mergeExtensions, data_appendErrors, dataRoot]
  unfold applyPayload
  simp only [hroot]
  cases hi : p.items with
  | none =>
    have hwrite : p.write = fun v => mergeFields (asContainer v) p.data := by
      funext v
      simp [IncrementalPayload.write, hi]
    simp only [mergeAt_fst, IncrementalPayload.site, hi, hwrite]
  | some items =>
    have hwrite : p.write
        = fun v => .array (writeItems (startIndex p.path) items (asItems v)).1 := by
      funext v
      simp [IncrementalPayload.write, hi]
    simp only [insertItems_fst, IncrementalPayload.site, hi, hwrite]

theorem data_applyPatch_asPatch (r : OperationResult) (p : IncrementalPayload) (hasNext : Bool)
    (response : Option Value) :
    (r.applyPatch (p.asPatch hasNext) response).1.data
      = some (update p.write p.site r.dataRoot) :=
  data_applyPayload { r with hasNext } p response

end OperationResult

/-! ## Segments that part -/

/-- Whether two segments lead to different children of a value: to different items that are there if
it is a list, and under different keys if it is anything else or missing. -/
def Parted (s t : PathSegment) : Option Value → Prop
  | some (.array items) => ∃ i j, s.asIndex = some i ∧ t.asIndex = some j ∧
      i.toNat < items.length ∧ j.toNat < items.length ∧ i ≠ j
  | _ => s.key ≠ t.key

section

variable {s t : PathSegment} {parent : Value}

theorem Parted.symm {v : Option Value} (h : Parted s t v) : Parted t s v := by
  unfold Parted at *
  split at h
  · obtain ⟨i, j, hs, ht, hi, hj, hne⟩ := h
    exact ⟨j, i, ht, hs, hj, hi, hne.symm⟩
  · exact h.symm

/-- Where the walk meets nothing, segments that part below it have different keys. -/
theorem Parted.childOrNull {segment : PathSegment} {path : Path}
    (h : Parted s t (valueAt? (segment :: path) parent)) :
    Parted s t (valueAt? path (childOrNull segment parent)) := by
  rw [valueAt?] at h
  unfold Result.childOrNull
  cases hc : child? segment parent with
  | some v => rwa [hc] at h
  | none =>
    rw [hc, Option.bind_none] at h
    cases path with
    | nil => exact h
    | cons segment path => exact h

theorem Parted.not_isBeyond (h : Parted s t (some parent)) : isBeyond s parent = false := by
  cases parent with
  | array items =>
    obtain ⟨i, -, hs, -, hi, -⟩ := h
    simp only [isBeyond, hs, inReach, Bool.not_eq_false', decide_eq_true_eq]
    omega
  | _ => rfl

/-- Setting a child leaves a parted one as it was. -/
theorem Parted.childOrNull_setChild (h : Parted s t (some parent)) (v : Value) :
    Result.childOrNull t (setChild s v parent) = Result.childOrNull t parent := by
  unfold Result.childOrNull
  cases parent with
  | array items =>
    obtain ⟨i, j, hs, ht, hi, hj, hne⟩ := h
    simp only [setChild, hs, child?, ht, Option.bind_some]
    rw [getElem?_writeItem_of_lt v hj (mt UInt64.toNat_inj.1 hne.symm)]
  | object ms => simp [setChild, child?, Members.lookup_insert, Ne.symm h]
  | null | bool | number | string =>
    simp [setChild, child?, List.lookup_cons, beq_eq_false_iff_ne.2 (Ne.symm h)]

theorem Parted.not_isBeyond_setChild (h : Parted s t (some parent)) (v : Value) :
    isBeyond t (setChild s v parent) = false := by
  cases parent with
  | array items =>
    obtain ⟨i, j, hs, ht, hi, hj, hne⟩ := h
    simp only [setChild, hs, isBeyond, ht, inReach, length_writeItem, Bool.not_eq_false',
      decide_eq_true_eq]
    omega
  | _ => simp [setChild, isBeyond]

/-- Parted children can be set in either order. -/
theorem setChild_comm (h : Parted s t (some parent)) (v w : Value) :
    (setChild t w (setChild s v parent)).Reordered (setChild s v (setChild t w parent)) := by
  cases parent with
  | array items =>
    obtain ⟨i, j, hs, ht, hi, hj, hne⟩ := h
    simp only [setChild, hs, ht]
    rw [writeItem_of_lt v hi, writeItem_of_lt w hj, writeItem_of_lt w (by simpa using hj),
      writeItem_of_lt v (by simpa using hi), List.set_comm v w (mt UInt64.toNat_inj.1 hne)]
    exact .refl _
  | object ms => exact .of_perm (Members.insert_comm_perm h v w ms)
  | null | bool | number | string => exact .of_perm (Members.insert_comm_perm h v w [])

end

/-! ## Walks that part -/

theorem reordered_setChild (segment : PathSegment) {v w : Value} (h : v.Reordered w)
    (parent : Value) : (setChild segment v parent).Reordered (setChild segment w parent) := by
  unfold setChild
  split
  · exact .set _ h _
  · exact .insert _ h _
  · exact .insert _ h []

/-- Edits at the ends of two paths that part can be made in either order. -/
theorem update_comm {s t : PathSegment} (f g : Value → Value) (c p q : Path) {root : Value}
    (h : Parted s t (valueAt? c root)) :
    (update g (c ++ t :: q) (update f (c ++ s :: p) root)).Reordered
      (update f (c ++ s :: p) (update g (c ++ t :: q) root)) := by
  induction c generalizing root with
  | nil =>
    have hs := h.not_isBeyond
    have ht := h.symm.not_isBeyond
    simp only [List.nil_append, update_cons, hs, ht, h.not_isBeyond_setChild,
      h.symm.not_isBeyond_setChild, h.childOrNull_setChild, h.symm.childOrNull_setChild,
      Bool.false_eq_true, if_false]
    exact setChild_comm h _ _
  | cons segment c ih =>
    simp only [List.cons_append, update_cons]
    by_cases hb : isBeyond segment root = true
    · -- neither walk gets further than this step
      simp only [hb, if_true]
      exact .refl root
    · simp only [hb, isBeyond_setChild, childOrNull_setChild_self, setChild_setChild_self,
        Bool.false_eq_true, if_false]
      exact reordered_setChild segment (ih h.childOrNull) root

theorem asContainer_of_isContainer {v : Value} (h : v.isContainer = true) : asContainer v = v :=
  if_pos h

namespace OperationResult

theorem parted_dataRoot {r : OperationResult} {s t : PathSegment} {c : Path}
    (h : Parted s t (r.data.bind (valueAt? c))) : Parted s t (valueAt? c r.dataRoot) := by
  -- an object that stands in for missing or scalar data has no children
  have hempty (hk : s.key ≠ t.key) : Parted s t (valueAt? c (.object [])) := by
    cases c with
    | nil => exact hk
    | cons segment c => exact hk
  unfold dataRoot
  cases hd : r.data with
  | none =>
    rw [hd] at h
    exact hempty h
  | some v =>
    rw [hd, Option.bind_some] at h
    cases v with
    | array items => exact h
    | object ms => exact h
    | null | bool | number | string =>
      refine hempty ?_
      cases c with
      | nil => exact h
      | cons segment c => exact h

theorem isContainer_asContainer (v : Value) : (asContainer v).isContainer = true := by
  unfold asContainer
  split
  · assumption
  · rfl

theorem dataRoot_of_data {r : OperationResult} {root : Value} (hdata : r.data = some root)
    (h : root.isContainer = true) : r.dataRoot = root := by
  rw [dataRoot, hdata, Option.getD_some, asContainer_of_isContainer h]

theorem distinct_dataRoot {r : OperationResult} (h : ∀ v ∈ r.data, v.Distinct) :
    r.dataRoot.Distinct := by
  unfold dataRoot
  cases hd : r.data with
  | none => exact distinct_object.2 ⟨List.nodup_nil, by simp⟩
  | some v => exact distinct_asContainer (h v hd)

/-- After a payload with a site below the root the data is a root for the next one. -/
theorem dataRoot_applyPatch_asPatch {r : OperationResult} {p : IncrementalPayload}
    {segment : PathSegment} {c path : Path} (hsite : p.site = c ++ segment :: path)
    (hasNext : Bool) (response : Option Value) :
    (r.applyPatch (p.asPatch hasNext) response).1.dataRoot
      = update p.write p.site r.dataRoot := by
  have hroot := isContainer_asContainer (r.data.getD (.object []))
  have hc : (update p.write p.site r.dataRoot).isContainer = true := by
    rw [hsite]
    cases c with
    | nil => exact isContainer_update_cons _ _ _ hroot
    | cons first c => exact isContainer_update_cons _ _ _ hroot
  exact dataRoot_of_data (data_applyPatch_asPatch r p hasNext response) hc

/-- Payloads whose sites part at some value of the data can be taken in in either order. -/
theorem sameOption_data_applyPatch_comm (r : OperationResult) (P Q : IncrementalPayload)
    (c p q : Path) (s t : PathSegment) (hP : P.site = c ++ s :: p) (hQ : Q.site = c ++ t :: q)
    (hparted : Parted s t (r.data.bind (valueAt? c))) (hr : ∀ v ∈ r.data, v.Distinct)
    (hPd : P.Distinct) (hQd : Q.Distinct) (nextP nextQ : Bool)
    (responseP responseQ : Option Value) :
    sameOption
      ((r.applyPatch (P.asPatch nextP) responseP).1.applyPatch (Q.asPatch nextQ) responseQ).1.data
      ((r.applyPatch (Q.asPatch nextQ) responseQ).1.applyPatch (P.asPatch nextP) responseP).1.data
      = true := by
  rw [data_applyPatch_asPatch, data_applyPatch_asPatch, dataRoot_applyPatch_asPatch hP,
    dataRoot_applyPatch_asPatch hQ]
  have hreordered := update_comm P.write Q.write c p q (parted_dataRoot hparted)
  rw [← hP, ← hQ] at hreordered
  have hdistinct : (update P.write P.site (update Q.write Q.site r.dataRoot)).Distinct :=
    distinct_update (fun _ => distinct_write hPd) _
      (distinct_update (fun _ => distinct_write hQd) _ (distinct_dataRoot hr))
  exact hreordered.same hdistinct

/-- A result with a list of two items. -/
def twoItems : OperationResult where
  operation := ⟨⟨""⟩, .query, ⟨⟨""⟩, [], 0⟩, []⟩
  data := some (.object [("list", .array [.object [("id", .string "a")], .null])])

/-- Data for the first of them. -/
def firstName : IncrementalPayload where
  path := [.field "list", .index 0]
  data := some (.object [("name", .string "first")])

/-- Items below the second one, which is still null. -/
def secondTags : IncrementalPayload where
  path := [.field "list", .field "1", .field "tags", .index 2]
  items := some [.bool true]

theorem sameOption_data_twoItems :
    firstName.site = [.field "list"] ++ .index 0 :: []
      ∧ secondTags.site = [.field "list"] ++ .field "1" :: [.field "tags"]
      ∧ Parted (.index 0) (.field "1") (twoItems.data.bind (valueAt? [.field "list"]))
      ∧ (∀ v ∈ twoItems.data, v.Distinct) ∧ firstName.Distinct ∧ secondTags.Distinct
      ∧ sameOption
        ((twoItems.applyPatch (firstName.asPatch true) none).1.applyPatch
          (secondTags.asPatch false) none).1.data
        ((twoItems.applyPatch (secondTags.asPatch false) none).1.applyPatch
          (firstName.asPatch true) none).1.data = true := by
  have hparted : Parted (.index 0) (.field "1") (twoItems.data.bind (valueAt? [.field "list"])) :=
    ⟨0, 1, rfl, by decide +kernel, by decide, by decide, by decide⟩
  have hr : ∀ v ∈ twoItems.data, v.Distinct := by simp [twoItems]
  have hfirst : firstName.Distinct := by simp [IncrementalPayload.Distinct, firstName]
  have hsecond : secondTags.Distinct := by simp [IncrementalPayload.Distinct, secondTags]
  exact ⟨rfl, rfl, hparted, hr, hfirst, hsecond,
    sameOption_data_applyPatch_comm twoItems firstName secondTags [.field "list"] []
      [.field "tags"] (.index 0) (.field "1") rfl rfl hparted hr hfirst hsecond true false none
      none⟩

end OperationResult

end GraphqlClient.Result
