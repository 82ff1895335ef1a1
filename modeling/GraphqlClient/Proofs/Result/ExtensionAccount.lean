import GraphqlClient.Proofs.Json.Members
import GraphqlClient.Proofs.Result.Run

/-!
# The account of extensions over a run

Payloads bring extensions in the forms in which they bring errors: with the opening, with a patch at
a path, and with the entries of a batch and behind them. `Run.objects` names the objects that a run
brings, in the order in which they come, and the extensions at the end of the run are these objects
set one over the other (`Run.extensions_eq`). `ExtensionAccount` says what that is, key by key.

A payload that cannot be spliced into the data brings its extensions all the same, and no path,
data, item or error has a part in them.
-/

namespace GraphqlClient.Response

/-- The payload with nothing but its extensions, at an empty path. -/
def IncrementalPayload.onlyExtensions (p : IncrementalPayload) : IncrementalPayload :=
  { path := [], extensions := p.extensions }

/-- The patch with nothing but its extensions and those of its batch. Without a batch it is still
told whether the patch has a path. -/
def ExecutionResult.onlyExtensions (patch : ExecutionResult) : ExecutionResult :=
  match patch.incremental with
  | some batch =>
    { extensions := patch.extensions
      incremental := some (batch.map IncrementalPayload.onlyExtensions) }
  | none => { extensions := patch.extensions, path := patch.path.map fun _ => [] }

end GraphqlClient.Response

namespace GraphqlClient.Result

open Json Response

/-- The objects of extensions that the entries of a batch bring, in order. -/
def batchObjects (batch : List IncrementalPayload) : List Members :=
  batch.filterMap fun entry => extensionsOf? entry.extensions

/-- The objects of extensions that a patch brings: those of the entries of a batch and then its own;
its own if it has a path; none otherwise. -/
def patchObjects (patch : ExecutionResult) : List Members :=
  match patch.incremental, patch.path with
  | some batch, _ => batchObjects batch ++ (extensionsOf? patch.extensions).toList
  | none, some _ => (extensionsOf? patch.extensions).toList
  | none, none => []

/-- The extensions that an opening has, of whatever shape. -/
def Opening.extensions : Opening → Option Value
  | .payload first _ => first.extensions
  | .failure _ _ => none

/-- The objects of extensions that a run brings, in order. -/
def Run.objects (run : Run) : List Members :=
  (extensionsOf? run.opening.extensions).toList ++ run.patches.flatMap fun p => patchObjects p.1

/-- What extensions show of the objects that were brought: every key, in the order in which keys
first came, with the value of the last object that has it. -/
structure ExtensionAccount (objects : List Members) (extensions : Option Members) : Prop where
  absent : extensions = none ↔ objects = []
  keys : ∀ ms ∈ extensions, ms.keys = (objects.flatMap Members.keys).eraseDups
  lookup : ∀ ms ∈ extensions, ∀ key,
    ms.lookup key = objects.reverse.findSome? fun object => object.lookup key

/-! ## One object -/

/-- Extensions after one more object. -/
def addObject (extensions : Option Members) (object : Members) : Option Members :=
  some (Members.merge (extensions.getD []) object)

/-- Keys that have already come are no new ones, however often they came. -/
theorem removeAll_eraseDups (xs ys : List String) : xs.removeAll ys.eraseDups = xs.removeAll ys := by
  apply List.filter_congr
  intro x _
  simp

theorem foldl_addObject_some (ms : Members) (objects : List Members) :
    objects.foldl addObject (some ms) = some (ms.merge objects.flatten) := by
  induction objects generalizing ms with
  | nil => rfl
  | cons object objects ih =>
    rw [List.foldl_cons, addObject, Option.getD_some, ih, List.flatten_cons, Members.merge,
      Members.merge, Members.merge, List.foldl_append]

/-- Objects leave extensions as they are exactly if there are extensions that they find, and every
member that is set and not set again is there with its value. -/
theorem foldl_addObject_eq_self_iff {objects : List Members} {extensions : Option Members} :
    objects.foldl addObject extensions = extensions ↔
      (objects ≠ [] → extensions.isSome = true)
        ∧ ∀ ms ∈ extensions, ∀ front key v back, objects.flatten = front ++ (key, v) :: back →
          key ∉ Members.keys back → ms.lookup key = some v := by
  cases extensions with
  | none =>
    cases objects with
    | nil => simp
    | cons object objects =>
      rw [List.foldl_cons, addObject, foldl_addObject_some]
      simp
  | some ms =>
    rw [foldl_addObject_some, Option.some.injEq, Members.merge_eq_self_iff]
    simp

theorem ExtensionAccount.addObject {objects : List Members} {extensions : Option Members}
    (h : ExtensionAccount objects extensions) {object : Members} (hobject : object.keys.Nodup) :
    ExtensionAccount (objects ++ [object]) (addObject extensions object) := by
  have hkeys : (extensions.getD []).keys = (objects.flatMap Members.keys).eraseDups := by
    cases hext : extensions with
    | none =>
      rw [h.absent.1 hext]
      rfl
    | some ms => exact h.keys ms hext
  have hlookup (key : String) : (extensions.getD []).lookup key
      = objects.reverse.findSome? fun object => object.lookup key := by
    cases hext : extensions with
    | none =>
      rw [h.absent.1 hext]
      rfl
    | some ms => exact h.lookup ms hext key
  refine ⟨by simp [Result.addObject], ?_, ?_⟩
  · rintro ms ⟨⟩
    rw [Members.keys_merge, hkeys, removeAll_eraseDups, ← List.eraseDups_append,
      List.flatMap_append, List.flatMap_singleton]
  · rintro ms ⟨⟩ key
    rw [Members.lookup_merge _ hobject, hlookup, List.reverse_concat, List.findSome?_cons]
    cases object.lookup key <;> rfl

theorem extensionAccount_foldl {objects : List Members} (h : ∀ ms ∈ objects, ms.keys.Nodup) :
    ExtensionAccount objects (objects.foldl addObject none) := by
  induction objects using List.reverseRecOn with
  | nil => exact ⟨by simp, by simp, by simp⟩
  | append_singleton objects object ih =>
    rw [List.foldl_concat]
    apply ExtensionAccount.addObject
    · exact ih fun ms hms => h ms (List.mem_append_left _ hms)
    · exact h object (List.mem_append_right _ List.mem_cons_self)

/-! ## One patch -/

namespace OperationResult

@[simp] theorem extensions_appendErrors (r : OperationResult) (errors response : Option Value) :
    (r.appendErrors errors response).extensions = r.extensions := by
  unfold appendErrors
  split <;> rfl

theorem extensions_mergeExtensions (r : OperationResult) (extensions : Option Value) :
    (r.mergeExtensions extensions).extensions
      = (extensionsOf? extensions).toList.foldl addObject r.extensions := by
  unfold mergeExtensions
  cases extensionsOf? extensions <;> rfl

/-- Whatever becomes of its data, a payload sets its extensions. -/
theorem extensions_applyPayload (r : OperationResult) (p : IncrementalPayload)
    (response : Option Value) :
    (r.applyPayload p response).1.extensions
      = (extensionsOf? p.extensions).toList.foldl addObject r.extensions := by
  simp only [applyPayload, extensions_mergeExtensions, extensions_appendErrors]

theorem extensions_applyPayloads (response : Option Value) (r : OperationResult)
    (ps : List IncrementalPayload) :
    (applyPayloads response r ps).1.extensions
      = (batchObjects ps).foldl addObject r.extensions := by
  induction ps generalizing r with
  | nil => rfl
  | cons p ps ih =>
    rw [applyPayloads, ih, extensions_applyPayload, batchObjects, batchObjects, List.filterMap_cons]
    cases extensionsOf? p.extensions <;> rfl

theorem extensions_applyPatch (r : OperationResult) (p : Arrival) :
    (r.applyPatch p.1 p.2).1.extensions = (patchObjects p.1).foldl addObject r.extensions := by
  obtain ⟨patch, response⟩ := p
  unfold applyPatch patchObjects
  cases patch.incremental with
  | some batch =>
    simp only [extensions_mergeExtensions, extensions_appendErrors, extensions_applyPayloads,
      List.foldl_append]
  | none =>
    cases patch.path with
    | some path => simp only [extensions_applyPayload, payloadAt]
    | none => cases patch.data <;> rfl

end OperationResult

/-! ## Whole runs -/

/-- An opening has the object that it brings; setting that object alone leaves it as it is. -/
theorem extensions_opening {operation : Operation} {opening : Opening} {r : OperationResult}
    (h : opening.result operation = .ok r)
    (distinct : ∀ ms ∈ extensionsOf? opening.extensions, ms.keys.Nodup) :
    r.extensions = (extensionsOf? opening.extensions).toList.foldl addObject none := by
  cases opening with
  | failure text response =>
    cases h
    rfl
  | payload first response =>
    rw [OperationResult.eq_of_build_eq_ok h]
    rw [Opening.extensions] at distinct ⊢
    cases hobject : extensionsOf? first.extensions with
    | none => rfl
    | some ms =>
      have hms : Members.merge [] ms = ms := by
        rw [Members.merge_eq_overlay (by simp) (distinct ms hobject)]
        simp [Members.overlay]
      show some ms = some (Members.merge [] ms)
      rw [hms]

namespace Run

/-- Extensions are the objects of the run, set one over the other. -/
theorem extensions_eq {run : Run} {r : OperationResult} (h : run.result = .ok r)
    (distinct : ∀ ms ∈ run.objects, ms.keys.Nodup) :
    r.extensions = run.objects.foldl addObject none := by
  rw [objects, List.foldl_append]
  apply result_induction (motive := fun patches r => r.extensions
    = (patches.flatMap fun p => patchObjects p.1).foldl addObject
      ((extensionsOf? run.opening.extensions).toList.foldl addObject none)) h
  · intro first hfirst
    apply extensions_opening hfirst
    intro ms hms
    exact distinct ms (List.mem_append_left _ (Option.mem_toList.2 hms))
  · intro patches r p hr
    rw [OperationResult.extensions_applyPatch, hr, List.flatMap_append, List.flatMap_singleton,
      List.foldl_append]

theorem patchObjects_onlyExtensions (patch : ExecutionResult) :
    patchObjects patch.onlyExtensions = patchObjects patch := by
  unfold patchObjects ExecutionResult.onlyExtensions
  cases patch.incremental with
  | some batch =>
    simp only [batchObjects, List.filterMap_map]
    rfl
  | none => cases patch.path <;> rfl

/-- Runs that differ in nothing but operation, paths, data, items, errors, flags and responses bring
the same objects. -/
theorem objects_congr {run run' : Run} (hopening : run'.opening.extensions = run.opening.extensions)
    (hpatches : run'.patches.map (fun p => p.1.onlyExtensions)
      = run.patches.map fun p => p.1.onlyExtensions) :
    run'.objects = run.objects := by
  have hobjects (patches : List Arrival) : patches.flatMap (fun p => patchObjects p.1)
      = (patches.map fun p => p.1.onlyExtensions).flatMap patchObjects := by
    rw [List.flatMap_map]
    simp only [patchObjects_onlyExtensions]
  rw [objects, objects, hopening, hobjects, hobjects, hpatches]

/-- At the end of a run the extensions are absent if no object was brought. Otherwise they hold the
keys of all objects, in the order in which these first came, each with the value of the last object
that has it. Paths, data, items and errors make no difference. -/
theorem extensions_of_result {run : Run} {r : OperationResult} (h : run.result = .ok r)
    (distinct : ∀ ms ∈ run.objects, ms.keys.Nodup) :
    (r.extensions = none ↔ run.objects = [])
      ∧ (∀ ms ∈ r.extensions,
        ms.keys = (run.objects.flatMap Members.keys).eraseDups
          ∧ ∀ key, ms.lookup key = run.objects.reverse.findSome? fun object => object.lookup key)
      ∧ ∀ (run' : Run) (r' : OperationResult), run'.result = .ok r' →
        run'.opening.extensions = run.opening.extensions →
        run'.patches.map (fun p => p.1.onlyExtensions)
          = run.patches.map (fun p => p.1.onlyExtensions) →
        r'.extensions = r.extensions := by
  have account := extensionAccount_foldl distinct
  rw [← extensions_eq h distinct] at account
  refine ⟨account.absent, ?_, ?_⟩
  · intro ms hms
    exact ⟨account.keys ms hms, account.lookup ms hms⟩
  · intro run' r' h' hopening hpatches
    have hobjects := objects_congr hopening hpatches
    rw [extensions_eq h distinct, extensions_eq h' (hobjects ▸ distinct), hobjects]

/-- A run with extensions at its opening, on a patch that only replaces data, in an entry out of
reach, and behind the batch; the other entry has none that is an object. -/
def lateExtensions : Run where
  operation := ⟨⟨""⟩, .query, ⟨⟨""⟩, [], 0⟩, []⟩
  opening := .payload
    { data := some (.object [("list", .array [])])
      extensions := some (.object [("trace", .bool true), ("cost", .object [("sum", .null)])]) }
    none
  patches := [
    ({ extensions := some (.object [("lost", .null)]) }, none),
    ({ incremental := some [
        { path := [.field "list", .index 5000]
          extensions := some (.object [("cached", .bool false), ("trace", .null)]) },
        { path := [], extensions := some (.string "no object") }],
       extensions := some (.object [("cost", .object [])]) }, none)]

theorem extensions_of_result_lateExtensions :
    (∀ ms ∈ lateExtensions.objects, ms.keys.Nodup)
      ∧ ∃ r ms, lateExtensions.result = .ok r ∧ r.extensions = some ms
        ∧ ms.keys = ["trace", "cost", "cached"] ∧ ms.lookup "trace" = some .null
        ∧ ms.lookup "cost" = some (.object []) := by
  have distinct : ∀ ms ∈ lateExtensions.objects, ms.keys.Nodup := by decide +kernel
  refine ⟨distinct, ?_⟩
  cases h : lateExtensions.result with
  | error e => cases h
  | ok r =>
    obtain ⟨habsent, hpresent, -⟩ := extensions_of_result h distinct
    cases hext : r.extensions with
    | none => exact absurd (habsent.1 hext) nofun
    | some ms =>
      obtain ⟨hkeys, hlookup⟩ := hpresent ms hext
      have hunion : (lateExtensions.objects.flatMap Members.keys).eraseDups
          = ["trace", "cost", "cached"] := by decide +kernel
      exact ⟨r, ms, rfl, hext, hkeys.trans hunion, hlookup "trace", hlookup "cost"⟩

end Run

end GraphqlClient.Result
