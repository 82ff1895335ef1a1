import GraphqlClient.Proofs.Result.Commutation
import GraphqlClient.Proofs.Result.Run

/-!
# Batches and patches of their own

Payloads come in two formats: one after the other, each as a patch with a path, or together in a
batch that has errors, extensions and a flag of its own. Both leave the same result
(`applyPatch_batch`), however the payloads are dealt out to batches.

The two formats set the flag at different times, a patch of its own before it is spliced in. This
makes no difference because a payload neither reads nor sets the flag (`applyPayload_withHasNext`),
so that it can be set once and at the end.
-/

namespace GraphqlClient.Result

open Json Response

namespace OperationResult

/-- The result with another flag. -/
def withHasNext (r : OperationResult) (hasNext : Bool) : OperationResult := { r with hasNext }

@[simp] theorem withHasNext_withHasNext (r : OperationResult) (b c : Bool) :
    (r.withHasNext b).withHasNext c = r.withHasNext c := rfl

/-- The result once a batch ends: further errors behind those that it has, further extensions over
those that it has, and the flag of the batch. Members of another shape add nothing. -/
def closeBatch (r : OperationResult) (patch : ExecutionResult) (response : Option Value) :
    OperationResult :=
  { r with
    error := match errorsOf? patch.errors with
      | some es => some ⟨(r.error.map CombinedError.graphqlErrors).getD [] ++ es, none, response⟩
      | none => r.error
    extensions := match extensionsOf? patch.extensions with
      | some ms => some ((r.extensions.getD []).merge ms)
      | none => r.extensions
    hasNext := patch.hasNext }

/-! ## The flag -/

theorem appendErrors_withHasNext (r : OperationResult) (b : Bool)
    (errors response : Option Value) :
    (r.withHasNext b).appendErrors errors response
      = (r.appendErrors errors response).withHasNext b := by
  unfold appendErrors
  cases errorsOf? errors <;> rfl

theorem mergeExtensions_withHasNext (r : OperationResult) (b : Bool) (extensions : Option Value) :
    (r.withHasNext b).mergeExtensions extensions
      = (r.mergeExtensions extensions).withHasNext b := by
  unfold mergeExtensions
  cases extensionsOf? extensions <;> rfl

/-- A payload neither reads nor sets the flag. -/
theorem applyPayload_withHasNext (r : OperationResult) (b : Bool) (p : IncrementalPayload)
    (response : Option Value) :
    ((r.withHasNext b).applyPayload p response).1
      = (r.applyPayload p response).1.withHasNext b := by
  unfold applyPayload
  rw [appendErrors_withHasNext, mergeExtensions_withHasNext]
  rfl

theorem applyPayloads_withHasNext (response : Option Value) (r : OperationResult) (b : Bool)
    (ps : List IncrementalPayload) :
    (applyPayloads response (r.withHasNext b) ps).1
      = (applyPayloads response r ps).1.withHasNext b := by
  induction ps generalizing r with
  | nil => rfl
  | cons p ps ih => simp only [applyPayloads, applyPayload_withHasNext, ih]

/-! ## Payloads in turn -/

theorem applyPayloads_append (response : Option Value) (r : OperationResult)
    (ps qs : List IncrementalPayload) :
    (applyPayloads response r (ps ++ qs)).1
      = (applyPayloads response (applyPayloads response r ps).1 qs).1 := by
  induction ps generalizing r with
  | nil => rfl
  | cons p ps ih => exact ih (r.applyPayload p response).1

/-- Payloads in turn are patches of their own, up to the flag that the last of them sets. -/
theorem withHasNext_applyPatches (response : Option Value) (r : OperationResult)
    (payloads : List (IncrementalPayload × Bool)) (b : Bool) :
    (r.applyPatches (payloads.map fun p => (p.1.asPatch p.2, response))).withHasNext b
      = (applyPayloads response r (payloads.map Prod.fst)).1.withHasNext b := by
  induction payloads generalizing r with
  | nil => rfl
  | cons p payloads ih =>
    have hfirst : (r.applyPatch (p.1.asPatch p.2) response).1
        = (r.applyPayload p.1 response).1.withHasNext p.2 :=
      applyPayload_withHasNext r p.2 p.1 response
    have hrest := ih ((r.applyPayload p.1 response).1.withHasNext p.2)
    rw [applyPayloads_withHasNext, withHasNext_withHasNext] at hrest
    show ((r.applyPatch (p.1.asPatch p.2) response).1.applyPatches _).withHasNext b = _
    rw [hfirst]
    exact hrest

/-! ## The end of a batch -/

theorem appendErrors_mergeExtensions (r : OperationResult) (patch : ExecutionResult)
    (response : Option Value) :
    ((r.appendErrors patch.errors response).mergeExtensions patch.extensions).withHasNext
      patch.hasNext = r.closeBatch patch response := by
  unfold appendErrors mergeExtensions closeBatch
  cases errorsOf? patch.errors with
  | none => cases extensionsOf? patch.extensions <;> rfl
  | some es =>
    cases r.error <;> cases extensionsOf? patch.extensions <;> rfl

@[simp] theorem closeBatch_withHasNext (r : OperationResult) (b : Bool) (patch : ExecutionResult)
    (response : Option Value) :
    (r.withHasNext b).closeBatch patch response = r.closeBatch patch response := rfl

/-- A batch is its payloads in turn, and then its end. -/
theorem applyPatch_of_incremental {patch : ExecutionResult} {batch : List IncrementalPayload}
    (h : patch.incremental = some batch) (r : OperationResult) (response : Option Value) :
    (r.applyPatch patch response).1
      = (applyPayloads response r batch).1.closeBatch patch response := by
  have hpayloads := applyPayloads_withHasNext response r patch.hasNext batch
  rw [← appendErrors_mergeExtensions, ← mergeExtensions_withHasNext, ← appendErrors_withHasNext,
    ← hpayloads]
  simp only [applyPatch, h]
  rfl

/-- A batch leaves what its payloads leave as patches of their own, whatever flags these have, with
its own errors behind theirs, its own extensions over theirs and its own flag. It may be split at
any point, its errors, extensions and flag going with the second part. Data, items and a path beside
a batch are not looked at. -/
theorem applyPatch_batch (r : OperationResult) (patch : ExecutionResult) (response : Option Value) :
    (∀ payloads : List (IncrementalPayload × Bool),
        (r.applyPatch { patch with incremental := some (payloads.map Prod.fst) } response).1
          = (r.applyPatches (payloads.map fun p => (p.1.asPatch p.2, response))).closeBatch patch
            response)
      ∧ (∀ (front back : List IncrementalPayload) (hasNext : Bool) (data : Option Value)
          (items : Option (List Value)) (path : Option Path),
        (r.applyPatch { patch with incremental := some (front ++ back) } response).1
          = ((r.applyPatch { hasNext, data, items, path, incremental := some front }
              response).1.applyPatch { patch with incremental := some back } response).1)
      ∧ ∀ (batch : List IncrementalPayload) (data : Option Value) (items : Option (List Value))
          (path : Option Path),
        r.applyPatch { patch with incremental := some batch, data, items, path } response
          = r.applyPatch { patch with incremental := some batch } response := by
  refine ⟨?_, ?_, ?_⟩
  · intro payloads
    have hpatches := withHasNext_applyPatches response r payloads patch.hasNext
    rw [applyPatch_of_incremental rfl, ← closeBatch_withHasNext _ patch.hasNext, ← hpatches]
    rfl
  · intro front back hasNext data items path
    have hfront : (r.applyPatch { hasNext, data, items, path, incremental := some front }
        response).1 = (applyPayloads response r front).1.withHasNext hasNext :=
      applyPatch_of_incremental rfl r response
    rw [hfront, applyPatch_of_incremental rfl, applyPatch_of_incremental rfl, applyPayloads_append,
      applyPayloads_withHasNext]
    rfl
  · intro batch data items path
    rfl

end OperationResult

end GraphqlClient.Result
