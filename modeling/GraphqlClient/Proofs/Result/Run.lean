import GraphqlClient.Result.Basic
import Mathlib.Data.List.Induction

/-!
# Runs of payloads

A run begins with the first payload of an operation or with the failure to get one, and goes on with
any number of patches, each with the raw response it came in. `Run.result_induction` carries an
invariant from the opening over one patch at a time to the end.
-/

namespace GraphqlClient.Result

open Json Response

/-- How a result begins. -/
inductive Opening
  | payload (first : ExecutionResult) (response : Option Value)
  | failure (text : String) (response : Option Value)

/-- A patch with the raw response it came in. -/
abbrev Arrival := ExecutionResult × Option Value

/-- An opening and the patches that follow it. -/
structure Run where
  operation : Operation
  opening : Opening
  patches : List Arrival

namespace Opening

/-- The result of an opening. -/
def result (operation : Operation) : Opening → Except NoContent OperationResult
  | .payload first response => OperationResult.build operation first response
  | .failure text response => .ok (.ofNetworkError operation text response)

end Opening

namespace OperationResult

/-- The result of a first payload that is accepted. -/
theorem eq_of_build_eq_ok {operation : Operation} {first : ExecutionResult} {response : Option Value}
    {r : OperationResult} (h : build operation first response = .ok r) :
    r = { operation
          data := first.data
          error := (errorsOf? first.errors).map (CombinedError.ofGraphqlErrors · response)
          extensions := extensionsOf? first.extensions
          hasNext := first.hasNext } := by
  unfold build at h
  split at h
  · cases h
  · split at h
    · cases h
    · exact (Except.ok.inj h).symm

/-- Takes in patches in turn. -/
def applyPatches (r : OperationResult) (patches : List Arrival) : OperationResult :=
  patches.foldl (fun r p => (r.applyPatch p.1 p.2).1) r

theorem applyPatches_append (r : OperationResult) (ps qs : List Arrival) :
    r.applyPatches (ps ++ qs) = (r.applyPatches ps).applyPatches qs :=
  List.foldl_append

theorem applyPatches_concat (r : OperationResult) (ps : List Arrival) (p : Arrival) :
    r.applyPatches (ps ++ [p]) = ((r.applyPatches ps).applyPatch p.1 p.2).1 :=
  applyPatches_append r ps [p]

end OperationResult

namespace Run

/-- The result at the end of a run, if its opening has one. -/
def result (run : Run) : Except NoContent OperationResult :=
  (run.opening.result run.operation).map fun r => r.applyPatches run.patches

theorem result_eq_ok_iff {run : Run} {r : OperationResult} :
    run.result = .ok r ↔
      ∃ first, run.opening.result run.operation = .ok first
        ∧ first.applyPatches run.patches = r := by
  rw [result]
  cases run.opening.result run.operation with
  | error e => simp [Except.map]
  | ok first => simp [Except.map]

/-- What holds of the opening and is kept by every patch holds at the end of a run. -/
theorem result_induction {motive : List Arrival → OperationResult → Prop} {run : Run}
    {r : OperationResult} (h : run.result = .ok r)
    (opening : ∀ first, run.opening.result run.operation = .ok first → motive [] first)
    (patch : ∀ ps r p, motive ps r → motive (ps ++ [p]) (r.applyPatch p.1 p.2).1) :
    motive run.patches r := by
  obtain ⟨first, hfirst, rfl⟩ := result_eq_ok_iff.1 h
  generalize run.patches = ps
  induction ps using List.reverseRecOn with
  | nil => exact opening first hfirst
  | append_singleton ps p ih =>
    rw [OperationResult.applyPatches_concat]
    exact patch ps _ p ih

end Run

end GraphqlClient.Result
