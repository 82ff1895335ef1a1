import GraphqlClient.Proofs.Result.ErrorAccount
import GraphqlClient.Proofs.Result.ExtensionAccount
import GraphqlClient.Proofs.Result.SameSite
import GraphqlClient.Proofs.Result.SpliceRules

/-!
# Batches of first payloads

A payload that has data or errors is a result, and one that has a batch is a patch to an earlier
result. A payload may be both. `build` takes it for a result and does not look at the batch, so that
what the batch brings is lost without a notice; `applyPatch` takes in the same batch from a later
payload.

`build_keepsBatch_iff` says when that makes no difference: `build` refuses the payload for another
reason, or the batch adds nothing to it (`AddsNothing`). The reported errors and the extensions that
a batch adds are read off their accounts. Entries may change data and change it back, so that they
add no data exactly if the rules for splices lead from the data to itself, entry by entry
(`SplicedInTurn`).
-/

namespace GraphqlClient.Response

open Json Result

namespace ExecutionResult

/-- The payload without its batch. -/
def withoutBatch (first : ExecutionResult) : ExecutionResult := { first with incremental := none }

/-- The batch of the payload as a payload of its own. -/
def batchAlone (first : ExecutionResult) (hasNext : Bool) : ExecutionResult :=
  { hasNext, incremental := first.incremental }

end ExecutionResult

namespace IncrementalPayload

/-- What splicing the payload into data leaves. -/
def splicedInto (root : Value) (p : IncrementalPayload) : Value := update p.write p.site root

theorem isContainer_splicedInto (p : IncrementalPayload) {root : Value}
    (h : root.isContainer = true) : (p.splicedInto root).isContainer = true :=
  OperationResult.isContainer_update_write p p.site h

theorem isContainer_foldl_splicedInto (ps : List IncrementalPayload) {root : Value}
    (h : root.isContainer = true) : (ps.foldl splicedInto root).isContainer = true := by
  induction ps generalizing root with
  | nil => exact h
  | cons p ps ih => exact ih (p.isContainer_splicedInto h)

end IncrementalPayload

end GraphqlClient.Response

namespace GraphqlClient.Result

open Json Response

/-- Two results show the same data, the same reported errors and the same extensions. -/
structure SameContent (r s : OperationResult) : Prop where
  data : r.data = s.data
  graphqlErrors : (r.error.map CombinedError.graphqlErrors).getD []
    = (s.error.map CombinedError.graphqlErrors).getD []
  extensions : r.extensions = s.extensions

/-- Entries take data to other data, each of them what the one before it has left. -/
inductive SplicedInTurn : List IncrementalPayload → Value → Value → Prop
  | nil (v : Value) : SplicedInTurn [] v v
  | cons {p : IncrementalPayload} {ps : List IncrementalPayload} {u v w : Value}
    (first : Spliced p.write p.site u v) (others : SplicedInTurn ps v w) :
    SplicedInTurn (p :: ps) u w

/-- A batch adds nothing to a payload. -/
structure AddsNothing (batch : List IncrementalPayload) (first : ExecutionResult) : Prop where
  /-- It reports no error. -/
  errors : ∀ p ∈ batch, ∀ vs, p.errors = some (.array vs) → vs = []
  /-- It brings extensions only if the payload has some, -/
  extended : batchObjects batch ≠ [] → (extensionsOf? first.extensions).isSome = true
  /-- and these have every member that it sets and does not set again. -/
  extensions : ∀ ms ∈ extensionsOf? first.extensions, ∀ front key v back,
    (batchObjects batch).flatten = front ++ (key, v) :: back → key ∉ Members.keys back →
    ms.lookup key = some v
  /-- Its entries take the data to itself. An entry of whatever kind puts an object in the place of
  data that is no container. -/
  data : batch = [] ∨ ∃ root, first.data = some root ∧ root.isContainer = true
    ∧ SplicedInTurn batch root root

namespace OperationResult

/-- A first payload is refused, or its result has the content that is there once its batch has
followed in a payload of its own, with any flag and any response. -/
def KeepsBatch (operation : Operation) (first : ExecutionResult) (response : Option Value)
    (hasNext : Bool) (later : Option Value) : Prop :=
  (∃ refusal, build operation first response = .error refusal)
    ∨ ∃ r s, build operation first response = .ok r
      ∧ build operation first.withoutBatch response = .ok s
      ∧ SameContent r (s.applyPatch (first.batchAlone hasNext) later).1

/-! ## Data -/

theorem splicedInTurn_iff {ps : List IncrementalPayload} {v w : Value} :
    SplicedInTurn ps v w ↔ ps.foldl IncrementalPayload.splicedInto v = w := by
  constructor
  · intro h
    induction h with
    | nil v => rfl
    | cons first others ih => rwa [List.foldl_cons, IncrementalPayload.splicedInto, first.update_eq]
  · rintro rfl
    induction ps generalizing v with
    | nil => exact .nil v
    | cons p ps ih => exact .cons (spliced_iff.2 rfl) ih

theorem data_applyPayloads_of_data (response : Option Value) {r : OperationResult} {root : Value}
    (hdata : r.data = some root) (h : root.isContainer = true) (ps : List IncrementalPayload) :
    (applyPayloads response r ps).1.data = some (ps.foldl IncrementalPayload.splicedInto root) := by
  induction ps generalizing r root with
  | nil => exact hdata
  | cons p ps ih =>
    have hfirst : (r.applyPayload p response).1.data = some (p.splicedInto root) := by
      rw [data_applyPayload, dataRoot_of_data hdata h, IncrementalPayload.splicedInto]
    exact ih hfirst (p.isContainer_splicedInto h)

/-- Payloads, one at least, are spliced one by one into the root that the first of them finds. -/
theorem data_applyPayloads (response : Option Value) (r : OperationResult) (p : IncrementalPayload)
    (ps : List IncrementalPayload) :
    (applyPayloads response r (p :: ps)).1.data
      = some ((p :: ps).foldl IncrementalPayload.splicedInto r.dataRoot) :=
  data_applyPayloads_of_data response (data_applyPayload r p response)
    (p.isContainer_splicedInto (isContainer_asContainer _)) ps

theorem data_eq_applyPayloads_iff (response : Option Value) (r : OperationResult)
    (ps : List IncrementalPayload) :
    r.data = (applyPayloads response r ps).1.data ↔
      ps = [] ∨ ∃ root, r.data = some root ∧ root.isContainer = true
        ∧ SplicedInTurn ps root root := by
  simp only [splicedInTurn_iff]
  cases ps with
  | nil => simp [applyPayloads]
  | cons p ps =>
    rw [data_applyPayloads]
    constructor
    · intro h
      -- the data is what payloads leave, so it is the root that they started from
      have hcontainer : r.dataRoot.isContainer = true := isContainer_asContainer _
      have hroot := dataRoot_of_data h
        (IncrementalPayload.isContainer_foldl_splicedInto (p :: ps) hcontainer)
      exact .inr ⟨r.dataRoot, h.trans (congrArg some hroot.symm), hcontainer, hroot.symm⟩
    · rintro (⟨⟨⟩⟩ | ⟨root, hdata, hcontainer, hroot⟩)
      rw [dataRoot_of_data hdata hcontainer, hroot, hdata]

/-! ## First payloads -/

section

variable {operation : Operation} {first : ExecutionResult} {response : Option Value}
  {r : OperationResult} {batch : List IncrementalPayload}

/-- A first payload is refused for its path, or for having neither data nor errors. -/
theorem exists_build_eq_error_iff :
    (∃ refusal, build operation first response = .error refusal) ↔
      first.path.isSome = true ∨ first.data = none ∧ first.errors = none := by
  unfold build
  split
  case isTrue hpath => exact ⟨fun _ => .inl hpath, fun _ => ⟨_, rfl⟩⟩
  case isFalse hpath =>
    split
    case isTrue hempty =>
      rw [Bool.and_eq_true, Option.isNone_iff_eq_none, Option.isNone_iff_eq_none] at hempty
      exact ⟨fun _ => .inr hempty, fun _ => ⟨_, rfl⟩⟩
    case isFalse hempty =>
      constructor
      · rintro ⟨refusal, ⟨⟩⟩
      · rintro (h | ⟨hdata, herrors⟩)
        · exact absurd h hpath
        · exact absurd (by rw [hdata, herrors]; rfl) hempty

theorem mem_patchLists_batchAlone (hbatch : first.incremental = some batch) {hasNext : Bool}
    {later : Option Value} {l : ErrorList} :
    l ∈ patchLists (first.batchAlone hasNext, later)
      ↔ l.2 = later ∧ ∃ p ∈ batch, p.errors = some (.array l.1) := by
  obtain ⟨vs, response⟩ := l
  simp only [patchLists, ExecutionResult.batchAlone, hbatch, List.mem_map, List.mem_append,
    List.mem_filterMap, listOf?_eq_some_iff]
  simp [listOf?, eq_comm, and_comm]

/-- The batch of an accepted payload leaves the reported errors as they are exactly if it reports
none. -/
theorem graphqlErrors_eq_applyPatch_iff (h : build operation first response = .ok r)
    (hbatch : first.incremental = some batch) (hasNext : Bool) (later : Option Value) :
    (r.error.map CombinedError.graphqlErrors).getD []
        = ((r.applyPatch (first.batchAlone hasNext) later).1.error.map
            CombinedError.graphqlErrors).getD []
      ↔ ∀ p ∈ batch, ∀ vs, p.errors = some (.array vs) → vs = [] := by
  have hbuilt : ErrorAccount (.payload first response) _ r.error := errorAccount_opening h
  have hpatched := hbuilt.foldl_addList (patchLists (first.batchAlone hasNext, later))
  rw [← error_applyPatch] at hpatched
  rw [hbuilt.graphqlErrors, hpatched.graphqlErrors, reportedErrors, reportedErrors,
    List.flatMap_append, List.self_eq_append_right, List.flatMap_eq_nil_iff]
  constructor
  · intro hlists p hp vs hvs
    exact List.map_eq_nil_iff.1
      (hlists (vs, later) ((mem_patchLists_batchAlone hbatch).2 ⟨rfl, p, hp, hvs⟩))
  · intro hentries l hl
    obtain ⟨-, p, hp, hvs⟩ := (mem_patchLists_batchAlone hbatch).1 hl
    rw [hentries p hp _ hvs, List.map_nil]

theorem applyPatch_batchAlone (hbatch : first.incremental = some batch) (r : OperationResult)
    (hasNext : Bool) (later : Option Value) :
    (r.applyPatch (first.batchAlone hasNext) later).1
      = (applyPayloads later r batch).1.withHasNext hasNext := by
  have halone : (first.batchAlone hasNext).incremental = some batch := hbatch
  exact applyPatch_of_incremental halone r later

theorem data_eq_applyPatch_iff (h : build operation first response = .ok r)
    (hbatch : first.incremental = some batch) (hasNext : Bool) (later : Option Value) :
    r.data = (r.applyPatch (first.batchAlone hasNext) later).1.data ↔
      batch = [] ∨ ∃ root, first.data = some root ∧ root.isContainer = true
        ∧ SplicedInTurn batch root root := by
  have hdata : first.data = r.data := by rw [eq_of_build_eq_ok h]
  rw [hdata, applyPatch_batchAlone hbatch]
  exact data_eq_applyPayloads_iff later r batch

theorem extensions_eq_applyPatch_iff (h : build operation first response = .ok r)
    (hbatch : first.incremental = some batch) (hasNext : Bool) (later : Option Value) :
    r.extensions = (r.applyPatch (first.batchAlone hasNext) later).1.extensions ↔
      (batchObjects batch ≠ [] → (extensionsOf? first.extensions).isSome = true)
        ∧ ∀ ms ∈ extensionsOf? first.extensions, ∀ front key v back,
          (batchObjects batch).flatten = front ++ (key, v) :: back → key ∉ Members.keys back →
          ms.lookup key = some v := by
  have hextensions : extensionsOf? first.extensions = r.extensions := by rw [eq_of_build_eq_ok h]
  rw [hextensions, ← foldl_addObject_eq_self_iff, ← extensions_applyPayloads later,
    applyPatch_batchAlone hbatch]
  exact eq_comm

/-- The batch of an accepted payload leaves the content of its result as it is exactly if it adds
nothing to the payload. -/
theorem sameContent_applyPatch_iff (h : build operation first response = .ok r)
    (hbatch : first.incremental = some batch) (hasNext : Bool) (later : Option Value) :
    SameContent r (r.applyPatch (first.batchAlone hasNext) later).1 ↔ AddsNothing batch first := by
  have hdata := data_eq_applyPatch_iff h hbatch hasNext later
  have herrors := graphqlErrors_eq_applyPatch_iff h hbatch hasNext later
  have hextensions := extensions_eq_applyPatch_iff h hbatch hasNext later
  constructor
  · intro same
    obtain ⟨hextended, hmembers⟩ := hextensions.1 same.extensions
    exact ⟨herrors.1 same.graphqlErrors, hextended, hmembers, hdata.1 same.data⟩
  · intro nothing
    exact ⟨hdata.2 nothing.data, herrors.2 nothing.errors,
      hextensions.2 ⟨nothing.extended, nothing.extensions⟩⟩

end

/-- A first payload and the same without its batch have the same result. So a batch is kept exactly
if the payload is refused, for its path or for having neither data nor errors, or if the batch adds
nothing to it. -/
theorem build_keepsBatch_iff (operation : Operation) {first : ExecutionResult}
    {batch : List IncrementalPayload} (hbatch : first.incremental = some batch)
    (response : Option Value) (hasNext : Bool) (later : Option Value) :
    build operation first.withoutBatch response = build operation first response
      ∧ (KeepsBatch operation first response hasNext later ↔
        first.path.isSome = true ∨ first.data = none ∧ first.errors = none
          ∨ AddsNothing batch first) := by
  have hblind : build operation first.withoutBatch response = build operation first response := rfl
  refine ⟨hblind, ?_⟩
  rw [← or_assoc, ← exists_build_eq_error_iff, KeepsBatch, hblind]
  cases h : build operation first response with
  | error refusal => simp
  | ok r => simp [sameContent_applyPatch_iff h hbatch]

/-- A payload with data and an entry that brings one more member. -/
def lateMember : ExecutionResult where
  data := some (.object [("a", .number (.integer 1))])
  incremental := some [{ path := [], data := some (.object [("b", .number (.integer 2))]) }]

/-- A payload with data and extensions, an entry that changes both and an entry that changes them
back. -/
def undoneMember : ExecutionResult where
  data := some (.object [("a", .number (.integer 1))])
  extensions := some (.object [("cost", .null), ("trace", .null)])
  incremental := some [
    { path := [], data := some (.object [("a", .null)]), errors := some (.array [])
      extensions := some (.object [("cost", .bool true)]) },
    { path := [], data := some (.object [("a", .number (.integer 1))]), errors := some .null
      extensions := some (.object [("cost", .null)]) }]

theorem build_keepsBatch_iff_lateMember :
    lateMember.incremental.isSome = true ∧ undoneMember.incremental.isSome = true
      ∧ ¬KeepsBatch twoItems.operation lateMember none true (some .null)
      ∧ KeepsBatch twoItems.operation { lateMember with data := none } none true (some .null)
      ∧ KeepsBatch twoItems.operation undoneMember none true (some .null) := by
  refine ⟨rfl, rfl, ?_, ?_, ?_⟩
  · rw [(build_keepsBatch_iff twoItems.operation rfl none true (some .null)).2]
    rintro (⟨⟨⟩⟩ | ⟨⟨⟩, -⟩ | nothing)
    obtain ⟨⟨⟩⟩ | ⟨root, ⟨⟩, -, hturn⟩ := nothing.data
    cases splicedInTurn_iff.1 hturn
  · rw [(build_keepsBatch_iff twoItems.operation rfl none true (some .null)).2]
    exact .inr (.inl ⟨rfl, rfl⟩)
  · rw [(build_keepsBatch_iff twoItems.operation rfl none true (some .null)).2]
    refine .inr (.inr ⟨by simp, fun _ => rfl, ?_, .inr ⟨_, rfl, rfl, splicedInTurn_iff.2 rfl⟩⟩)
    rintro ms ⟨⟩
    exact Members.merge_eq_self_iff.1 rfl

/-- The value that writes `lateMember`. -/
def lateMemberValue : Value := .object [
  ("data", .object [("a", .number (.integer 1))]),
  ("incremental", .array [.object [
    ("path", .array []), ("data", .object [("b", .number (.integer 2))])]])]

/-- A payload that counts as a patch is accepted, and what its batch brings is not there. -/
theorem build_loses_batch :
    ExecutionResult.ofValue lateMemberValue = .ok lateMember ∧ lateMember.isPatch = true
      ∧ ¬KeepsBatch twoItems.operation lateMember none false none := by
  refine ⟨rfl, rfl, ?_⟩
  rintro (⟨refusal, ⟨⟩⟩ | ⟨r, s, ⟨⟩, ⟨⟩, same⟩)
  cases same.data

end OperationResult

end GraphqlClient.Result
