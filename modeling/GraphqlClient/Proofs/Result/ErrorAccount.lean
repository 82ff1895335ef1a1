import GraphqlClient.Proofs.Result.Run

/-!
# The account of errors over a run

Payloads bring errors in three forms: with the opening, with a patch at a path, and with the entries
of a batch and behind them. `lists` names the lists of errors that a run brings, in the order in
which they come, and `ErrorAccount` says what the error of a result shows of them: every reported
error once and in order, the network error for as long as no list came, and the response of the last
list.
`Run.errorAccount_result` says that this account is right at the end of every run.
-/

namespace GraphqlClient.Result

open Json Response

/-- The list that a member holds, if it holds one. -/
def listOf? : Option Value → Option (List Value)
  | some (.array vs) => some vs
  | _ => none

theorem listOf?_eq_some_iff {errors : Option Value} {vs : List Value} :
    listOf? errors = some vs ↔ errors = some (.array vs) := by
  rcases errors with _ | (_ | _ | _ | _ | vs | ms) <;> simp [listOf?]

theorem errorsOf?_eq (errors : Option Value) :
    errorsOf? errors = (listOf? errors).map (List.map GraphqlError.ofValue) := by
  rcases errors with _ | (_ | _ | _ | _ | vs | ms) <;> rfl

/-- A list of reported errors with the raw response it came in. -/
abbrev ErrorList := List Value × Option Value

/-- The lists of errors that a patch brings: those of the entries of a batch and then its own; its
own if it has a path; none otherwise. -/
def patchLists (p : Arrival) : List ErrorList :=
  match p.1.incremental, p.1.path with
  | some batch, _ =>
    (batch.filterMap (fun entry => listOf? entry.errors)
      ++ (listOf? p.1.errors).toList).map (·, p.2)
  | none, some _ => (listOf? p.1.errors).toList.map (·, p.2)
  | none, none => []

namespace Opening

/-- The lists of errors that an opening brings. -/
def lists : Opening → List ErrorList
  | .payload first response => (listOf? first.errors).toList.map (·, response)
  | .failure _ _ => []

/-- The text of the network error of an opening. -/
def networkText? : Opening → Option String
  | .payload _ _ => none
  | .failure text _ => some text

/-- The response that came with a network error. -/
def failureResponse : Opening → Option Value
  | .payload _ _ => none
  | .failure _ response => response

end Opening

/-- The lists of errors that a run brings, in order. -/
def Run.lists (run : Run) : List ErrorList := run.opening.lists ++ run.patches.flatMap patchLists

/-- The errors that lists report, in order. -/
def reportedErrors (lists : List ErrorList) : List GraphqlError :=
  lists.flatMap fun l => l.1.map GraphqlError.ofValue

/-- What an error shows of the opening and of the lists that were brought. -/
structure ErrorAccount (opening : Opening) (lists : List ErrorList) (error : Option CombinedError) :
    Prop where
  graphqlErrors : (error.map CombinedError.graphqlErrors).getD [] = reportedErrors lists
  absent : error = none ↔ opening.networkText? = none ∧ lists = []
  networkError :
    error.bind CombinedError.networkError = if lists.isEmpty then opening.networkText? else none
  response :
    error.bind CombinedError.response = (lists.getLast?.map Prod.snd).getD opening.failureResponse

/-! ## One list -/

/-- An error after one more list. -/
def addList (error : Option CombinedError) (l : ErrorList) : Option CombinedError :=
  some <| match error with
    | some e => e.extend (l.1.map GraphqlError.ofValue) l.2
    | none => .ofGraphqlErrors (l.1.map GraphqlError.ofValue) l.2

theorem ErrorAccount.addList {opening : Opening} {lists : List ErrorList}
    {error : Option CombinedError} (h : ErrorAccount opening lists error) (l : ErrorList) :
    ErrorAccount opening (lists ++ [l]) (addList error l) where
  graphqlErrors := by
    have hreported : reportedErrors (lists ++ [l])
        = reportedErrors lists ++ l.1.map GraphqlError.ofValue := by simp [reportedErrors]
    rw [hreported, ← h.graphqlErrors]
    cases error <;> rfl
  absent := by simp [Result.addList]
  networkError := by cases error <;> simp [Result.addList, CombinedError.extend,
    CombinedError.ofGraphqlErrors]
  response := by cases error <;> simp [Result.addList, CombinedError.extend,
    CombinedError.ofGraphqlErrors]

theorem ErrorAccount.foldl_addList {opening : Opening} {lists : List ErrorList}
    {error : Option CombinedError} (h : ErrorAccount opening lists error) (more : List ErrorList) :
    ErrorAccount opening (lists ++ more) (more.foldl Result.addList error) := by
  induction more generalizing lists error with
  | nil => rwa [List.append_nil]
  | cons l more ih =>
    have := ih (h.addList l)
    rwa [List.append_assoc] at this

/-! ## One patch -/

namespace OperationResult

theorem error_appendErrors (r : OperationResult) (errors response : Option Value) :
    (r.appendErrors errors response).error =
      ((listOf? errors).toList.map (·, response)).foldl addList r.error := by
  rw [appendErrors, errorsOf?_eq]
  cases listOf? errors with
  | none => rfl
  | some vs => cases r.error <;> simp [addList]

@[simp] theorem error_mergeExtensions (r : OperationResult) (extensions : Option Value) :
    (r.mergeExtensions extensions).error = r.error := by
  unfold mergeExtensions
  split <;> rfl

/-- Whatever becomes of its data, a payload adds its errors. -/
theorem error_applyPayload (r : OperationResult) (p : IncrementalPayload)
    (response : Option Value) :
    (r.applyPayload p response).1.error =
      ((listOf? p.errors).toList.map (·, response)).foldl addList r.error := by
  simp only [applyPayload, error_mergeExtensions, error_appendErrors]

theorem error_applyPayloads (response : Option Value) (r : OperationResult)
    (ps : List IncrementalPayload) :
    (applyPayloads response r ps).1.error =
      ((ps.filterMap fun p => listOf? p.errors).map (·, response)).foldl addList r.error := by
  induction ps generalizing r with
  | nil => rfl
  | cons p ps ih =>
    rw [applyPayloads, ih, error_applyPayload]
    cases hp : listOf? p.errors with
    | none => simp [hp]
    | some vs => simp [hp]

theorem error_applyPatch (r : OperationResult) (p : Arrival) :
    (r.applyPatch p.1 p.2).1.error = (patchLists p).foldl addList r.error := by
  obtain ⟨patch, response⟩ := p
  unfold applyPatch patchLists
  cases hi : patch.incremental with
  | some batch =>
    simp only [error_mergeExtensions, error_appendErrors, error_applyPayloads, List.map_append,
      List.foldl_append]
  | none =>
    cases hp : patch.path with
    | some path => simp only [error_applyPayload, payloadAt]
    | none => cases patch.data <;> rfl

end OperationResult

/-! ## Whole runs -/

theorem errorAccount_opening {operation : Operation} {opening : Opening} {r : OperationResult}
    (h : opening.result operation = .ok r) : ErrorAccount opening opening.lists r.error := by
  cases opening with
  | failure text response =>
    cases h
    exact ⟨rfl, by simp [OperationResult.ofNetworkError, Opening.networkText?], rfl, rfl⟩
  | payload first response =>
    have herror : r.error = (Opening.lists (.payload first response)).foldl addList none := by
      rw [OperationResult.eq_of_build_eq_ok h, Opening.lists, errorsOf?_eq]
      cases listOf? first.errors <;> rfl
    have hnone : ErrorAccount (.payload first response) [] none :=
      ⟨rfl, by simp [Opening.networkText?], rfl, rfl⟩
    rw [herror]
    exact hnone.foldl_addList _

namespace Run

/-- After some patches the account of the opening and of their lists is right. -/
def AccountAfter (run : Run) (patches : List Arrival) (r : OperationResult) : Prop :=
  ErrorAccount run.opening (run.opening.lists ++ patches.flatMap patchLists) r.error

theorem accountAfter_opening {run : Run} {first : OperationResult}
    (h : run.opening.result run.operation = .ok first) : run.AccountAfter [] first := by
  unfold AccountAfter
  rw [List.flatMap_nil, List.append_nil]
  exact errorAccount_opening h

/-- One more patch keeps the account right. -/
theorem AccountAfter.patch {run : Run} {ps : List Arrival} {r : OperationResult}
    (h : run.AccountAfter ps r) (p : Arrival) :
    run.AccountAfter (ps ++ [p]) (r.applyPatch p.1 p.2).1 := by
  have hp := h.foldl_addList (patchLists p)
  unfold AccountAfter
  rwa [OperationResult.error_applyPatch, List.flatMap_append, List.flatMap_singleton,
    ← List.append_assoc]

theorem errorAccount_result {run : Run} {r : OperationResult} (h : run.result = .ok r) :
    ErrorAccount run.opening run.lists r.error := by
  have hrun : run.AccountAfter run.patches r := by
    apply result_induction h
    · intro first hfirst
      exact accountAfter_opening hfirst
    · intro ps r p hr
      exact hr.patch p
  exact hrun

/-- Without a network error in the opening it makes no difference which lists are counted. -/
theorem networkText_lists (run : Run) :
    (if run.lists.isEmpty then run.opening.networkText? else none)
      = if (run.patches.flatMap patchLists).isEmpty then run.opening.networkText? else none := by
  unfold lists
  cases run.opening with
  | payload first response => simp [Opening.networkText?]
  | failure text response => rw [Opening.lists, List.nil_append]

/-- At the end of a run the error of the result holds every reported error, once and in order. It is
absent if there is nothing to report, keeps a network error until a patch brings a list of errors,
and keeps the response of the last list. -/
theorem error_of_result {run : Run} {r : OperationResult} (h : run.result = .ok r) :
    (r.error.map CombinedError.graphqlErrors).getD [] = reportedErrors run.lists
      ∧ (r.error = none ↔ run.opening.networkText? = none ∧ run.lists = [])
      ∧ r.error.bind CombinedError.networkError
        = (if (run.patches.flatMap patchLists).isEmpty then run.opening.networkText? else none)
      ∧ r.error.bind CombinedError.response
        = (run.lists.getLast?.map Prod.snd).getD run.opening.failureResponse
      ∧ ∀ e ∈ r.error, e.message =
        match e.networkError with
        | some text => "[Network] " ++ text
        | none =>
          "\n".intercalate ((reportedErrors run.lists).map fun g => "[GraphQL] " ++ g.message) := by
  have account := errorAccount_result h
  have hnetwork := account.networkError.trans (networkText_lists run)
  refine ⟨account.graphqlErrors, account.absent, hnetwork, account.response, ?_⟩
  intro e he
  have herrors := account.graphqlErrors
  rw [Option.mem_def.1 he, Option.map_some, Option.getD_some] at herrors
  cases he : e.networkError with
  | some text => simp only [CombinedError.message, he]
  | none => simp only [CombinedError.message, he, herrors]

/-- A run that gets no response at first, then a batch with errors in an entry out of reach, in
another entry and behind the batch. -/
def lateErrors : Run where
  operation := ⟨⟨""⟩, .query, ⟨⟨""⟩, [], 0⟩, []⟩
  opening := .failure "reset" (some .null)
  patches := [
    ({ data := some (.array []) }, none),
    ({ incremental := some [
        { path := [.index 5000], errors := some (.array [.string "first"]) },
        { path := [], errors := some (.string "no list") },
        { path := [.index 0], items := some [.null], errors := some (.array [.string "second"]) }],
       errors := some (.array [.string "third"]) }, some (.bool true))]

theorem error_of_result_lateErrors :
    lateErrors.result.toOption.map (fun r => (r.error.map CombinedError.graphqlErrors).getD [])
        = some [.bare "first", .bare "second", .bare "third"]
      ∧ lateErrors.result.toOption.map (fun r => r.error.bind CombinedError.networkError)
        = some none
      ∧ lateErrors.result.toOption.map (fun r => r.error.bind CombinedError.response)
        = some (some (.bool true)) := by
  cases h : lateErrors.result with
  | error e => cases h
  | ok r =>
    obtain ⟨herrors, -, hnetwork, hresponse, -⟩ := error_of_result h
    exact ⟨congrArg some herrors, congrArg some hnetwork, congrArg some hresponse⟩

end Run

end GraphqlClient.Result
