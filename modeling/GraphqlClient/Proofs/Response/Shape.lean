import GraphqlClient.Proofs.Lookup
import GraphqlClient.Proofs.Outcome
import GraphqlClient.Response.Execution

/-!
# The shape of execution results

`IsExecutionResult` says which values are read as an execution result, `Writes` what is read from
such a value, and `FirstFault` what is reported of any other object: the first member, in the order
path, items, batch, that misses its shape, and in a batch the first entry that does.

Reading is three steps, each of which looks at one member. A step succeeds on the members that have
its shape (`…_eq_ok_iff`) and fails on the others with one fault (`…_eq_error_iff`), so that the
laws of the whole are put together from those of the steps.
-/

namespace GraphqlClient.Response

open Json

/-! ## Shapes -/

/-- A string, or a whole number below `2 ^ 64`. -/
def IsSegment : Value → Prop
  | .string _ => True
  | .number (.integer n) => 0 ≤ n ∧ n < UInt64.size
  | _ => False

/-- A list of segments. -/
def IsPath : Value → Prop
  | .array vs => ∀ v ∈ vs, IsSegment v
  | _ => False

/-- A list of any values. -/
def IsList : Value → Prop
  | .array _ => True
  | _ => False

/-- An object with a path, and with items that are a list if they are there. -/
def IsEntry : Value → Prop
  | .object ms => (∃ v ∈ shaped? "path" ms, IsPath v) ∧ ∀ v ∈ shaped? "items" ms, IsList v
  | _ => False

/-- A list of entries. -/
def IsBatch : Value → Prop
  | .array vs => ∀ v ∈ vs, IsEntry v
  | _ => False

/-- An object whose path, items and batch have their shapes if they are there. -/
def IsExecutionResult : Value → Prop
  | .object ms => (∀ v ∈ shaped? "path" ms, IsPath v) ∧ (∀ v ∈ shaped? "items" ms, IsList v)
      ∧ ∀ v ∈ shaped? "incremental" ms, IsBatch v
  | _ => False

/-- A member counts as absent if it is null. -/
theorem shaped?_eq_some_iff {key : String} {ms : Members} {v : Value} :
    shaped? key ms = some v ↔ ms.lookup key = some v ∧ v ≠ .null := by
  unfold shaped?
  rcases ms.lookup key with _ | (_ | _ | _ | _ | _ | _) <;> simp <;> rintro rfl <;> simp

/-! ## What is read -/

/-- The payload holds what the members of an entry write. -/
structure IncrementalPayload.Writes (ms : Members) (p : IncrementalPayload) : Prop where
  path : shaped? "path" ms = some (pathValue p.path)
  items : shaped? "items" ms = p.items.map .array
  data : p.data = ms.lookup "data"
  errors : p.errors = ms.lookup "errors"
  extensions : p.extensions = ms.lookup "extensions"

/-- The payloads hold what the entries of a list write, one by one. -/
def WritesBatch (v : Value) (ps : List IncrementalPayload) : Prop :=
  ∃ entries : List Members,
    v = .array (entries.map .object) ∧ List.Forall₂ IncrementalPayload.Writes entries ps

/-- The execution result holds what members write: members with a shape if they are there and not
null, the others as they are, and whether the flag counts as set. -/
structure ExecutionResult.Writes (ms : Members) (r : ExecutionResult) : Prop where
  path : shaped? "path" ms = r.path.map pathValue
  items : shaped? "items" ms = r.items.map .array
  incremental : Option.Rel WritesBatch (shaped? "incremental" ms) r.incremental
  data : r.data = ms.lookup "data"
  errors : r.errors = ms.lookup "errors"
  extensions : r.extensions = ms.lookup "extensions"
  hasNext : r.hasNext = true ↔ ∃ v, ms.lookup "hasNext" = some v ∧ v.Truthy

/-! ## What is reported -/

/-- What is wrong with a value that is no path. -/
def pathFault : Value → PathFault
  | .array _ => .segment
  | v => .notList v

/-- The first fault of a value that is no entry: it is no object, it has no path, its path is
misshapen, its items are. -/
inductive EntryFault : Value → ShapeFault → Prop
  | notObject {v : Value} (object : ∀ ms, v ≠ .object ms) : EntryFault v .entryNotObject
  | noPath {ms : Members} (path : shaped? "path" ms = none) :
    EntryFault (.object ms) .entryWithoutPath
  | path {ms : Members} {v : Value} (path : shaped? "path" ms = some v) (shape : ¬IsPath v) :
    EntryFault (.object ms) (.path (pathFault v))
  | items {ms : Members} {v w : Value} (path : shaped? "path" ms = some v) (isPath : IsPath v)
    (items : shaped? "items" ms = some w) (shape : ¬IsList w) :
    EntryFault (.object ms) .itemsNotList

/-- The first fault of members: the path is misshapen, the items are, the batch is no list, or one
of its entries is misshapen and those before it are not. -/
inductive FirstFault (ms : Members) : ShapedMember → ShapeFault → Prop
  | path {v : Value} (path : shaped? "path" ms = some v) (shape : ¬IsPath v) :
    FirstFault ms .path (.path (pathFault v))
  | items {v : Value} (path : ∀ v ∈ shaped? "path" ms, IsPath v)
    (items : shaped? "items" ms = some v) (shape : ¬IsList v) : FirstFault ms .items .itemsNotList
  | batch {v : Value} (path : ∀ v ∈ shaped? "path" ms, IsPath v)
    (items : ∀ v ∈ shaped? "items" ms, IsList v) (batch : shaped? "incremental" ms = some v)
    (shape : ¬IsList v) : FirstFault ms .incremental .batchNotList
  | entry {before after : List Value} {v : Value} {fault : ShapeFault}
    (path : ∀ v ∈ shaped? "path" ms, IsPath v) (items : ∀ v ∈ shaped? "items" ms, IsList v)
    (batch : shaped? "incremental" ms = some (.array (before ++ v :: after)))
    (entries : ∀ w ∈ before, IsEntry w) (shape : EntryFault v fault) :
    FirstFault ms .incremental fault

/-! ## Paths -/

/-- The value that writes a whole number. -/
def indexValue (n : UInt64) : Value := .number (.integer n.toNat)

theorem indexOfValue?_eq_some_iff {v : Value} {n : UInt64} :
    PathSegment.indexOfValue? v = some n ↔ v = indexValue n := by
  constructor
  · intro h
    rcases v with _ | _ | (m | x) | _ | _ | _
    case number.integer =>
      rw [PathSegment.indexOfValue?] at h
      split at h
      · rename_i hm
        cases h
        have hlt : m.toNat < UInt64.size := by omega
        rw [indexValue, UInt64.toNat_ofNat_of_lt' hlt, Int.toNat_of_nonneg hm.1]
      · cases h
    all_goals cases h
  · rintro rfl
    simpa [PathSegment.ofValue?, PathSegment.toValue, indexValue]
      using PathSegment.ofValue?_toValue (.index n)

theorem segmentOfValue?_eq_some_iff {v : Value} {s : PathSegment} :
    PathSegment.ofValue? v = some s ↔ v = s.toValue := by
  constructor
  · intro h
    cases v with
    | string name =>
      cases h
      rfl
    | number m =>
      obtain ⟨n, hn, rfl⟩ := Option.map_eq_some_iff.1 h
      exact indexOfValue?_eq_some_iff.1 hn
    | _ => cases h
  · rintro rfl
    exact PathSegment.ofValue?_toValue s

theorem isSegment_iff {v : Value} : IsSegment v ↔ ∃ s, PathSegment.ofValue? v = some s := by
  cases v with
  | string name => exact ⟨fun _ => ⟨.field name, rfl⟩, fun _ => trivial⟩
  | number n =>
    cases n with
    | integer n =>
      simp only [IsSegment, PathSegment.ofValue?, PathSegment.indexOfValue?]
      split <;> simp_all
    | double x => exact ⟨False.elim, fun h => by cases h.choose_spec⟩
  | _ => exact ⟨False.elim, fun h => by cases h.choose_spec⟩

theorem mapM_ofValue?_eq_some_iff {vs : List Value} {path : Path} :
    vs.mapM PathSegment.ofValue? = some path ↔ vs = path.map PathSegment.toValue := by
  simp only [Outcome.mapM_eq_some_iff, segmentOfValue?_eq_some_iff]
  rw [← List.forall₂_eq_eq_eq, List.forall₂_map_right_iff]

theorem readPath_eq_ok_iff {v : Value} {path : Path} :
    readPath v = .ok path ↔ v = pathValue path := by
  constructor
  · intro h
    cases v with
    | array vs =>
      rw [readPath] at h
      split at h
      · rename_i path' hpath
        cases h
        rw [mapM_ofValue?_eq_some_iff.1 hpath, pathValue]
      · cases h
    | _ => cases h
  · rintro rfl
    exact readPath_pathValue path

/-- A value is read as a path exactly when it is one. -/
theorem isPath_iff {v : Value} : IsPath v ↔ ∃ path, v = pathValue path := by
  cases v with
  | array vs =>
    simp only [IsPath, isSegment_iff, segmentOfValue?_eq_some_iff, pathValue, Value.array.injEq]
    induction vs with
    | nil => exact ⟨fun _ => ⟨[], rfl⟩, fun _ v hv => absurd hv List.not_mem_nil⟩
    | cons v vs ih =>
      rw [List.forall_mem_cons, ih]
      constructor
      · rintro ⟨⟨s, rfl⟩, path, rfl⟩
        exact ⟨s :: path, rfl⟩
      · rintro ⟨path, hpath⟩
        obtain ⟨s, path, rfl, rfl, rfl⟩ := List.map_eq_cons_iff.1 hpath.symm
        exact ⟨⟨s, rfl⟩, path, rfl⟩
  | _ => simp [IsPath, pathValue]

theorem readPath_eq_error_iff {v : Value} {fault : PathFault} :
    readPath v = .error fault ↔ ¬IsPath v ∧ fault = pathFault v := by
  cases hpath : readPath v with
  | ok path =>
    have hv : IsPath v := isPath_iff.2 ⟨path, readPath_eq_ok_iff.1 hpath⟩
    simp [hv]
  | error found =>
    have hv : ¬IsPath v := by
      intro hv
      obtain ⟨path, rfl⟩ := isPath_iff.1 hv
      rw [readPath_pathValue] at hpath
      cases hpath
    have hfound : found = pathFault v := by
      cases v with
      | array vs =>
        rw [readPath] at hpath
        split at hpath
        · cases hpath
        · cases hpath
          rfl
      | _ =>
        cases hpath
        rfl
    simp [hv, hfound, eq_comm]

/-! ## Steps -/

/-- The path that a member writes, if it is there. -/
def readPathOption (name : ShapedMember) : Option Value → Except MalformedResult (Option Path)
  | none => .ok none
  | some v => some <$> readPathMember name v

/-- The path that a member of an entry writes, which has to be there. -/
def readEntryPath : Option Value → Except MalformedResult Path
  | none => .error (.member .incremental .entryWithoutPath)
  | some v => readPathMember .incremental v

section

variable {name : ShapedMember} {member : Option Value} {e : MalformedResult}

theorem readPathMember_eq_ok_iff {v : Value} {path : Path} :
    readPathMember name v = .ok path ↔ v = pathValue path := by
  rw [← readPath_eq_ok_iff, readPathMember]
  cases readPath v <;> simp

theorem readPathMember_eq_error_iff {v : Value} :
    readPathMember name v = .error e ↔ ¬IsPath v ∧ e = .member name (.path (pathFault v)) := by
  have h := @readPath_eq_error_iff v
  rw [readPathMember]
  cases hpath : readPath v with
  | ok path =>
    have hv : IsPath v := isPath_iff.2 ⟨path, readPath_eq_ok_iff.1 hpath⟩
    simp [hv]
  | error fault =>
    obtain ⟨hv, rfl⟩ := h.1 hpath
    simp [hv, eq_comm]

theorem readPathOption_eq_ok_iff {path : Option Path} :
    readPathOption name member = .ok path ↔ member = path.map pathValue := by
  cases member with
  | none => cases path <;> simp [readPathOption]
  | some v =>
    rw [readPathOption, Outcome.map_eq_ok_iff]
    cases path <;> simp [readPathMember_eq_ok_iff]

theorem readPathOption_eq_error_iff :
    readPathOption name member = .error e ↔
      ∃ v, member = some v ∧ ¬IsPath v ∧ e = .member name (.path (pathFault v)) := by
  cases member with
  | none => simp [readPathOption]
  | some v => simp [readPathOption, Outcome.map_eq_error_iff, readPathMember_eq_error_iff]

theorem readEntryPath_eq_ok_iff {path : Path} :
    readEntryPath member = .ok path ↔ member = some (pathValue path) := by
  cases member with
  | none => simp [readEntryPath]
  | some v => simp [readEntryPath, readPathMember_eq_ok_iff]

theorem readEntryPath_eq_error_iff :
    readEntryPath member = .error e ↔
      member = none ∧ e = .member .incremental .entryWithoutPath
        ∨ ∃ v, member = some v ∧ ¬IsPath v ∧ e = .member .incremental (.path (pathFault v)) := by
  cases member with
  | none => simp [readEntryPath, eq_comm]
  | some v => simp [readEntryPath, readPathMember_eq_error_iff]

theorem readItemsMember_eq_ok_iff {items : Option (List Value)} :
    readItemsMember name member = .ok items ↔ member = items.map .array := by
  rcases member with _ | (_ | _ | _ | _ | vs | _) <;> cases items <;>
    simp [readItemsMember, eq_comm]

theorem readItemsMember_eq_error_iff :
    readItemsMember name member = .error e ↔
      ∃ v, member = some v ∧ ¬IsList v ∧ e = .member name .itemsNotList := by
  rcases member with _ | (_ | _ | _ | _ | vs | _) <;> simp [readItemsMember, IsList, eq_comm]

theorem forall_isPath_iff :
    (∀ v ∈ member, IsPath v) ↔ ∃ path : Option Path, member = path.map pathValue := by
  cases member with
  | none => exact ⟨fun _ => ⟨none, rfl⟩, nofun⟩
  | some v =>
    constructor
    · intro h
      obtain ⟨path, rfl⟩ := isPath_iff.1 (h v rfl)
      exact ⟨some path, rfl⟩
    · rintro ⟨path, hpath⟩ w ⟨⟩
      obtain ⟨path, -, rfl⟩ := Option.map_eq_some_iff.1 hpath.symm
      exact isPath_iff.2 ⟨path, rfl⟩

theorem forall_isList_iff :
    (∀ v ∈ member, IsList v) ↔ ∃ items : Option (List Value), member = items.map .array := by
  simp only [← @readItemsMember_eq_ok_iff .items]
  rcases member with _ | (_ | _ | _ | _ | vs | _) <;> simp [readItemsMember, IsList]

end

/-! ## Entries -/

namespace IncrementalPayload

theorem ofValue_object (ms : Members) :
    ofValue (.object ms) = do
      let path ← readEntryPath (shaped? "path" ms)
      let items ← readItemsMember .incremental (shaped? "items" ms)
      return {
        path, items
        data := ms.lookup "data"
        errors := ms.lookup "errors"
        extensions := ms.lookup "extensions" } := by
  rw [ofValue]
  cases shaped? "path" ms <;> rfl

theorem ofValue_eq_ok_iff {v : Value} {p : IncrementalPayload} :
    ofValue v = .ok p ↔ ∃ ms, v = .object ms ∧ p.Writes ms := by
  cases v with
  | object ms =>
    simp only [ofValue_object, Outcome.bind_eq_ok_iff, readEntryPath_eq_ok_iff,
      readItemsMember_eq_ok_iff]
    constructor
    · rintro ⟨path, hpath, items, hitems, ⟨⟩⟩
      exact ⟨ms, rfl, hpath, hitems, rfl, rfl, rfl⟩
    · rintro ⟨_, ⟨⟩, h⟩
      refine ⟨p.path, h.path, p.items, h.items, ?_⟩
      rw [← h.data, ← h.errors, ← h.extensions]
      rfl
  | _ => simp [ofValue]

theorem ofValue_eq_error_iff {v : Value} {e : MalformedResult} :
    ofValue v = .error e ↔ ∃ fault, EntryFault v fault ∧ e = .member .incremental fault := by
  cases v with
  | object ms =>
    simp only [ofValue_object, Outcome.bind_eq_error_iff, readEntryPath_eq_error_iff,
      readEntryPath_eq_ok_iff, readItemsMember_eq_error_iff]
    constructor
    · rintro ((⟨hpath, rfl⟩ | ⟨v, hpath, hv, rfl⟩) | ⟨path, hpath, ⟨w, hitems, hw, rfl⟩ | h⟩)
      · exact ⟨_, .noPath hpath, rfl⟩
      · exact ⟨_, .path hpath hv, rfl⟩
      · exact ⟨_, .items hpath (isPath_iff.2 ⟨path, rfl⟩) hitems hw, rfl⟩
      · obtain ⟨items, -, ⟨⟩⟩ := h
    · rintro ⟨fault, hfault, rfl⟩
      cases hfault with
      | notObject object => exact absurd rfl (object ms)
      | noPath path => exact .inl (.inl ⟨path, rfl⟩)
      | path path shape => exact .inl (.inr ⟨_, path, shape, rfl⟩)
      | items path isPath items shape =>
        obtain ⟨p, rfl⟩ := isPath_iff.1 isPath
        exact .inr ⟨p, path, .inl ⟨_, items, shape, rfl⟩⟩
  | _ =>
    constructor
    · rintro ⟨⟩
      exact ⟨_, .notObject nofun, rfl⟩
    · rintro ⟨fault, hfault, rfl⟩
      cases hfault
      rfl

/-- A value is read as an entry exactly when it is one. -/
theorem isEntry_iff {v : Value} : IsEntry v ↔ ∃ p, ofValue v = .ok p := by
  cases v with
  | object ms =>
    simp only [IsEntry, forall_isList_iff, ofValue_object, Outcome.bind_eq_ok_iff,
      readEntryPath_eq_ok_iff, readItemsMember_eq_ok_iff]
    constructor
    · rintro ⟨⟨w, hw, hpath⟩, items, hitems⟩
      obtain ⟨path, rfl⟩ := isPath_iff.1 hpath
      exact ⟨_, path, hw, items, hitems, rfl⟩
    · rintro ⟨p, path, hpath, items, hitems, -⟩
      exact ⟨⟨_, hpath, isPath_iff.2 ⟨path, rfl⟩⟩, items, hitems⟩
  | _ => simp [IsEntry, ofValue]

end IncrementalPayload

/-! ## Batches -/

theorem forall₂_ofValue_iff {vs : List Value} {ps : List IncrementalPayload} :
    List.Forall₂ (fun v p => IncrementalPayload.ofValue v = .ok p) vs ps
      ↔ WritesBatch (.array vs) ps := by
  simp only [IncrementalPayload.ofValue_eq_ok_iff, WritesBatch, Value.array.injEq]
  constructor
  · intro h
    induction h with
    | nil => exact ⟨[], rfl, .nil⟩
    | cons hv _ ih =>
      obtain ⟨ms, rfl, hms⟩ := hv
      obtain ⟨entries, rfl, hentries⟩ := ih
      exact ⟨ms :: entries, rfl, .cons hms hentries⟩
  · rintro ⟨entries, rfl, h⟩
    rw [List.forall₂_map_left_iff]
    exact h.imp fun ms p hms => ⟨ms, rfl, hms⟩

section

variable {member : Option Value} {e : MalformedResult}

theorem readBatch_eq_ok_iff {batch : Option (List IncrementalPayload)} :
    readBatch member = .ok batch ↔ Option.Rel WritesBatch member batch := by
  rcases member with _ | v
  · cases batch <;> simp [readBatch, Option.rel_none_none]
  · cases v with
    | array vs =>
      rw [readBatch, Outcome.map_eq_ok_iff]
      simp only [Outcome.mapM_eq_ok_iff, forall₂_ofValue_iff]
      cases batch <;> simp
    | _ => cases batch <;> simp [readBatch, WritesBatch]

/-- The first fault of a batch: that it is no list, or that of the first entry that is none. -/
theorem readBatch_eq_error_iff :
    readBatch member = .error e ↔
      (∃ v, member = some v ∧ ¬IsList v ∧ e = .member .incremental .batchNotList)
        ∨ ∃ before v after fault, member = some (.array (before ++ v :: after))
          ∧ (∀ w ∈ before, IsEntry w) ∧ EntryFault v fault ∧ e = .member .incremental fault := by
  rcases member with _ | v
  · simp [readBatch]
  · cases v with
    | array vs =>
      rw [readBatch, Outcome.map_eq_error_iff, Outcome.mapM_eq_error_iff]
      simp [IncrementalPayload.isEntry_iff, IncrementalPayload.ofValue_eq_error_iff, IsList]
    | _ => simp [readBatch, IsList, eq_comm]

theorem forall_isBatch_iff :
    (∀ v ∈ member, IsBatch v) ↔ ∃ batch, Option.Rel WritesBatch member batch := by
  simp only [← readBatch_eq_ok_iff]
  rcases member with _ | v
  · simp [readBatch]
  · cases v with
    | array vs =>
      have hentries :
          (∀ w ∈ vs, IsEntry w) ↔ ∃ ps, vs.mapM IncrementalPayload.ofValue = .ok ps := by
        simp only [Outcome.exists_mapM_eq_ok_iff, IncrementalPayload.isEntry_iff]
      simp [readBatch, Outcome.map_eq_ok_iff, IsBatch, hentries]
    | _ => simp [readBatch, IsBatch]

end

/-! ## Whole results -/

namespace ExecutionResult

theorem ofValue_object (ms : Members) :
    ofValue (.object ms) = do
      let path ← readPathOption .path (shaped? "path" ms)
      let items ← readItemsMember .items (shaped? "items" ms)
      let incremental ← readBatch (shaped? "incremental" ms)
      return {
        path, items, incremental
        data := ms.lookup "data"
        errors := ms.lookup "errors"
        extensions := ms.lookup "extensions"
        hasNext := (ms.lookup "hasNext").any Value.isTruthy } := by
  rw [ofValue]
  cases shaped? "path" ms <;> rfl

/-- The flag is set if there is a member for it that counts as set. -/
theorem any_isTruthy_iff {member : Option Value} :
    member.any Value.isTruthy = true ↔ ∃ v, member = some v ∧ v.Truthy := by
  simp only [Option.any_eq_true, Value.isTruthy_eq_true_iff]

theorem ofValue_eq_ok_iff {v : Value} {r : ExecutionResult} :
    ofValue v = .ok r ↔ ∃ ms, v = .object ms ∧ r.Writes ms := by
  cases v with
  | object ms =>
    simp only [ofValue_object, Outcome.bind_eq_ok_iff, readPathOption_eq_ok_iff,
      readItemsMember_eq_ok_iff, readBatch_eq_ok_iff]
    constructor
    · rintro ⟨path, hpath, items, hitems, batch, hbatch, ⟨⟩⟩
      exact ⟨ms, rfl, hpath, hitems, hbatch, rfl, rfl, rfl, any_isTruthy_iff⟩
    · rintro ⟨_, ⟨⟩, h⟩
      have hnext : (ms.lookup "hasNext").any Value.isTruthy = r.hasNext := by
        rw [Bool.eq_iff_iff, h.hasNext, any_isTruthy_iff]
      refine ⟨r.path, h.path, r.items, h.items, r.incremental, h.incremental, ?_⟩
      rw [← h.data, ← h.errors, ← h.extensions, hnext]
      rfl
  | _ => simp [ofValue]

theorem ofValue_eq_error_iff {v : Value} {e : MalformedResult} :
    ofValue v = .error e ↔ (e = .notObject ∧ ∀ ms, v ≠ .object ms)
      ∨ ∃ ms name fault, v = .object ms ∧ FirstFault ms name fault ∧ e = .member name fault := by
  cases v with
  | object ms =>
    simp only [ofValue_object, Outcome.bind_eq_error_iff, readPathOption_eq_error_iff,
      readPathOption_eq_ok_iff, readItemsMember_eq_error_iff, readItemsMember_eq_ok_iff,
      readBatch_eq_error_iff]
    constructor
    · rintro (⟨v, hpath, hv, rfl⟩ | ⟨path, hpath, ⟨v, hitems, hv, rfl⟩ | ⟨items, hitems, hbatch⟩⟩)
      · exact .inr ⟨ms, _, _, rfl, .path hpath hv, rfl⟩
      · exact .inr ⟨ms, _, _, rfl, .items (forall_isPath_iff.2 ⟨path, hpath⟩) hitems hv, rfl⟩
      · have hpath := forall_isPath_iff.2 ⟨path, hpath⟩
        have hitems := forall_isList_iff.2 ⟨items, hitems⟩
        obtain (⟨v, hv, hlist, rfl⟩ | ⟨before, v, after, fault, hv, hbefore, hfault, rfl⟩)
          | ⟨batch, -, ⟨⟩⟩ := hbatch
        · exact .inr ⟨ms, _, _, rfl, .batch hpath hitems hv hlist, rfl⟩
        · exact .inr ⟨ms, _, _, rfl, .entry hpath hitems hv hbefore hfault, rfl⟩
    · rintro (⟨-, object⟩ | ⟨_, name, fault, ⟨⟩, hfault, rfl⟩)
      · exact absurd rfl (object ms)
      · cases hfault with
        | path path shape => exact .inl ⟨_, path, shape, rfl⟩
        | items path items shape =>
          obtain ⟨p, hp⟩ := forall_isPath_iff.1 path
          exact .inr ⟨p, hp, .inl ⟨_, items, shape, rfl⟩⟩
        | batch path items batch shape =>
          obtain ⟨p, hp⟩ := forall_isPath_iff.1 path
          obtain ⟨is, his⟩ := forall_isList_iff.1 items
          exact .inr ⟨p, hp, .inr ⟨is, his, .inl (.inl ⟨_, batch, shape, rfl⟩)⟩⟩
        | entry path items batch entries shape =>
          obtain ⟨p, hp⟩ := forall_isPath_iff.1 path
          obtain ⟨is, his⟩ := forall_isList_iff.1 items
          exact .inr ⟨p, hp, .inr ⟨is, his, .inl (.inr ⟨_, _, _, _, batch, entries, shape, rfl⟩)⟩⟩
  | _ => simp [ofValue, eq_comm]

theorem isExecutionResult_iff {v : Value} : IsExecutionResult v ↔ ∃ r, ofValue v = .ok r := by
  cases v with
  | object ms =>
    simp only [IsExecutionResult, forall_isPath_iff, forall_isList_iff, forall_isBatch_iff,
      ofValue_object, Outcome.bind_eq_ok_iff, readPathOption_eq_ok_iff, readItemsMember_eq_ok_iff,
      readBatch_eq_ok_iff]
    constructor
    · rintro ⟨⟨path, hpath⟩, ⟨items, hitems⟩, batch, hbatch⟩
      exact ⟨_, path, hpath, items, hitems, batch, hbatch, rfl⟩
    · rintro ⟨r, path, hpath, items, hitems, batch, hbatch, -⟩
      exact ⟨⟨path, hpath⟩, ⟨items, hitems⟩, batch, hbatch⟩
  | _ => simp [IsExecutionResult, ofValue]

/-! ## Which members count -/

/-- The keys of the members that are looked at. -/
def memberKeys : List String :=
  ["path", "items", "incremental", "data", "errors", "extensions", "hasNext"]

theorem ofValue_congr {ms ns : Members}
    (h : ∀ key ∈ memberKeys, ms.lookup key = ns.lookup key) :
    ofValue (.object ms) = ofValue (.object ns) := by
  have hshaped {key : String} (hkey : key ∈ memberKeys) : shaped? key ms = shaped? key ns := by
    rw [shaped?, shaped?, h key hkey]
  rw [ofValue_object, ofValue_object, hshaped (by decide), hshaped (by decide), hshaped (by decide),
    h "data" (by decide), h "errors" (by decide), h "extensions" (by decide),
    h "hasNext" (by decide)]

/-- The order of members does not matter, nor does any other member. -/
theorem ofValue_perm {ms ns : Members} (keys : ms.keys.Nodup) (h : ms.Perm ns) :
    ofValue (.object ms) = ofValue (.object ns) :=
  ofValue_congr fun _ _ => Lookup.lookup_eq_of_perm keys h

/-- What `read` makes of any value, and `readEntry` of the entries of a batch. -/
structure Grammar (read : Value → Except MalformedResult ExecutionResult)
    (readEntry : Value → Except MalformedResult IncrementalPayload) : Prop where
  /-- A path, items or a batch that is null counts as absent. -/
  null : ∀ key ms v, shaped? key ms = some v ↔ ms.lookup key = some v ∧ v ≠ .null
  accepted : ∀ v, (∃ r, read v = .ok r) ↔ IsExecutionResult v
  /-- What is read is what the members of an object write. -/
  written : ∀ v r, read v = .ok r ↔ ∃ ms, v = .object ms ∧ r.Writes ms
  /-- What is reported is that the value is no object, or the first fault of its members. -/
  refused : ∀ v e, read v = .error e ↔ (e = .notObject ∧ ∀ ms, v ≠ .object ms)
    ∨ ∃ ms name fault, v = .object ms ∧ FirstFault ms name fault ∧ e = .member name fault
  entryWritten : ∀ v p, readEntry v = .ok p ↔ ∃ ms, v = .object ms ∧ p.Writes ms
  entryRefused : ∀ v e, readEntry v = .error e ↔
    ∃ fault, EntryFault v fault ∧ e = .member .incremental fault
  otherMembers : ∀ ms ns : Members, (∀ key ∈ memberKeys, ms.lookup key = ns.lookup key) →
    read (.object ms) = read (.object ns)
  order : ∀ ms ns : Members, ms.keys.Nodup → ms.Perm ns → read (.object ms) = read (.object ns)

/-- A value is read as an execution result exactly when it has the shape of one, and what is read is
what its members write. Otherwise it is no object, or the first fault of its members is reported; so
it is with the entries of a batch. Other members and the order of members make no difference. -/
theorem ofValue_grammar : Grammar ofValue IncrementalPayload.ofValue where
  null _ _ _ := shaped?_eq_some_iff
  accepted _ := isExecutionResult_iff.symm
  written _ _ := ofValue_eq_ok_iff
  refused _ _ := ofValue_eq_error_iff
  entryWritten _ _ := IncrementalPayload.ofValue_eq_ok_iff
  entryRefused _ _ := IncrementalPayload.ofValue_eq_error_iff
  otherMembers _ _ := ofValue_congr
  order _ _ := ofValue_perm

/-- The members of an entry whose path ends in the greatest index. -/
def lastItem : Members :=
  [("items", .null), ("path", .array [.string "0", .number (.integer 18446744073709551615)])]

/-- The members of an entry without a path and with items that are no list. -/
def lostItems : Members := [("items", .bool true), ("path", .null)]

/-- Members with a batch of these two. -/
def lostEntry : Members :=
  [("hasNext", .string ""),
    ("incremental", .array [.object lastItem, .object lostItems, .null]), ("path", .null)]

/-- Members with a path, items, a batch of one entry, null data and a flag. -/
def flagged (flag : Value) : Members :=
  [("hasNext", flag), ("data", .null), ("path", .array [.number (.integer 0)]),
    ("items", .array [.null]), ("incremental", .array [.object lastItem])]

/-- What these members write. -/
def flaggedResult (hasNext : Bool) : ExecutionResult where
  data := some .null
  hasNext := hasNext
  path := some [.index 0]
  items := some [.null]
  incremental := some [{ path := [.field "0", .index 18446744073709551615] }]

/-- A double of either sign and of the given rank. -/
def doubleFlag (negative : Bool) (rank : Nat) (h : rank < Floating.binary64.count) : Value :=
  .number (.double ⟨negative, rank, h⟩)

theorem ofValue_grammar_lostEntry :
    (∀ key ∈ memberKeys, lostEntry.lookup key = List.lookup key (("id", .null) :: lostEntry))
      ∧ lostEntry.keys.Nodup ∧ lostEntry.Perm lostEntry.reverse
      ∧ (∀ ms ∈ [lostEntry, ("id", .null) :: lostEntry, lostEntry.reverse],
        ofValue (.object ms) = .error (.member .incremental .entryWithoutPath))
      ∧ (∀ flag ∈ [.bool true, .number (.integer (-1)), doubleFlag true 1 (by decide),
        .string "0", .array [], .object []],
        ofValue (.object (flagged flag)) = .ok (flaggedResult true))
      ∧ ∀ flag ∈ [.null, .bool false, .number (.integer 0), doubleFlag true 0 (by decide),
        .string ""], ofValue (.object (flagged flag)) = .ok (flaggedResult false) := by
  have grammar := ofValue_grammar
  have hid : ∀ key ∈ memberKeys,
      lostEntry.lookup key = List.lookup key (("id", .null) :: lostEntry) := by
    intro key hkey
    have hne : key ≠ "id" := by
      rintro rfl
      exact absurd hkey (by decide)
    rw [List.lookup_cons, beq_false_of_ne hne]
  have hkeys : lostEntry.keys.Nodup := by decide
  have hreverse : lostEntry.Perm lostEntry.reverse := lostEntry.reverse_perm.symm
  have hlast : IsEntry (.object lastItem) := by
    have hindex : IsSegment (.number (.integer 18446744073709551615)) := ⟨by decide, by decide⟩
    refine ⟨⟨_, (grammar.null _ _ _).2 ⟨rfl, nofun⟩, ?_⟩, nofun⟩
    exact List.forall_mem_cons.2 ⟨trivial, List.forall_mem_singleton.2 hindex⟩
  have hbatch : shaped? "incremental" lostEntry
      = some (.array ([.object lastItem] ++ .object lostItems :: [.null])) := rfl
  have hfault : FirstFault lostEntry .incremental .entryWithoutPath :=
    .entry nofun nofun hbatch (List.forall_mem_singleton.2 hlast) (.noPath rfl)
  have hlost : ofValue (.object lostEntry) = .error (.member .incremental .entryWithoutPath) :=
    (grammar.refused _ _).2 (.inr ⟨_, _, _, rfl, hfault, rfl⟩)
  have hflagged {flag : Value} {hasNext : Bool} (hflag : flag.Truthy ↔ hasNext = true) :
      ofValue (.object (flagged flag)) = .ok (flaggedResult hasNext) := by
    refine (grammar.written _ _).2 ⟨_, rfl, rfl, rfl, ?_, rfl, rfl, rfl, ?_⟩
    · exact .some ⟨[lastItem], rfl, .cons ⟨rfl, rfl, rfl, rfl, rfl⟩ .nil⟩
    · have hlookup : List.lookup "hasNext" (flagged flag) = some flag := rfl
      simp [hlookup, flaggedResult, ← hflag]
  have hset {flag : Value} (h : flag.Truthy) :
      ofValue (.object (flagged flag)) = .ok (flaggedResult true) := hflagged (iff_of_true h rfl)
  have hunset {flag : Value} (h : ¬flag.Truthy) :
      ofValue (.object (flagged flag)) = .ok (flaggedResult false) :=
    hflagged (iff_of_false h nofun)
  refine ⟨hid, hkeys, hreverse, ?_, ?_, ?_⟩
  · simp only [List.forall_mem_cons, ← grammar.otherMembers _ _ hid,
      ← grammar.order _ _ hkeys hreverse, hlost, true_and]
    exact List.forall_mem_nil _
  · simp only [List.forall_mem_cons]
    exact ⟨hset .bool, hset (.integer (by decide)), hset (.double (by decide +kernel)),
      hset (.string (by decide)), hset (.array []), hset (.object []),
      List.forall_mem_nil _⟩
  · simp only [List.forall_mem_cons]
    refine ⟨hunset ?_, hunset ?_, hunset ?_, hunset ?_, hunset ?_,
      List.forall_mem_nil _⟩
    -- of the rules for values that are set, one at most is about the kind of the flag
    all_goals
      intro h
      cases h <;> contradiction

end ExecutionResult

end GraphqlClient.Response
