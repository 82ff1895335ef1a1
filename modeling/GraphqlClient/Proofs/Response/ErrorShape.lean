import GraphqlClient.Proofs.Response.Shape
import GraphqlClient.Response.GraphqlError

/-!
# The shape of errors

`IsError` says which members are read as an error as a whole, and `GraphqlError.Writes` what is read
from them, part by part. Of other members only the message is kept, so that no error is put together
of parts that were read and parts that were not; and the message is the same either way
(`GraphqlError.ofValue_parts`).

The four parts are read alike: an absent member gives the empty part, and one that is there has to
write the part (`Part`). What is proved of a reader is this, once for each (`…?_eq_some_iff`).
-/

namespace GraphqlClient.Response

open Json

/-! ## Shapes -/

/-- A whole number below `2 ^ 64`. -/
def IsIndex : Value → Prop
  | .number (.integer n) => 0 ≤ n ∧ n < UInt64.size
  | _ => False

/-- An object with a line and a column, or a list of the two. -/
def IsLocation : Value → Prop
  | .object ms => (∃ v ∈ ms.lookup "line", IsIndex v) ∧ ∃ v ∈ ms.lookup "column", IsIndex v
  | .array [line, column] => IsIndex line ∧ IsIndex column
  | _ => False

/-- A list of locations. -/
def IsLocations : Value → Prop
  | .array vs => ∀ v ∈ vs, IsLocation v
  | _ => False

/-- The members of an error, each of which has its shape if it is there. -/
structure IsError (ms : Members) : Prop where
  message : ∀ v ∈ ms.lookup "message", ∃ s, v = .string s
  locations : ∀ v ∈ ms.lookup "locations", IsLocations v
  path : ∀ v ∈ ms.lookup "path", IsPath v
  extensions : ∀ v ∈ ms.lookup "extensions", ∃ os, v = .object os

/-! ## What is read -/

/-- The value writes a location. Other members make no difference. -/
inductive Location.Writes : Value → Location → Prop
  | object {ms : Members} {l : Location} (line : ms.lookup "line" = some (indexValue l.line))
    (column : ms.lookup "column" = some (indexValue l.column)) : Writes (.object ms) l
  | list (l : Location) : Writes (.array [indexValue l.line, indexValue l.column]) l

/-- The value writes locations, one by one. -/
def WritesLocations (v : Value) (ls : List Location) : Prop :=
  ∃ vs, v = .array vs ∧ List.Forall₂ Location.Writes vs ls

/-- A part of an error is what its member writes, and empty if the member is absent. -/
def Part {α : Type} (writes : Value → α → Prop) (empty : α) : Option Value → α → Prop
  | none, a => a = empty
  | some v, a => writes v a

/-- The error holds what members write, part by part. -/
structure GraphqlError.Writes (ms : Members) (e : GraphqlError) : Prop where
  message : Part (fun v s => v = .string s) "" (ms.lookup "message") e.message
  locations : Part WritesLocations [] (ms.lookup "locations") e.locations
  path : Part (fun v path => v = pathValue path) [] (ms.lookup "path") e.path
  extensions : Part (fun v os => v = .object os) [] (ms.lookup "extensions") e.extensions

/-! ## Locations -/

theorem isIndex_iff {v : Value} : IsIndex v ↔ ∃ n, v = indexValue n := by
  simp only [← indexOfValue?_eq_some_iff]
  rcases v with _ | _ | (n | x) | _ | _ | _ <;> simp [IsIndex, PathSegment.indexOfValue?]

namespace Location

theorem ofMembers?_eq_some_iff {ms : Members} {l : Location} :
    ofMembers? ms = some l ↔ Writes (.object ms) l := by
  simp only [ofMembers?, bind, Option.bind_eq_some_iff, indexOfValue?_eq_some_iff]
  constructor
  · rintro ⟨line, ⟨_, hline, rfl⟩, column, ⟨_, hcolumn, rfl⟩, ⟨⟩⟩
    exact .object hline hcolumn
  · rintro (⟨hline, hcolumn⟩ | _)
    exact ⟨l.line, ⟨_, hline, rfl⟩, l.column, ⟨_, hcolumn, rfl⟩, rfl⟩

theorem ofValue?_eq_some_iff {v : Value} {l : Location} : ofValue? v = some l ↔ Writes v l := by
  cases v with
  | object ms => exact ofMembers?_eq_some_iff
  | array vs =>
    rcases vs with _ | ⟨line, _ | ⟨column, _ | ⟨w, vs⟩⟩⟩
    case cons.cons.nil =>
      simp only [ofValue?, bind, Option.bind_eq_some_iff, indexOfValue?_eq_some_iff]
      constructor
      · rintro ⟨line, rfl, column, rfl, ⟨⟩⟩
        exact .list ⟨line, column⟩
      · rintro ⟨⟩
        exact ⟨_, rfl, _, rfl, rfl⟩
    all_goals exact ⟨nofun, nofun⟩
  | _ => exact ⟨nofun, nofun⟩

theorem isLocation_iff {v : Value} : IsLocation v ↔ ∃ l, Writes v l := by
  cases v with
  | object ms =>
    simp only [IsLocation, isIndex_iff]
    constructor
    · rintro ⟨⟨_, hline, line, rfl⟩, _, hcolumn, column, rfl⟩
      exact ⟨⟨line, column⟩, .object hline hcolumn⟩
    · rintro ⟨l, ⟨hline, hcolumn⟩ | _⟩
      exact ⟨⟨_, hline, l.line, rfl⟩, _, hcolumn, l.column, rfl⟩
  | array vs =>
    rcases vs with _ | ⟨line, _ | ⟨column, _ | ⟨w, vs⟩⟩⟩
    case cons.cons.nil =>
      simp only [IsLocation, isIndex_iff]
      constructor
      · rintro ⟨⟨line, rfl⟩, column, rfl⟩
        exact ⟨_, .list ⟨line, column⟩⟩
      · rintro ⟨l, ⟨⟩⟩
        exact ⟨⟨_, rfl⟩, _, rfl⟩
    all_goals exact ⟨False.elim, nofun⟩
  | _ => exact ⟨False.elim, nofun⟩

end Location

theorem isLocations_iff {v : Value} : IsLocations v ↔ ∃ ls, WritesLocations v ls := by
  cases v with
  | array vs =>
    simp [IsLocations, WritesLocations, Location.isLocation_iff, Outcome.exists_forall₂_iff]
  | _ => simp [IsLocations, WritesLocations]

/-! ## Parts -/

section

variable {α : Type} {writes : Value → α → Prop} {empty : α} {member : Option Value}

/-- A part can be read exactly when its member, if it is there, writes one. -/
theorem exists_part_iff (empty : α) :
    (∃ a, Part writes empty member a) ↔ ∀ v ∈ member, ∃ a, writes v a := by
  cases member with
  | none => simp [Part]
  | some v => simp [Part]

/-- A reader that gives the empty part for an absent member reads parts. -/
theorem eq_some_iff_part (read : Option Value → Option α) (habsent : read none = some empty)
    (hread : ∀ v a, read (some v) = some a ↔ writes v a) {a : α} :
    read member = some a ↔ Part writes empty member a := by
  cases member with
  | none => rw [habsent, Part, Option.some.injEq, eq_comm]
  | some v => exact hread v a

end

namespace GraphqlError

theorem message?_eq_some_iff {member : Option Value} {s : String} :
    message? member = some s ↔ Part (fun v s => v = .string s) "" member s := by
  refine eq_some_iff_part message? rfl fun v a => ?_
  cases v <;> simp [message?]

theorem locations?_eq_some_iff {member : Option Value} {ls : List Location} :
    locations? member = some ls ↔ Part WritesLocations [] member ls := by
  refine eq_some_iff_part locations? rfl fun v a => ?_
  cases v with
  | array vs =>
    simp [locations?, WritesLocations, Outcome.mapM_eq_some_iff, Location.ofValue?_eq_some_iff]
  | _ => simp [locations?, WritesLocations]

theorem path?_eq_some_iff {member : Option Value} {path : Path} :
    path? member = some path ↔ Part (fun v path => v = pathValue path) [] member path := by
  refine eq_some_iff_part path? rfl fun v a => ?_
  rw [← readPath_eq_ok_iff, path?]
  cases readPath v <;> simp [Except.toOption]

theorem extensions?_eq_some_iff {member : Option Value} {os : Members} :
    extensions? member = some os ↔ Part (fun v os => v = .object os) [] member os := by
  refine eq_some_iff_part extensions? rfl fun v a => ?_
  cases v <;> simp [extensions?]

theorem ofMembers?_eq_some_iff {ms : Members} {e : GraphqlError} :
    ofMembers? ms = some e ↔ e.Writes ms := by
  simp only [ofMembers?, bind, Option.bind_eq_some_iff, message?_eq_some_iff,
    locations?_eq_some_iff, path?_eq_some_iff, extensions?_eq_some_iff]
  constructor
  · rintro ⟨message, hmessage, locations, hlocations, path, hpath, extensions, hextensions, ⟨⟩⟩
    exact ⟨hmessage, hlocations, hpath, hextensions⟩
  · intro h
    exact ⟨_, h.message, _, h.locations, _, h.path, _, h.extensions, rfl⟩

/-- Members can be read as an error exactly when each has its shape. -/
theorem isError_iff {ms : Members} : IsError ms ↔ ∃ e : GraphqlError, e.Writes ms := by
  constructor
  · intro h
    obtain ⟨message, hmessage⟩ := (exists_part_iff "").2 h.message
    obtain ⟨locations, hlocations⟩ :=
      (exists_part_iff []).2 fun v hv => isLocations_iff.1 (h.locations v hv)
    obtain ⟨path, hpath⟩ := (exists_part_iff []).2 fun v hv => isPath_iff.1 (h.path v hv)
    obtain ⟨extensions, hextensions⟩ := (exists_part_iff []).2 h.extensions
    exact ⟨⟨message, locations, path, extensions⟩, hmessage, hlocations, hpath, hextensions⟩
  · rintro ⟨e, h⟩
    constructor
    · exact (exists_part_iff "").1 ⟨_, h.message⟩
    · exact fun v hv => isLocations_iff.2 ((exists_part_iff []).1 ⟨_, h.locations⟩ v hv)
    · exact fun v hv => isPath_iff.2 ((exists_part_iff []).1 ⟨_, h.path⟩ v hv)
    · exact (exists_part_iff []).1 ⟨_, h.extensions⟩

/-! ## Whole errors -/

theorem ofValue_of_writes {ms : Members} {e : GraphqlError} (h : e.Writes ms) :
    ofValue (.object ms) = e := by
  rw [ofValue, ofMembers?_eq_some_iff.2 h, Option.getD_some]

/-- Of members that are no error only the message is kept, if it is one. -/
theorem ofValue_of_not_isError {ms : Members} (h : ¬IsError ms) :
    ofValue (.object ms) = bare ((message? (ms.lookup "message")).getD "") := by
  have hnone : ofMembers? ms = none := by
    rw [Option.eq_none_iff_forall_ne_some]
    exact fun e he => h (isError_iff.2 ⟨e, ofMembers?_eq_some_iff.1 he⟩)
  rw [ofValue, hnone, Option.getD_none]

theorem message_ofValue_object (ms : Members) :
    (ofValue (.object ms)).message = (message? (ms.lookup "message")).getD "" := by
  by_cases h : IsError ms
  · obtain ⟨e, he⟩ := isError_iff.1 h
    rw [ofValue_of_writes he, message?_eq_some_iff.2 he.message, Option.getD_some]
  · rw [ofValue_of_not_isError h, bare]

theorem ofValue_congr {ms ns : Members}
    (h : ∀ key ∈ memberKeys, ms.lookup key = ns.lookup key) :
    ofValue (.object ms) = ofValue (.object ns) := by
  rw [ofValue, ofValue, ofMembers?, ofMembers?, h "message" (by decide), h "locations" (by decide),
    h "path" (by decide), h "extensions" (by decide)]

/-- What `read` makes of any value. -/
structure Parts (read : Value → GraphqlError) : Prop where
  string : ∀ s, read (.string s) = bare s
  /-- Of a value that is neither a string nor an object the text is kept. -/
  text : ∀ v, (∀ s, v ≠ .string s) → (∀ ms, v ≠ .object ms) → read v = bare v.toText
  message : ∀ ms s, ms.lookup "message" = some (.string s) → (read (.object ms)).message = s
  noMessage : ∀ ms : Members, (∀ s, ms.lookup "message" ≠ some (.string s)) →
    (read (.object ms)).message = ""
  /-- Where all members have their shapes, what is read is what they write, and nothing else is. -/
  whole : ∀ ms, IsError ms → (read (.object ms)).Writes ms
  unique : ∀ ms e, e.Writes ms → read (.object ms) = e
  /-- Where one member is misshapen, none of these parts is read. -/
  misshapen : ∀ ms, ¬IsError ms → (read (.object ms)).locations = []
    ∧ (read (.object ms)).path = [] ∧ (read (.object ms)).extensions = []
  otherMembers : ∀ ms ns : Members, (∀ key ∈ memberKeys, ms.lookup key = ns.lookup key) →
    read (.object ms) = read (.object ns)
  order : ∀ ms ns : Members, ms.keys.Nodup → ms.Perm ns → read (.object ms) = read (.object ns)

/-- What is read of any value: a string is the message of an error that has nothing else, and so is
the text of a value that is neither a string nor an object. Of an object the message is read
whatever the other members are, and the other parts all together or not at all. Members with other
keys and the order of members make no difference. -/
theorem ofValue_parts : Parts ofValue where
  string _ := rfl
  text v hstring hobject := by
    cases v with
    | string s => exact absurd rfl (hstring s)
    | object ms => exact absurd rfl (hobject ms)
    | _ => rfl
  message ms s h := by
    rw [message_ofValue_object, h]
    rfl
  noMessage ms h := by
    rw [message_ofValue_object]
    rcases hlookup : ms.lookup "message" with _ | (_ | _ | _ | s | _ | _)
    case some.string => exact absurd hlookup (h s)
    all_goals rfl
  whole ms h := by
    obtain ⟨e, he⟩ := isError_iff.1 h
    rwa [ofValue_of_writes he]
  unique _ _ := ofValue_of_writes
  misshapen ms h := by
    rw [ofValue_of_not_isError h]
    exact ⟨rfl, rfl, rfl⟩
  otherMembers _ _ := ofValue_congr
  order _ _ keys h := ofValue_congr fun _ _ => Lookup.lookup_eq_of_perm keys h

/-- Members with a location of each form and a member that is not known. -/
def twoLocations : Members :=
  [("id", .bool true), ("message", .string ""),
    ("locations", .array [
      .array [.number (.integer 1), .number (.integer 2)],
      .object [("file", .null), ("column", .number (.integer 0)),
        ("line", .number (.integer 18446744073709551615))]])]

/-- The locations of `twoLocations`. -/
def locatedError : GraphqlError := ⟨"", [⟨1, 2⟩, ⟨18446744073709551615, 0⟩], [], []⟩

/-- Members with a location that has no column. -/
def lostColumn : Members :=
  [("path", .array [.string "a"]), ("locations", .array [.object [("line", .number (.integer 1))]]),
    ("message", .string "late")]

theorem ofValue_parts_twoLocations :
    IsError twoLocations ∧ locatedError.Writes twoLocations
      ∧ (∀ key ∈ memberKeys, twoLocations.lookup key = List.lookup key twoLocations.tail)
      ∧ twoLocations.keys.Nodup ∧ twoLocations.Perm twoLocations.reverse
      ∧ (∀ ms ∈ [twoLocations, twoLocations.tail, twoLocations.reverse],
        ofValue (.object ms) = locatedError)
      ∧ ¬IsError lostColumn ∧ (ofValue (.object lostColumn)).message = "late"
      ∧ (ofValue (.object lostColumn)).path = []
      ∧ (ofValue (.object [("message", .null)])).message = ""
      ∧ ofValue (.array [.null]) = bare "[null]" := by
  have parts := ofValue_parts
  have hlocations : WritesLocations (.array [
      .array [.number (.integer 1), .number (.integer 2)],
      .object [("file", .null), ("column", .number (.integer 0)),
        ("line", .number (.integer 18446744073709551615))]])
      [⟨1, 2⟩, ⟨18446744073709551615, 0⟩] :=
    ⟨_, rfl, .cons (.list ⟨1, 2⟩) (.cons (.object rfl rfl) .nil)⟩
  have herror : locatedError.Writes twoLocations := ⟨rfl, hlocations, rfl, rfl⟩
  have hid : ∀ key ∈ memberKeys, twoLocations.lookup key = List.lookup key twoLocations.tail := by
    intro key hkey
    have hne : key ≠ "id" := by
      rintro rfl
      exact absurd hkey (by decide)
    rw [twoLocations, List.lookup_cons, beq_false_of_ne hne]
    rfl
  have hkeys : twoLocations.keys.Nodup := by decide
  have hreverse : twoLocations.Perm twoLocations.reverse := twoLocations.reverse_perm.symm
  have hvalue : ofValue (.object twoLocations) = locatedError := parts.unique _ _ herror
  have hlost : ¬IsError lostColumn := by
    intro h
    obtain ⟨-, v, ⟨⟩, -⟩ := h.locations _ rfl _ List.mem_cons_self
  refine ⟨isError_iff.2 ⟨_, herror⟩, herror, hid, hkeys, hreverse, ?_, hlost,
    parts.message lostColumn "late" rfl, (parts.misshapen _ hlost).2.1, parts.noMessage _ nofun,
    parts.text (.array [.null]) nofun nofun⟩
  simp only [List.forall_mem_cons, ← parts.otherMembers _ _ hid,
    ← parts.order _ _ hkeys hreverse, hvalue, true_and]
  exact nofun

end GraphqlError

end GraphqlClient.Response
