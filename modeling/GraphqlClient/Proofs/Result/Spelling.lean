import GraphqlClient.Proofs.Response.IndexNames
import GraphqlClient.Proofs.Result.Frame
import GraphqlClient.Proofs.Result.SameSite

/-!
# How the segments of a path are spelled

A walk asks a segment for nothing but its key and, at a list, its index, and the key tells the index
(`nameIndex?_key`). So a walk hangs on the keys of its path alone (`editAt_congr`), and an index may
be written as the name that is its text, or the other way round, in any number of places
(`mergeAt_insertItems_respelled`).

At a list, a walk goes on by a name as by the index that the name stands for
(`standsFor_of_asIndex`). A name that stands for none makes the walk drop the list
(`dropsLists_iff`). Numerals alone are meant to stand for an index, but one with a plus sign in
front of it does as well (`field_dropsLists_iff`), so that data for a member with such a name may
end up in an item of a list (`signedNumeral_reaches_item`).
-/

namespace GraphqlClient.Result

open Json Response

/-! ## Keys -/

section

variable {α : Type} {p q : Path}

theorem editChild_congr {s t : PathSegment} (h : s.key = t.key) (edit : Value → Value × Option α)
    (parent : Value) : editChild edit s parent = editChild edit t parent := by
  have hindex : s.asIndex = t.asIndex := PathSegment.asIndex_eq_of_key_eq h
  unfold editChild
  rw [hindex, h]

/-- Walks along paths with the same keys are the same. -/
theorem editAt_congr (h : p.map PathSegment.key = q.map PathSegment.key) (edit : Value → Value × α)
    (root : Value) : editAt edit p root = editAt edit q root := by
  -- as functions, since every step takes the rest of the walk for its edit
  have hwalk : editAt edit p = editAt edit q := by
    induction p generalizing q with
    | nil =>
      rw [List.map_eq_nil_iff.1 h.symm]
    | cons s p ih =>
      obtain ⟨t, q, rfl, hkey, hrest⟩ := List.map_eq_cons_iff.1 h.symm
      funext v
      rw [editAt, editAt, ih hrest.symm]
      exact editChild_congr hkey.symm _ v
  rw [hwalk]

theorem startIndex_congr (h : p.map PathSegment.key = q.map PathSegment.key) :
    startIndex p = startIndex q := by
  have hlast : p.getLast?.map PathSegment.key = q.getLast?.map PathSegment.key := by
    rw [← List.getLast?_map, h, List.getLast?_map]
  have hindex (path : Path) : path.getLast?.bind PathSegment.asIndex
      = (path.getLast?.map PathSegment.key).bind nameIndex? := by
    rw [Option.bind_map]
    exact congrArg path.getLast?.bind (funext fun s => s.nameIndex?_key.symm)
  rw [startIndex, startIndex, hindex, hindex, hlast]

end

/-- Indices of a path and the names that are their texts stand for each other: paths that differ in
nothing else take data, and items, to the same places with the same notices, whatever they meet on
their way. -/
theorem mergeAt_insertItems_respelled {p q : Path} (h : List.Forall₂ PathSegment.Respelled p q)
    (root : Value) :
    (∀ data, mergeAt p data root = mergeAt q data root)
      ∧ ∀ items, insertItems p items root = insertItems q items root := by
  have hkeys : p.map PathSegment.key = q.map PathSegment.key := by
    rw [← List.forall₂_eq_eq_eq, List.forall₂_map_left_iff, List.forall₂_map_right_iff]
    exact h.imp fun _ _ => PathSegment.respelled_iff.1
  have hsite : p.dropLast.map PathSegment.key = q.dropLast.map PathSegment.key := by
    rw [List.map_dropLast, hkeys, List.map_dropLast]
  constructor
  · intro data
    rw [mergeAt, mergeAt, editAt_congr hkeys]
  · intro items
    rw [insertItems, insertItems, startIndex_congr hkeys, editAt_congr hsite]

/-- A path that meets an object, a list, a null and what is created in its place. -/
def mixedPath : Path := [.field "list", .index 0, .field "7", .index 18446744073709551615]

/-- `mixedPath` with its indices as names and the name that is a number as an index. -/
def swappedPath : Path := [.field "list", .field "0", .index 7, .field "18446744073709551615"]

theorem mergeAt_insertItems_respelled_swappedPath :
    List.Forall₂ PathSegment.Respelled mixedPath swappedPath
      ∧ mergeAt mixedPath none shortList = mergeAt swappedPath none shortList
      ∧ insertItems mixedPath [.null] shortList = insertItems swappedPath [.null] shortList := by
  have h : List.Forall₂ PathSegment.Respelled mixedPath swappedPath :=
    .cons (.refl _) (.cons (.name 0) (.cons (.index 7) (.cons (.name _) .nil)))
  obtain ⟨hmerge, hinsert⟩ := mergeAt_insertItems_respelled h shortList
  exact ⟨h, hmerge none, hinsert [.null]⟩

/-! ## Names at a list -/

/-- A walk that comes to a list and goes on by the segment drops the list: in its place stands an
object with one member, which is what the rest of the walk makes of null. The walk of items ends
before the last segment of their path. -/
structure DropsLists (segment : PathSegment) : Prop where
  data : ∀ c rest list root data, valueAt? c root = some (.array list) →
    valueAt? c (mergeAt (c ++ segment :: rest) data root).1
      = some (.object [(segment.key, (mergeAt rest data .null).1)])
  items : ∀ c rest list root items, rest ≠ [] → valueAt? c root = some (.array list) →
    valueAt? c (insertItems (c ++ segment :: rest) items root).1
      = some (.object [(segment.key, (insertItems rest items .null).1)])

/-- At a list, the segment and the index stand for each other. -/
structure StandsFor (segment : PathSegment) (index : UInt64) : Prop where
  data : ∀ c rest list root data, valueAt? c root = some (.array list) →
    mergeAt (c ++ segment :: rest) data root = mergeAt (c ++ .index index :: rest) data root
  items : ∀ c rest list root items, valueAt? c root = some (.array list) →
    insertItems (c ++ segment :: rest) items root
      = insertItems (c ++ .index index :: rest) items root

section

variable {segment : PathSegment} {index : UInt64}

theorem update_array_of_asIndex_eq_none (h : segment.asIndex = none) (f : Value → Value)
    (rest : Path) (list : List Value) :
    update f (segment :: rest) (.array list) = .object [(segment.key, update f rest .null)] := by
  rw [update_cons]
  simp [isBeyond, setChild, childOrNull, child?, h]

/-- A walk that goes on from a list by an index leaves a list. -/
theorem exists_update_array (h : segment.asIndex = some index) (f : Value → Value) (rest : Path)
    (list : List Value) : ∃ list', update f (segment :: rest) (.array list) = .array list' := by
  rw [update_cons]
  split
  · exact ⟨list, rfl⟩
  · simp only [setChild, h]
    exact ⟨_, rfl⟩

theorem dropLast_append_cons {c rest : Path} (h : rest ≠ []) :
    (c ++ segment :: rest).dropLast = c ++ segment :: rest.dropLast := by
  rw [List.dropLast_append_of_ne_nil (List.cons_ne_nil _ _), List.dropLast_cons_of_ne_nil h]

theorem startIndex_append_cons {c rest : Path} (h : rest ≠ []) :
    startIndex (c ++ segment :: rest) = startIndex rest := by
  rw [startIndex, startIndex, List.append_cons, List.getLast?_append_of_ne_nil _ h]

/-- The segments that drop lists are those that stand for no index. -/
theorem dropsLists_iff : DropsLists segment ↔ segment.asIndex = none := by
  constructor
  · intro h
    cases hindex : segment.asIndex with
    | none => rfl
    | some index =>
      have hobject := h.data [] [] [] (.array []) none rfl
      rw [List.nil_append, mergeAt_fst] at hobject
      obtain ⟨list, hlist⟩ := exists_update_array hindex
        (fun v => mergeFields (asContainer v) none) [] []
      rw [hlist] at hobject
      cases hobject
  · intro h
    constructor
    · intro c rest list root data hlist
      rw [mergeAt_fst, mergeAt_fst, valueAt?_update_append _ hlist,
        update_array_of_asIndex_eq_none h]
    · intro c rest list root items hrest hlist
      rw [insertItems_fst, insertItems_fst, dropLast_append_cons hrest,
        startIndex_append_cons hrest, valueAt?_update_append _ hlist,
        update_array_of_asIndex_eq_none h]

/-- Walks that agree from a value on are the same from the root on. -/
theorem editAt_append_congr {α : Type} {edit : Value → Value × α} {c p q : Path} {root v : Value}
    (hv : valueAt? c root = some v) (h : editAt edit p v = editAt edit q v) :
    editAt edit (c ++ p) root = editAt edit (c ++ q) root := by
  induction c generalizing root with
  | nil =>
    cases hv
    exact h
  | cons s c ih =>
    obtain ⟨w, hw, hv⟩ := Option.bind_eq_some_iff.1 hv
    have hchild : childOrNull s root = w := by rw [childOrNull, hw, Option.getD_some]
    rw [List.cons_append, List.cons_append, editAt, editAt, editChild_eq, editChild_eq, hchild,
      ih hv]

theorem standsFor_of_asIndex (h : segment.asIndex = some index) : StandsFor segment index := by
  have hindex : (PathSegment.index index).asIndex = some index := rfl
  have hwalk {α : Type} (edit : Value → Value × α) (rest : Path) (list : List Value) :
      editAt edit (segment :: rest) (.array list)
        = editAt edit (.index index :: rest) (.array list) := by
    rw [editAt, editAt]
    simp only [editChild, h, hindex]
  constructor
  · intro c rest list root data hlist
    rw [mergeAt, mergeAt, editAt_append_congr hlist (hwalk _ rest list)]
  · intro c rest list root items hlist
    by_cases hrest : rest = []
    · -- the segment is the index of the first item and not on the way
      subst hrest
      rw [insertItems, insertItems, startIndex_concat c h, startIndex_concat c hindex,
        List.dropLast_concat, List.dropLast_concat]
    · rw [insertItems, insertItems, startIndex_append_cons hrest, startIndex_append_cons hrest,
        dropLast_append_cons hrest, dropLast_append_cons hrest,
        editAt_append_congr hlist (hwalk _ rest.dropLast list)]

end

/-- A name stands for an index if and only if it is a numeral, signed or not, and a walk goes on by
it from a list as by that index. So a name is read as it should be, for an index exactly if it is a
numeral, unless it is a signed one; and among the names with another character than digits the
signed numerals are those that do not drop lists. -/
theorem field_dropsLists_iff (name : String) :
    (∀ n, (PathSegment.field name).asIndex = some n ↔ IsNumeral name n ∨ IsSignedNumeral name n)
      ∧ (∀ n, (PathSegment.field name).asIndex = some n → StandsFor (.field name) n)
      ∧ ((∀ n, (PathSegment.field name).asIndex = some n ↔ IsNumeral name n)
        ↔ ∀ n, ¬IsSignedNumeral name n)
      ∧ ((∃ ch ∈ name.toList, ch.isDigit = false) →
        (DropsLists (.field name) ↔ ∀ n, ¬IsSignedNumeral name n)) := by
  have hindex (n : UInt64) : (PathSegment.field name).asIndex = some n
      ↔ IsNumeral name n ∨ IsSignedNumeral name n := nameIndex?_eq_some_iff
  refine ⟨hindex, fun n => standsFor_of_asIndex, ?_, ?_⟩
  · constructor
    · intro h n hsigned
      exact hsigned.not_isNumeral ((h n).1 ((hindex n).2 (.inr hsigned)))
    · intro h n
      rw [hindex, or_iff_left (h n)]
  · rintro ⟨ch, hmem, hch⟩
    have hnumeral (n : UInt64) : ¬IsNumeral name n := by
      intro h
      rw [h.isDigit ch hmem] at hch
      cases hch
    rw [dropsLists_iff, Option.eq_none_iff_forall_ne_some]
    exact forall_congr' fun n => not_congr ((hindex n).trans (or_iff_right (hnumeral n)))

/-- Two names with a sign in front of a digit. -/
theorem field_dropsLists_iff_signedZero :
    (∃ ch ∈ "+0".toList, ch.isDigit = false) ∧ IsSignedNumeral "+0" 0
      ∧ ¬DropsLists (.field "+0") ∧ StandsFor (.field "+0") 0
      ∧ (∃ ch ∈ "-0".toList, ch.isDigit = false) ∧ DropsLists (.field "-0") := by
  have hplus : ∃ ch ∈ "+0".toList, ch.isDigit = false := ⟨'+', by decide, by decide⟩
  have hminus : ∃ ch ∈ "-0".toList, ch.isDigit = false := ⟨'-', by decide, by decide⟩
  have hsigned : IsSignedNumeral "+0" 0 := ⟨['0'], by decide, .digit (d := 0) (by decide)⟩
  obtain ⟨hindex, hstands, -, hdrops⟩ := field_dropsLists_iff "+0"
  refine ⟨hplus, hsigned, ?_, hstands 0 ((hindex 0).2 (.inr hsigned)), hminus, ?_⟩
  · rw [hdrops hplus]
    intro hnone
    exact hnone 0 hsigned
  · rw [(field_dropsLists_iff "-0").2.2.2 hminus]
    rintro n ⟨ds, hds, -⟩
    have hhead : ("-0".toList).head? = some '+' := by rw [hds]; rfl
    exact absurd hhead (by decide)

/-- A name with another character than digits may stand for an index, and data for a member with
that name is written into an item of a list. -/
theorem signedNumeral_reaches_item :
    (PathSegment.field "+0").asIndex = some 0 ∧ (∀ n, ¬IsNumeral "+0" n)
      ∧ ¬DropsLists (.field "+0")
      ∧ (mergeAt [.field "list", .field "+0"] (some (.object [("first", .bool true)]))
          shortList).1
        = .object [("list", .array [.object [("first", .bool true)]]),
            ("name", .string "short")] := by
  have hsigned : IsSignedNumeral "+0" 0 := ⟨['0'], by decide, .digit (d := 0) (by decide)⟩
  have hindex : (PathSegment.field "+0").asIndex = some 0 :=
    nameIndex?_eq_some_iff.2 (.inr hsigned)
  refine ⟨hindex, fun n => hsigned.not_isNumeral, ?_, ?_⟩
  · rw [dropsLists_iff, hindex]
    exact nofun
  · have hwalk := (standsFor_of_asIndex hindex).data [.field "list"] [] [.null] shortList
      (some (.object [("first", .bool true)])) rfl
    exact congrArg Prod.fst hwalk

end GraphqlClient.Result
