import GraphqlClient.Normalization.Fragments
import Mathlib.Data.List.Induction

/-!
# Laws of keeping first fragments

A definition remains if it is no fragment or no fragment before it has its name (`dedupe_eq`), so
that every name is left with the fragment that had it first (`fragment?_dedupe`). `KeepsFirsts` puts
together what remains of a list.

Dropping repeated fragments from a part of a list first changes nothing in the end
(`dedupe_append_dedupe`): whatever an earlier pass drops has a name that stays seen.

A fragment conflicts if it is written differently from the first one of its name in the whole list
(`conflicts_eq`). The table of texts is never behind: it holds the first fragments of what was gone
through, and a first fragment comes before all others of its name.
-/

namespace GraphqlClient.Normalization

open Syntax

/-! ## What remains -/

theorem dropRepeated_sublist (seen : List Name) (ds : List Definition) :
    List.Sublist (dropRepeated seen ds) ds := by
  fun_induction dropRepeated seen ds with
  | case1 seen => exact List.Sublist.refl _
  | case2 seen o ds ih => exact ih.cons_cons _
  | case3 seen f ds h ih => exact ih.cons _
  | case4 seen f ds h ih => exact ih.cons_cons _

theorem mem_of_mem_dedupe {ds : List Definition} {d : Definition} (h : d ∈ dedupe ds) : d ∈ ds :=
  (dropRepeated_sublist [] ds).subset h

theorem dedupe_ne_nil {ds : List Definition} (h : ds ≠ []) : dedupe ds ≠ [] := by
  obtain ⟨d, ds, rfl⟩ := List.exists_cons_of_ne_nil h
  cases d with
  | operation o => exact List.cons_ne_nil _ _
  | fragment f => exact List.cons_ne_nil _ _

/-! ## A pass over two parts -/

/-- Which names are seen matters to a pass, not how they are listed. -/
theorem dropRepeated_congr {seen seen' : List Name} (h : ∀ n, n ∈ seen ↔ n ∈ seen')
    (ds : List Definition) : dropRepeated seen ds = dropRepeated seen' ds := by
  induction ds generalizing seen seen' with
  | nil => rfl
  | cons d ds ih =>
    cases d with
    | operation o => rw [dropRepeated, dropRepeated, ih h]
    | fragment f =>
      have hnext : ∀ n, n ∈ f.name :: seen ↔ n ∈ f.name :: seen' := by
        intro n
        rw [List.mem_cons, List.mem_cons, h]
      simp only [dropRepeated, h f.name, ih h, ih hnext]

/-- Behind a part, a pass goes on with the names of that part seen. -/
theorem dropRepeated_append (seen : List Name) (xs ys : List Definition) :
    dropRepeated seen (xs ++ ys)
      = dropRepeated seen xs ++ dropRepeated (fragmentNames xs ++ seen) ys := by
  induction xs generalizing seen with
  | nil => rfl
  | cons d xs ih =>
    cases d with
    | operation o => simp only [List.cons_append, dropRepeated, ih, fragmentNames_operation_cons]
    | fragment f =>
      simp only [List.cons_append, dropRepeated, fragmentNames_fragment_cons]
      by_cases hseen : f.name ∈ seen
      · have hnames : ∀ n, n ∈ fragmentNames xs ++ seen
            ↔ n ∈ f.name :: (fragmentNames xs ++ seen) := by
          intro n
          rw [List.mem_cons]
          refine ⟨.inr, ?_⟩
          rintro (rfl | h)
          · exact List.mem_append_right _ hseen
          · exact h
        rw [if_pos hseen, if_pos hseen, ih, dropRepeated_congr hnames]
      · have hnames : ∀ n, n ∈ fragmentNames xs ++ f.name :: seen
            ↔ n ∈ f.name :: (fragmentNames xs ++ seen) := by
          intro n
          simp only [List.mem_append, List.mem_cons]
          exact or_left_comm
        rw [if_neg hseen, if_neg hseen, ih, dropRepeated_congr hnames, List.cons_append]

/-- A pass leaves definitions as they are if no name among them is repeated or seen. -/
theorem dropRepeated_eq_self {seen : List Name} {ds : List Definition}
    (hnodup : (fragmentNames ds).Nodup) (hseen : ∀ n ∈ fragmentNames ds, n ∉ seen) :
    dropRepeated seen ds = ds := by
  induction ds generalizing seen with
  | nil => rfl
  | cons d ds ih =>
    cases d with
    | operation o => rw [dropRepeated, ih hnodup hseen]
    | fragment f =>
      rw [fragmentNames_fragment_cons] at hnodup hseen
      obtain ⟨hnot, hnodup⟩ := List.nodup_cons.1 hnodup
      obtain ⟨hf, hseen⟩ := List.forall_mem_cons.1 hseen
      have hnext : ∀ n ∈ fragmentNames ds, n ∉ f.name :: seen := by
        intro n hn
        exact List.not_mem_cons_of_ne_of_not_mem (ne_of_mem_of_not_mem hn hnot) (hseen n hn)
      rw [dropRepeated, if_neg hf, ih hnodup hnext]

/-- Nothing remains of fragments with names that are seen. -/
theorem dropRepeated_eq_nil {seen : List Name} {ds : List Definition}
    (h : ∀ x ∈ ds, ∃ n ∈ seen, x.fragmentName? = some n) : dropRepeated seen ds = [] := by
  induction ds with
  | nil => rfl
  | cons d ds ih =>
    obtain ⟨⟨n, hn, hname⟩, hds⟩ := List.forall_mem_cons.1 h
    cases d with
    | operation o => cases hname
    | fragment f =>
      obtain rfl : f.name = n := Option.some.inj hname
      rw [dropRepeated, if_pos hn, ih hds]

/-- Behind definitions of which none is repeated, fragments with their names are dropped. -/
theorem dedupe_append_of_named {ds rest : List Definition} (hnodup : (fragmentNames ds).Nodup)
    (hrest : ∀ x ∈ rest, ∃ n ∈ fragmentNames ds, x.fragmentName? = some n) :
    dedupe (ds ++ rest) = ds := by
  rw [dedupe, dropRepeated_append, List.append_nil, dropRepeated_eq_nil hrest, List.append_nil]
  exact dropRepeated_eq_self hnodup fun _ _ => List.not_mem_nil

/-! ## Two passes -/

/-- A pass that has seen no more names may go first over a part in front. -/
theorem dropRepeated_dropRepeated_append {seen seen' : List Name} (h : ∀ n ∈ seen', n ∈ seen)
    (xs ys : List Definition) :
    dropRepeated seen (dropRepeated seen' xs ++ ys) = dropRepeated seen (xs ++ ys) := by
  induction xs generalizing seen seen' with
  | nil => rfl
  | cons d xs ih =>
    cases d with
    | operation o =>
      simp only [dropRepeated, List.cons_append]
      rw [ih h]
    | fragment f =>
      by_cases hseen' : f.name ∈ seen'
      · have hseen := h _ hseen'
        simp only [dropRepeated, List.cons_append, if_pos hseen', if_pos hseen]
        exact ih h
      · simp only [dropRepeated, List.cons_append, if_neg hseen']
        by_cases hseen : f.name ∈ seen
        · have hsub : ∀ n ∈ f.name :: seen', n ∈ seen := List.forall_mem_cons.2 ⟨hseen, h⟩
          rw [if_pos hseen, if_pos hseen]
          exact ih hsub
        · have hsub : ∀ n ∈ f.name :: seen', n ∈ f.name :: seen :=
            List.forall_mem_cons.2 ⟨List.mem_cons_self, fun n hn => List.mem_cons_of_mem _ (h n hn)⟩
          rw [if_neg hseen, if_neg hseen, ih hsub]

/-- Lists that every pass leaves equal may stand for one another behind anything. -/
theorem dropRepeated_append_congr {xs ys : List Definition}
    (h : ∀ seen, dropRepeated seen xs = dropRepeated seen ys) (seen : List Name)
    (before : List Definition) :
    dropRepeated seen (before ++ xs) = dropRepeated seen (before ++ ys) := by
  rw [dropRepeated_append, dropRepeated_append, h]

/-- Dropping repeated fragments from a part first changes nothing. -/
theorem dedupe_append_dedupe (before part after : List Definition) :
    dedupe (before ++ (dedupe part ++ after)) = dedupe (before ++ (part ++ after)) := by
  refine dropRepeated_append_congr (fun seen => ?_) [] before
  exact dropRepeated_dropRepeated_append (fun _ hn => absurd hn List.not_mem_nil) part after

theorem dedupe_dedupe (ds : List Definition) : dedupe (dedupe ds) = dedupe ds := by
  have h := dedupe_append_dedupe [] ds []
  rwa [List.append_nil, List.append_nil] at h

/-! ## Places -/

/-- The definition is no fragment, or one with a name that no fragment before it has. -/
def isNew (before : List Definition) (d : Definition) : Bool :=
  d.fragmentName?.all fun n => n ∉ fragmentNames before

theorem dedupe_concat (ds : List Definition) (d : Definition) :
    dedupe (ds ++ [d]) = dedupe ds ++ if isNew ds d then [d] else [] := by
  rw [dedupe, dropRepeated_append, List.append_nil, dedupe]
  congr 1
  cases d with
  | operation o => rfl
  | fragment f =>
    by_cases h : f.name ∈ fragmentNames ds <;>
      simp [dropRepeated, isNew, Definition.fragmentName?, h]

/-- Exactly the definitions remain that are new behind those before them. -/
theorem dedupe_eq (ds : List Definition) :
    dedupe ds = (ds.zipIdx.filter fun p => isNew (ds.take p.2) p.1).map Prod.fst := by
  induction ds using List.reverseRecOn with
  | nil => rfl
  | append_singleton ds d ih =>
    have hfront : ∀ p ∈ ds.zipIdx, isNew ((ds ++ [d]).take p.2) p.1 = isNew (ds.take p.2) p.1 := by
      intro p hp
      have hlt : p.2 < ds.length := by simpa using List.snd_lt_of_mem_zipIdx hp
      rw [List.take_append_of_le_length (Nat.le_of_lt hlt)]
    rw [dedupe_concat, ih, List.zipIdx_append, List.filter_append, List.map_append,
      List.filter_congr hfront, Nat.zero_add, List.zipIdx_singleton, List.filter_cons,
      List.take_left]
    split <;> rfl

/-! ## The first fragment of a name -/

/-- The first fragment of a name. -/
def fragment? (n : Name) (ds : List Definition) : Option Definition :=
  ds.find? fun d => d.fragmentName? = some n

theorem fragment?_append (n : Name) (xs ys : List Definition) :
    fragment? n (xs ++ ys) = (fragment? n xs).or (fragment? n ys) :=
  List.find?_append

@[simp] theorem fragment?_nil (n : Name) : fragment? n [] = none := rfl

@[simp] theorem fragment?_operation_cons (n : Name) (o : Operation) (ds : List Definition) :
    fragment? n (.operation o :: ds) = fragment? n ds := rfl

theorem fragment?_fragment_cons (n : Name) (f : Fragment) (ds : List Definition) :
    fragment? n (.fragment f :: ds) = if f.name = n then some (.fragment f) else fragment? n ds := by
  rw [fragment?, List.find?_cons]
  by_cases h : f.name = n <;> simp [Definition.fragmentName?, h, fragment?]

theorem fragment?_eq_none_iff {n : Name} {ds : List Definition} :
    fragment? n ds = none ↔ n ∉ fragmentNames ds := by
  simp [fragment?, fragmentNames]

theorem exists_of_fragment? {n : Name} {ds : List Definition} {d : Definition}
    (h : fragment? n ds = some d) : ∃ f : Fragment, d = .fragment f ∧ f.name = n ∧ d ∈ ds := by
  have hname : d.fragmentName? = some n := by simpa using List.find?_some h
  cases d with
  | operation o => cases hname
  | fragment f => exact ⟨f, rfl, Option.some.inj hname, List.mem_of_find?_eq_some h⟩

/-- A pass leaves a name that is not seen with its first fragment. -/
theorem fragment?_dropRepeated {seen : List Name} {n : Name} (h : n ∉ seen) (ds : List Definition) :
    fragment? n (dropRepeated seen ds) = fragment? n ds := by
  induction ds generalizing seen with
  | nil => rfl
  | cons d ds ih =>
    cases d with
    | operation o => exact ih h
    | fragment f =>
      rw [dropRepeated, fragment?_fragment_cons]
      by_cases hseen : f.name ∈ seen
      · have hne : f.name ≠ n := fun hname => h (hname ▸ hseen)
        rw [if_pos hseen, if_neg hne, ih h]
      · rw [if_neg hseen, fragment?_fragment_cons]
        by_cases hname : f.name = n
        · rw [if_pos hname, if_pos hname]
        · have hnext : n ∉ f.name :: seen := List.not_mem_cons_of_ne_of_not_mem (Ne.symm hname) h
          rw [if_neg hname, if_neg hname, ih hnext]

theorem fragment?_dedupe (n : Name) (ds : List Definition) :
    fragment? n (dedupe ds) = fragment? n ds :=
  fragment?_dropRepeated List.not_mem_nil ds

theorem mem_fragmentNames_dedupe {n : Name} {ds : List Definition} :
    n ∈ fragmentNames (dedupe ds) ↔ n ∈ fragmentNames ds := by
  rw [← not_iff_not, ← fragment?_eq_none_iff, ← fragment?_eq_none_iff, fragment?_dedupe]

/-- Where no name is repeated, every fragment is the first one of its name. -/
theorem fragment?_of_mem {ds : List Definition} (hnodup : (fragmentNames ds).Nodup) {f : Fragment}
    (hf : .fragment f ∈ ds) : fragment? f.name ds = some (.fragment f) := by
  induction ds with
  | nil => cases hf
  | cons d ds ih =>
    cases d with
    | operation o =>
      rcases List.mem_cons.1 hf with h | hf
      · cases h
      · exact ih hnodup hf
    | fragment g =>
      rw [fragmentNames_fragment_cons] at hnodup
      obtain ⟨hnot, hnodup⟩ := List.nodup_cons.1 hnodup
      rw [fragment?_fragment_cons]
      rcases List.mem_cons.1 hf with h | hf
      · cases h
        exact if_pos rfl
      · have hne : g.name ≠ f.name := by
          intro hname
          rw [hname] at hnot
          exact hnot (List.mem_filterMap.2 ⟨_, hf, rfl⟩)
        rw [if_neg hne, ih hnodup hf]

/-! ## All that remains -/

theorem filter_dropRepeated (seen : List Name) (ds : List Definition) :
    (dropRepeated seen ds).filter (fun d => d.fragmentName?.isNone)
      = ds.filter fun d => d.fragmentName?.isNone := by
  fun_induction dropRepeated seen ds with
  | case1 seen => rfl
  | case2 seen o ds ih => exact congrArg (Definition.operation o :: ·) ih
  | case3 seen f ds h ih => exact ih
  | case4 seen f ds h ih => exact ih

/-- What remains of definitions when the first fragment of each name is kept. -/
structure KeepsFirsts (ds kept : List Definition) : Prop where
  /-- A definition remains, in its place, unless it is a fragment and one before it has its name. -/
  places : kept = (ds.zipIdx.filter fun p => isNew (ds.take p.2) p.1).map Prod.fst
  sublist : kept.Sublist ds
  /-- All operations remain, equal ones too. -/
  operations : kept.filter (fun d => d.fragmentName?.isNone)
    = ds.filter fun d => d.fragmentName?.isNone
  nodup : (fragmentNames kept).Nodup
  names : ∀ n, n ∈ fragmentNames kept ↔ n ∈ fragmentNames ds
  /-- A name is left with the fragment that had it first. -/
  firsts : ∀ n, fragment? n kept = fragment? n ds

theorem keepsFirsts_dedupe (ds : List Definition) : KeepsFirsts ds (dedupe ds) where
  places := dedupe_eq ds
  sublist := dropRepeated_sublist [] ds
  operations := filter_dropRepeated [] ds
  nodup := nodup_fragmentNames_dedupe ds
  names _ := mem_fragmentNames_dedupe
  firsts n := fragment?_dedupe n ds

/-! ## Conflicts -/

/-- The definition is a fragment that is written differently from the first one of its name. -/
def differsFromFirst (ds : List Definition) (d : Definition) : Bool :=
  d.fragmentName?.any fun n => (fragment? n ds).any fun first => first.text ≠ d.text

theorem differsFromFirst_fragment (ds : List Definition) (f : Fragment) :
    differsFromFirst ds (.fragment f)
      = (fragment? f.name ds).any fun first => first.text ≠ (Definition.fragment f).text := rfl

/-- The table has the texts of the first fragments of definitions, by their names. -/
def Tabulates (firsts : List (Name × String)) (ds : List Definition) : Prop :=
  ∀ n, firsts.lookup n = (fragment? n ds).map Definition.text

namespace Tabulates

variable {firsts : List (Name × String)} {before : List Definition}

theorem operation (h : Tabulates firsts before) (o : Operation) :
    Tabulates firsts (before ++ [.operation o]) := by
  intro n
  rw [fragment?_append, fragment?_operation_cons, fragment?_nil, Option.or_none, h]

/-- A fragment with a new name is entered. -/
theorem first (h : Tabulates firsts before) {f : Fragment} (hf : fragment? f.name before = none) :
    Tabulates ((f.name, (Definition.fragment f).text) :: firsts) (before ++ [.fragment f]) := by
  intro n
  rw [List.lookup_cons, fragment?_append, fragment?_fragment_cons]
  by_cases hn : n = f.name
  · subst hn
    simp [hf]
  · simp [beq_false_of_ne hn, Ne.symm hn, h n]

/-- A fragment behind the first one of its name is not entered. -/
theorem repeated (h : Tabulates firsts before) {f : Fragment} {d : Definition}
    (hf : fragment? f.name before = some d) : Tabulates firsts (before ++ [.fragment f]) := by
  intro n
  rw [fragment?_append, fragment?_fragment_cons, h]
  by_cases hn : f.name = n
  · rw [← hn, hf, Option.some_or]
  · rw [if_neg hn, fragment?_nil, Option.or_none]

end Tabulates

/-- With the texts of the first fragments so far in the table, what follows is compared with the
first fragments of all. -/
theorem conflictsAfter_eq {firsts : List (Name × String)} {before : List Definition}
    (h : Tabulates firsts before) (ds : List Definition) :
    conflictsAfter firsts ds = fragmentNames (ds.filter (differsFromFirst (before ++ ds))) := by
  induction ds generalizing firsts before with
  | nil => rfl
  | cons d ds ih =>
    have hall : before ++ d :: ds = before ++ [d] ++ ds := List.append_cons before d ds
    cases d with
    | operation o =>
      rw [hall]
      exact ih (h.operation o)
    | fragment f =>
      have hfirst : fragment? f.name (before ++ .fragment f :: ds)
          = (fragment? f.name before).or (some (.fragment f)) := by
        rw [fragment?_append, fragment?_fragment_cons, if_pos rfl]
      rw [conflictsAfter, h, List.filter_cons, differsFromFirst_fragment, hfirst, hall]
      cases hbefore : fragment? f.name before with
      | none => simpa using ih (h.first hbefore)
      | some first =>
        have hrest := ih (h.repeated hbefore)
        by_cases htext : first.text = (Definition.fragment f).text
        · simp [htext, hrest]
        · simp [htext, hrest]

/-- The conflicts are the fragments that differ from the first one of their name in all the
definitions, one by one in order. -/
theorem conflicts_eq (ds : List Definition) :
    conflicts ds = fragmentNames (ds.filter (differsFromFirst ds)) :=
  @conflictsAfter_eq [] [] (fun _ => rfl) ds

/-- There are no conflicts if every fragment is written like the first one of its name. -/
theorem conflicts_eq_nil {ds : List Definition}
    (h : ∀ f : Fragment, .fragment f ∈ ds → ∀ first ∈ fragment? f.name ds,
      first.text = (Definition.fragment f).text) : conflicts ds = [] := by
  have hnone : ds.filter (differsFromFirst ds) = [] := by
    rw [List.filter_eq_nil_iff]
    intro d hd
    cases d with
    | operation o => exact Bool.false_ne_true
    | fragment f =>
      have hsame := h f hd
      rw [differsFromFirst_fragment]
      cases hfirst : fragment? f.name ds with
      | none => exact Bool.false_ne_true
      | some first =>
        rw [hfirst] at hsame
        simp [hsame first rfl]
  rw [conflicts_eq, hnone, fragmentNames_nil]

/-- Copies of definitions of which none is repeated do not conflict with them. -/
theorem conflicts_append_of_subset {ds rest : List Definition} (hnodup : (fragmentNames ds).Nodup)
    (hrest : ∀ x ∈ rest, x ∈ ds) : conflicts (ds ++ rest) = [] := by
  apply conflicts_eq_nil
  intro f hf first hfirst
  have hmem : .fragment f ∈ ds := (List.mem_append.1 hf).elim id (hrest _)
  rw [fragment?_append, fragment?_of_mem hnodup hmem] at hfirst
  cases hfirst
  rfl

/-- What remains has no conflicts. -/
theorem conflicts_dedupe (ds : List Definition) : conflicts (dedupe ds) = [] := by
  have h := conflicts_append_of_subset (nodup_fragmentNames_dedupe ds) (List.forall_mem_nil _)
  rwa [List.append_nil] at h

end GraphqlClient.Normalization
