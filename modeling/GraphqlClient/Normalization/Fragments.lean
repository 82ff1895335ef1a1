import GraphqlClient.Syntax.Writer

/-!
# First fragment of each name

Of the fragments of one name the first is kept. What is the same fragment is decided by the text it
is written as, always against the first one of the name.
-/

namespace GraphqlClient.Normalization

open Syntax

/-- The definitions that remain when fragments with a name that is seen are dropped, each fragment
that remains adding its own. -/
def dropRepeated : List Name → List Definition → List Definition
  | _, [] => []
  | seen, .operation o :: ds => .operation o :: dropRepeated seen ds
  | seen, .fragment f :: ds =>
    if f.name ∈ seen then dropRepeated seen ds
    else .fragment f :: dropRepeated (f.name :: seen) ds

/-- All definitions but the fragments whose name an earlier fragment has. -/
def dedupe (ds : List Definition) : List Definition := dropRepeated [] ds

/-- The fragments that remain have names that are not seen, each of them once. -/
theorem nodup_fragmentNames_dropRepeated (seen : List Name) (ds : List Definition) :
    (fragmentNames (dropRepeated seen ds)).Nodup
      ∧ ∀ n ∈ fragmentNames (dropRepeated seen ds), n ∉ seen := by
  fun_induction dropRepeated seen ds with
  | case1 => simp
  | case2 seen o ds ih => simpa using ih
  | case3 seen f ds h ih => exact ih
  | case4 seen f ds h ih => grind [fragmentNames_fragment_cons]

theorem nodup_fragmentNames_dedupe (ds : List Definition) : (fragmentNames (dedupe ds)).Nodup :=
  (nodup_fragmentNames_dropRepeated [] ds).1

/-- The names, in order, of fragments that differ from the first one of their name, given the texts
of the first ones so far. -/
def conflictsAfter : List (Name × String) → List Definition → List Name
  | _, [] => []
  | firsts, .operation _ :: ds => conflictsAfter firsts ds
  | firsts, .fragment f :: ds =>
    match firsts.lookup f.name with
    | none => conflictsAfter ((f.name, (Definition.fragment f).text) :: firsts) ds
    | some text =>
      if text = (Definition.fragment f).text then conflictsAfter firsts ds
      else f.name :: conflictsAfter firsts ds

/-- The names, in order, of fragments that differ from the first one of their name. -/
def conflicts (ds : List Definition) : List Name := conflictsAfter [] ds

end GraphqlClient.Normalization
