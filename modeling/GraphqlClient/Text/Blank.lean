import GraphqlClient.Text.CodeRange

/-!
# White space

The characters with the Unicode property White_Space, in version 17 of the standard.
-/

namespace GraphqlClient.Text

/-- The ranges of white space, ascending. -/
def blankRanges : CodeRanges :=
  [(0x09, 0x0D), (0x20, 0x20), (0x85, 0x85), (0xA0, 0xA0), (0x1680, 0x1680), (0x2000, 0x200A),
   (0x2028, 0x2029), (0x202F, 0x202F), (0x205F, 0x205F), (0x3000, 0x3000)]

/-- White space. -/
def isWhiteSpace (c : Char) : Bool := blankRanges.contain c.toNat

/-- Whether a text holds white space only. -/
def isBlankText (s : String) : Bool := s.toList.all isWhiteSpace

theorem isBlankText_append {s t : String} (hs : isBlankText s = true) (ht : isBlankText t = true) :
    isBlankText (s ++ t) = true := by
  rw [isBlankText, String.toList_append, List.all_append, Bool.and_eq_true]
  exact ⟨hs, ht⟩

theorem isBlankText_join {texts : List String} (h : ∀ s ∈ texts, isBlankText s = true) :
    isBlankText (String.join texts) = true := by
  induction texts with
  | nil => rfl
  | cons s texts ih =>
    obtain ⟨hs, htexts⟩ := List.forall_mem_cons.1 h
    rw [String.join_cons]
    exact isBlankText_append hs (ih htexts)

end GraphqlClient.Text
