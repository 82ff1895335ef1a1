/-!
# Ranges of code points

A set of characters as a list of ranges, first and last code point of each included.
-/

namespace GraphqlClient.Text

/-- Ranges of code points, each with its first and its last one. -/
abbrev CodeRanges := List (Nat × Nat)

/-- Whether a code point lies in one of the ranges. -/
def CodeRanges.contain (ranges : CodeRanges) (n : Nat) : Bool :=
  ranges.any fun r => r.1 ≤ n && n ≤ r.2

end GraphqlClient.Text
