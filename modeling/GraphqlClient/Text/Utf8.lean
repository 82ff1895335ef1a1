/-!
# Characters of bytes in UTF-8
-/

namespace GraphqlClient.Text

/-- The characters that bytes write from an index on, up to the first byte that begins none. -/
def charsFrom (bytes : ByteArray) (i : Nat) : List Char :=
  match bytes.utf8DecodeChar? i with
  | none => []
  | some c => if i < bytes.size then c :: charsFrom bytes (i + c.utf8Size) else []
termination_by bytes.size - i
decreasing_by have := c.utf8Size_pos; omega

/-- The longest text that bytes begin with. -/
def leadingChars (bytes : ByteArray) : List Char := charsFrom bytes 0

end GraphqlClient.Text
