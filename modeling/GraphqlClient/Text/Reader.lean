/-!
# Readers

A reader takes a value off the front of a list of symbols, or fails. `Reader.many` repeats an item
for as long as the front opens one; an item that takes nothing makes it fail, so that it ends on
every input.
-/

namespace GraphqlClient

/-- Takes a value off the front of a list; none when the front is malformed. -/
abbrev Reader (σ α : Type) := StateT (List σ) Option α

namespace Reader

variable {σ α : Type}

/-- The longest front whose symbols pass a test, which holds one at least. -/
def takeWhile1 (accepts : σ → Bool) : Reader σ (List σ) := fun s =>
  if (s.takeWhile accepts).isEmpty then none
  else some (s.takeWhile accepts, s.dropWhile accepts)

/-- Items for as long as the front opens one. -/
def many (opens : List σ → Bool) (item : Reader σ α) (s : List σ) :
    Option (List α × List σ) :=
  if opens s then
    match item s with
    | none => none
    | some (a, rest) =>
      if rest.length < s.length then
        (many opens item rest).map fun r => (a :: r.1, r.2)
      else none
  else some ([], s)
termination_by s.length

/-- Items for as long as the front opens one, which are one at least. -/
def many1 (opens : List σ → Bool) (item : Reader σ α) : Reader σ (List α) := do
  let a ← item
  let as ← many opens item
  return a :: as

/-- The value of a reader that takes a whole list. -/
def whole (r : Reader σ α) (s : List σ) : Option α :=
  match r s with
  | some (a, []) => some a
  | _ => none

end Reader

end GraphqlClient
