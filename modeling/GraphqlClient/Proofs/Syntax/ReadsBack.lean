import GraphqlClient.Proofs.Reader
import GraphqlClient.Proofs.Syntax.Pieces
import GraphqlClient.Syntax.Reader

/-!
# Readers read back what is written

`ReadsBack` relates a reader to the pieces that a value is written as: off the tokens of these
pieces the reader takes the value, and it leaves the tokens of whatever follows. What follows may be
subject to a condition on its first token, since an optional construct is left out only if it does
not seem to stand there. The relation is closed under the ways in which readers and pieces are put
together.
-/

namespace GraphqlClient.Syntax

open Reader Piece

/-! ## The token in front -/

section

variable (b : Bool) (ps : List Piece)

/-- Whether the first token is a given punctuation mark. -/
def isMarkNext (m : Mark) (next : Option TokenKind) : Bool := next = some (.mark m)

theorem opensMark_tokensOf (m : Mark) : opensMark m (tokensOf b ps) = isMarkNext m (next? ps) := by
  rw [← head?_tokensOf b, isMarkNext]
  cases tokensOf b ps with
  | nil => rfl
  | cons t ts =>
    obtain ⟨k, c⟩ := t
    cases k with
    | mark m' => simp [opensMark]
    | _ => simp [opensMark]

theorem not_opensMark_tokensOf (m : Mark) :
    (!opensMark m (tokensOf b ps)) = !isMarkNext m (next? ps) := by
  rw [opensMark_tokensOf]

/-- Whether the first token is a name. -/
def isNameNext : Option TokenKind → Bool
  | some (.name _) => true
  | _ => false

theorem opensName_tokensOf : opensName (tokensOf b ps) = isNameNext (next? ps) := by
  rw [← head?_tokensOf b]
  cases tokensOf b ps with
  | nil => rfl
  | cons t ts =>
    obtain ⟨k, c⟩ := t
    cases k <;> rfl

theorem isEmpty_tokensOf : (tokensOf b ps).isEmpty = (next? ps).isNone := by
  rw [← head?_tokensOf b]
  cases tokensOf b ps with
  | nil => rfl
  | cons t ts => rfl

end

/-! ## Conditions on what follows -/

/-- The first token is none of these punctuation marks. -/
def Clear (ms : List Mark) (next : Option TokenKind) : Prop := ∀ m ∈ ms, next ≠ some (.mark m)

/-- The pieces begin with one of these punctuation marks, if they hold a token. -/
def Opens (ms : List Mark) (ps : List Piece) : Prop :=
  next? ps = none ∨ ∃ m ∈ ms, next? ps = some (.mark m)

theorem clear_mark {ms : List Mark} {m : Mark} (h : m ∉ ms) : Clear ms (some (.mark m)) := by
  rintro m' hm' ⟨⟩
  exact h hm'

theorem clear_name (ms : List Mark) (n : Name) : Clear ms (some (.name n)) := nofun

theorem Clear.mono {ms ms' : List Mark} {next : Option TokenKind} (h : Clear ms' next)
    (hsub : ∀ m ∈ ms, m ∈ ms') : Clear ms next :=
  fun m hm => h m (hsub m hm)

theorem Opens.append {ms ms' : List Mark} {ps qs : List Piece} (hps : Opens ms ps)
    (hqs : Opens ms' qs) : Opens (ms ++ ms') (ps ++ qs) := by
  rcases hps with hps | ⟨m, hm, hps⟩
  · rcases hqs with hqs | ⟨m, hm, hqs⟩
    · exact .inl (by rw [next?_append, hps, hqs]; rfl)
    · exact .inr ⟨m, List.mem_append_right ms hm, by rw [next?_append, hps, hqs]; rfl⟩
  · exact .inr ⟨m, List.mem_append_left ms' hm, by rw [next?_append, hps]; rfl⟩

/-- Optional pieces that begin with other marks may stand between. -/
theorem Opens.clear {ms ms' after : List Mark} {ps : List Piece} (h : Opens ms' ps)
    (hms : ∀ m ∈ ms, m ∉ ms' ∧ m ∈ after) {next : Option TokenKind} (hnext : Clear after next) :
    Clear ms ((next? ps).or next) := by
  rcases h with h | ⟨m, hm, h⟩
  · rw [h, Option.none_or]
    exact hnext.mono fun m hm => (hms m hm).2
  · rw [h, Option.some_or]
    exact clear_mark fun hmem => (hms m hmem).1 hm

/-! ## Reading back -/

/-- The reader takes the value off the tokens of the pieces, which stand behind a comma or not, and
leaves those of what follows, under a condition on the first token there. -/
def ReadsBack {α : Type} (b : Bool) (after : Option TokenKind → Prop) (r : Reader Token α) (a : α)
    (ps : List Piece) : Prop :=
  ∀ qs, after (next? qs) → r (tokensOf b (ps ++ qs)) = some (a, tokensOf false qs)

namespace ReadsBack

variable {α β : Type} {b : Bool} {P Q : Option TokenKind → Prop} {r : Reader Token α} {a : α}
  {x : β} {ps qs : List Piece}

theorem pure : ReadsBack false P (Pure.pure a) a [] := fun _ _ => rfl

theorem weaken (h : ReadsBack b P r a ps) (hPQ : ∀ k, Q k → P k) : ReadsBack b Q r a ps :=
  fun qs hqs => h qs (hPQ _ hqs)

theorem bind {f : α → Reader Token β} (hr : ReadsBack b P r a ps)
    (hf : ReadsBack false Q (f a) x qs) (hnext : ∀ k, Q k → P ((next? qs).or k)) :
    ReadsBack b Q (r >>= f) x (ps ++ qs) := by
  intro rs hrs
  have htake := hr (qs ++ rs) (by rw [next?_append]; exact hnext _ hrs)
  rw [List.append_assoc, bind_eq htake]
  exact hf rs hrs

/-- Optional constructs in order do not disturb one another when they begin with different marks. -/
theorem bind_opens {ms ms' after : List Mark} {f : α → Reader Token β}
    (hr : ReadsBack b (Clear ms) r a ps) (hf : ReadsBack false (Clear after) (f a) x qs)
    (hqs : Opens ms' qs) (hms : ∀ m ∈ ms, m ∉ ms' ∧ m ∈ after) :
    ReadsBack b (Clear after) (r >>= f) x (ps ++ qs) :=
  hr.bind hf fun _ hk => hqs.clear hms hk

theorem map {f : α → β} (hr : ReadsBack b P r a ps) : ReadsBack b P (f <$> r) (f a) ps :=
  fun qs hqs => map_eq (hr qs hqs) f

theorem bind_pure {f : α → β} (hr : ReadsBack b P r a ps) :
    ReadsBack b P (r >>= fun a => Pure.pure (f a)) (f a) ps :=
  fun qs hqs => bind_eq (hr qs hqs) _

theorem space (h : ReadsBack b P r a ps) : ReadsBack b P r a (Piece.space :: ps) := h

theorem newLine (level : Nat) (h : ReadsBack b P r a ps) :
    ReadsBack b P r a (Piece.newLine level :: ps) := h

/-! ### Single tokens -/

theorem bind_mark {m : Mark} {f : Unit → Reader Token β} (hf : ReadsBack false Q (f ()) x qs) :
    ReadsBack b Q (readMark m >>= f) x (Piece.mark m :: qs) := by
  intro rs hrs
  have hmark : readMark m (tokensOf b (Piece.mark m :: (qs ++ rs)))
      = some ((), tokensOf false (qs ++ rs)) := if_pos rfl
  rw [List.cons_append, bind_eq hmark]
  exact hf rs hrs

theorem bind_name {n : Name} {f : Name → Reader Token β} (hf : ReadsBack false Q (f n) x qs) :
    ReadsBack b Q (readName >>= f) x (Piece.name n :: qs) := by
  intro rs hrs
  have hname : readName (tokensOf b (Piece.name n :: (qs ++ rs)))
      = some (n, tokensOf false (qs ++ rs)) := rfl
  rw [List.cons_append, bind_eq hname]
  exact hf rs hrs

theorem bind_keyword {n : Name} {f : Unit → Reader Token β} (hf : ReadsBack false Q (f ()) x qs) :
    ReadsBack b Q (readKeyword n >>= f) x (Piece.name n :: qs) := by
  intro rs hrs
  have hkeyword : readKeyword n (tokensOf b (Piece.name n :: (qs ++ rs)))
      = some ((), tokensOf false (qs ++ rs)) := if_pos rfl
  rw [List.cons_append, bind_eq hkeyword]
  exact hf rs hrs

/-! ### Optional constructs -/

theorem ifMark {m : Mark} {otherwise : α} (hr : ReadsBack b P r a ps)
    (hnext : next? ps = some (.mark m)) : ReadsBack b P (ifMark m otherwise r) a ps := by
  intro qs hqs
  have hopens : opensMark m (tokensOf b (ps ++ qs)) = true := by
    rw [opensMark_tokensOf, next?_append, hnext]
    exact decide_eq_true rfl
  rw [Syntax.ifMark, if_pos hopens]
  exact hr qs hqs

theorem ifMark_otherwise {m : Mark} : ReadsBack false (Clear [m]) (Syntax.ifMark m a r) a [] := by
  intro qs hqs
  have hopens : opensMark m (tokensOf false ([] ++ qs)) = false := by
    rw [opensMark_tokensOf]
    exact decide_eq_false (hqs m (List.mem_singleton_self m))
  rw [Syntax.ifMark, hopens]
  rfl

theorem ite_opens {m : Mark} {other : Reader Token α} (hr : ReadsBack b P r a ps)
    (hnext : next? ps = some (.mark m)) :
    ReadsBack b P (do if opensMark m (← get) then r else other) a ps := by
  intro qs hqs
  have hopens : opensMark m (tokensOf b (ps ++ qs)) = true := by
    rw [opensMark_tokensOf, next?_append, hnext]
    exact decide_eq_true rfl
  show (if opensMark m (tokensOf b (ps ++ qs)) then r else other) (tokensOf b (ps ++ qs)) = _
  rw [if_pos hopens]
  exact hr qs hqs

theorem ite_not_opens {m : Mark} {other : Reader Token α} {k : TokenKind}
    (hr : ReadsBack b P r a ps) (hnext : next? ps = some k) (hk : k ≠ .mark m) :
    ReadsBack b P (do if opensMark m (← get) then other else r) a ps := by
  intro qs hqs
  have hopens : ¬opensMark m (tokensOf b (ps ++ qs)) = true := by
    rw [opensMark_tokensOf, next?_append, hnext, isMarkNext, Option.some_or]
    simpa using hk
  show (if opensMark m (tokensOf b (ps ++ qs)) then other else r) (tokensOf b (ps ++ qs)) = _
  rw [if_neg hopens]
  exact hr qs hqs

theorem ite_opensName_otherwise {other : Reader Token α} :
    ReadsBack false (fun k => isNameNext k = false)
      (fun ts => if opensName ts then other ts else some (a, ts)) a [] := by
  intro qs hqs
  have hopens : ¬opensName (tokensOf false qs) = true := by
    rw [opensName_tokensOf, hqs]
    exact Bool.false_ne_true
  exact if_neg hopens

/-! ### Lists -/

section

variable {γ : Type} {opens : List Token → Bool} {o : Option TokenKind → Bool}
  (ho : ∀ b ps, opens (tokensOf b ps) = o (next? ps)) {f : γ → List Piece} {g : γ → α}

omit ho in
/-- What comes next is the first item of a list, or else what follows the list. -/
theorem next_flatMap {as : List γ}
    (hnext : ∀ x ∈ as, ∃ k, next? (f x) = some k ∧ o (some k) = true ∧ P (some k))
    {next : Option TokenKind} (h : P next) : P ((next? (as.flatMap f)).or next) := by
  cases as with
  | nil => exact h
  | cons x as =>
    obtain ⟨k, hk, -, hP⟩ := hnext x List.mem_cons_self
    rw [List.flatMap_cons, next?_append, hk, Option.some_or, Option.some_or]
    exact hP

include ho

theorem many_nil : ReadsBack false (fun k => o k = false ∧ P k) (many opens r) [] [] := by
  intro qs hqs
  exact Reader.many_nil ((ho false qs).trans hqs.1)

theorem many_cons {as : List α} (hr : ReadsBack b P r a ps)
    (hrest : ReadsBack false Q (many opens r) as qs) {k : TokenKind} (hk : next? ps = some k)
    (hopens : o (some k) = true) (hnext : ∀ k, Q k → P ((next? qs).or k)) :
    ReadsBack b Q (many opens r) (a :: as) (ps ++ qs) := by
  intro rs hrs
  have htake := hr (qs ++ rs) (by rw [next?_append]; exact hnext _ hrs)
  rw [List.append_assoc]
  refine Reader.many_cons ?_ htake (length_lt_of_next? hk b _) (hrest rs hrs)
  rw [ho, next?_append, hk]
  exact hopens

/-- A list is read back item by item when each item begins as one and as what may follow one. -/
theorem many_flatMap {as : List γ} (hr : ∀ x ∈ as, ReadsBack false P r (g x) (f x))
    (hnext : ∀ x ∈ as, ∃ k, next? (f x) = some k ∧ o (some k) = true ∧ P (some k)) :
    ReadsBack false (fun k => o k = false ∧ P k) (many opens r) (as.map g) (as.flatMap f) := by
  induction as with
  | nil => exact many_nil ho
  | cons x as ih =>
    obtain ⟨hx, has⟩ := List.forall_mem_cons.1 hr
    obtain ⟨⟨k, hk, hopens, -⟩, hnext'⟩ := List.forall_mem_cons.1 hnext
    exact many_cons ho hx (ih has hnext') hk hopens fun next hQ => next_flatMap hnext' hQ.2

theorem many_commaSeparated {as : List γ} (hr : ∀ x ∈ as, ∀ b, ReadsBack b P r (g x) (f x))
    (hnext : ∀ x ∈ as, ∃ k, next? (f x) = some k ∧ o (some k) = true ∧ P (some k)) :
    ReadsBack false (fun k => o k = false ∧ P k) (many opens r) (as.map g)
      (commaSeparated f as) := by
  cases as with
  | nil => exact many_nil ho
  | cons x as =>
    obtain ⟨hx, has⟩ := List.forall_mem_cons.1 hr
    obtain ⟨⟨k, hk, hopens, -⟩, hnext'⟩ := List.forall_mem_cons.1 hnext
    have hlater : ∀ y ∈ as, ReadsBack false P r (g y) (afterComma f y) := fun y hy => has y hy true
    exact many_cons ho (hx false) (many_flatMap ho hlater hnext') hk hopens fun next hQ =>
      next_flatMap (f := afterComma f) hnext' hQ.2

end

theorem many1 {opens : List Token → Bool} {as : List α}
    (h : ReadsBack b P (many opens r) as ps) (hne : as ≠ []) :
    ReadsBack b P (many1 opens r) as ps := by
  intro qs hqs
  exact many1_eq_many (h qs hqs) hne

end ReadsBack

end GraphqlClient.Syntax
