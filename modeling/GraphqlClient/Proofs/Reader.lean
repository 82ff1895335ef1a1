import GraphqlClient.Text.Reader

/-!
# Laws of readers

What a reader does in a sequence, in a choice and repeated. The laws come in two kinds: `bind_eq`,
`many_cons` and their like run a reader on symbols that are known, and `Ensures` carries a property
of what a reader takes through the ways in which readers are put together.
-/

namespace GraphqlClient.Reader

variable {σ α β : Type}

/-! ## Running a reader -/

/-- A reader goes on with what the one before it took and left. -/
theorem bind_eq {r : Reader σ α} {s s' : List σ} {a : α} (h : r s = some (a, s'))
    (f : α → Reader σ β) : (r >>= f) s = f a s' := by
  show (r s).bind (fun x => f x.1 x.2) = f a s'
  rw [h]
  rfl

theorem map_eq {r : Reader σ α} {s s' : List σ} {a : α} (h : r s = some (a, s')) (f : α → β) :
    (f <$> r) s = some (f a, s') := by
  show (r s).bind (fun x => some (f x.1, x.2)) = some (f a, s')
  rw [h]
  rfl

theorem bind_eq_some {r : Reader σ α} {f : α → Reader σ β} {s : List σ} {x : β × List σ}
    (h : (r >>= f) s = some x) : ∃ a s', r s = some (a, s') ∧ f a s' = some x := by
  have hbind : (r s).bind (fun x => f x.1 x.2) = some x := h
  obtain ⟨⟨a, s'⟩, hr, hf⟩ := Option.bind_eq_some_iff.1 hbind
  exact ⟨a, s', hr, hf⟩

theorem map_eq_some {r : Reader σ α} {f : α → β} {s : List σ} {b : β} {s' : List σ}
    (h : (f <$> r) s = some (b, s')) : ∃ a, r s = some (a, s') ∧ f a = b := by
  have hbind : (r s).bind (fun x => some (f x.1, x.2)) = some (b, s') := h
  obtain ⟨⟨a, s''⟩, hr, ⟨⟩⟩ := Option.bind_eq_some_iff.1 hbind
  exact ⟨a, hr, rfl⟩

/-! ## Repeating a reader -/

section

variable {opens : List σ → Bool} {item : Reader σ α} {s s' s'' : List σ} {a : α} {as : List α}

theorem many_nil (h : opens s = false) : many opens item s = some ([], s) := by
  rw [many, h, if_neg Bool.false_ne_true]

theorem many_cons (hopens : opens s = true) (hitem : item s = some (a, s'))
    (hless : s'.length < s.length) (hmany : many opens item s' = some (as, s'')) :
    many opens item s = some (a :: as, s'') := by
  rw [many, if_pos hopens, hitem]
  show (if s'.length < s.length then _ else _) = _
  rw [if_pos hless, hmany]
  rfl

theorem many1_eq_many (h : many opens item s = some (as, s')) (hne : as ≠ []) :
    many1 opens item s = some (as, s') := by
  rw [many] at h
  split at h
  · cases hitem : item s with
    | none =>
      rw [hitem] at h
      cases h
    | some x =>
      obtain ⟨a, rest⟩ := x
      rw [hitem] at h
      simp only at h
      split at h
      · obtain ⟨⟨as', s''⟩, hmany, ⟨⟩⟩ := Option.map_eq_some_iff.1 h
        unfold many1
        rw [bind_eq hitem, bind_eq hmany]
        rfl
      · cases h
  · cases h
    exact absurd rfl hne

end

/-! ## What a reader ensures -/

/-- Off symbols that are good, the reader takes values with a property only, and leaves symbols that
are good. -/
def Ensures (good : σ → Prop) (P : α → Prop) (r : Reader σ α) : Prop :=
  ∀ ⦃s a s'⦄, (∀ x ∈ s, good x) → r s = some (a, s') → P a ∧ ∀ x ∈ s', good x

namespace Ensures

variable {good : σ → Prop} {P : α → Prop} {Q : β → Prop} {r : Reader σ α}

theorem pure {a : α} (h : P a) : Ensures good P (Pure.pure a : Reader σ α) := by
  intro s a' s' hs heq
  cases heq
  exact ⟨h, hs⟩

theorem imp {Q : α → Prop} (hr : Ensures good P r) (h : ∀ a, P a → Q a) : Ensures good Q r := by
  intro s a s' hs heq
  obtain ⟨hP, hs'⟩ := hr hs heq
  exact ⟨h a hP, hs'⟩

theorem bind {f : α → Reader σ β} (hr : Ensures good P r) (hf : ∀ a, P a → Ensures good Q (f a)) :
    Ensures good Q (r >>= f) := by
  intro s b s'' hs heq
  obtain ⟨a, s', ha, hb⟩ := bind_eq_some heq
  obtain ⟨hP, hs'⟩ := hr hs ha
  exact hf a hP hs' hb

theorem map {f : α → β} (hr : Ensures good P r) (hf : ∀ a, P a → Q (f a)) :
    Ensures good Q (f <$> r) := by
  intro s b s' hs heq
  obtain ⟨a, ha, rfl⟩ := map_eq_some heq
  obtain ⟨hP, hs'⟩ := hr hs ha
  exact ⟨hf a hP, hs'⟩

theorem many {opens : List σ → Bool} (hr : Ensures good P r) :
    Ensures good (fun as : List α => ∀ a ∈ as, P a) (many opens r) := by
  intro s as s'' hs heq
  fun_induction Reader.many opens r s generalizing as s'' with
  | case1 s hopens hnone => cases heq
  | case2 s hopens a rest hitem hless ih =>
    obtain ⟨⟨as', s'⟩, hrest, ⟨⟩⟩ := Option.map_eq_some_iff.1 heq
    obtain ⟨hP, hgood⟩ := hr hs hitem
    obtain ⟨hall, hs''⟩ := ih hgood hrest
    exact ⟨List.forall_mem_cons.2 ⟨hP, hall⟩, hs''⟩
  | case3 s hopens a rest hitem hless => cases heq
  | case4 s hopens =>
    cases heq
    exact ⟨nofun, hs⟩

theorem many1 {opens : List σ → Bool} (hr : Ensures good P r) :
    Ensures good (fun as : List α => as ≠ [] ∧ ∀ a ∈ as, P a) (many1 opens r) := by
  refine bind hr fun a ha => bind (many hr) fun as has => pure ?_
  exact ⟨List.cons_ne_nil a as, List.forall_mem_cons.2 ⟨ha, has⟩⟩

end Ensures

end GraphqlClient.Reader
