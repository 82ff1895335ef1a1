import GraphqlClient.Proofs.Reader
import GraphqlClient.Proofs.Syntax.Legal

/-!
# What is read can be written

Off tokens that can be written, each reader of the grammar takes only what can be written
(`legal_of_ofTokens?`). A reader that is handed a nesting budget takes nothing that exceeds it.
-/

namespace GraphqlClient.Syntax

open Reader

/-- Off tokens that can be written, the reader takes values with a property only. -/
abbrev Takes {α : Type} (P : α → Prop) (r : Reader Token α) : Prop :=
  Ensures (fun t : Token => t.kind.Regular) P r

variable {α : Type} {P : α → Prop} {r r' : Reader Token α}

/-! ## Single tokens -/

theorem takes_name : Takes IsName readName := by
  intro s n s' hs h
  unfold readName at h
  split at h
  · cases h
    exact List.forall_mem_cons.1 hs
  · cases h

theorem takes_mark (m : Mark) : Takes (fun _ => True) (readMark m) := by
  intro s x s' hs h
  unfold readMark at h
  split at h
  · split at h
    · cases h
      exact ⟨trivial, (List.forall_mem_cons.1 hs).2⟩
    · cases h
  · cases h

theorem takes_keyword (n : Name) : Takes (fun _ => True) (readKeyword n) := by
  intro s x s' hs h
  unfold readKeyword at h
  split at h
  · split at h
    · cases h
      exact ⟨trivial, (List.forall_mem_cons.1 hs).2⟩
    · cases h
  · cases h

theorem takes_refuse : Takes P refuse := fun _ _ _ _ h => nomatch h

theorem takes_ifMark {m : Mark} {otherwise : α} (hr : Takes P r) (h : P otherwise) :
    Takes P (ifMark m otherwise r) := by
  intro s a s' hs heq
  unfold ifMark at heq
  split at heq
  · exact hr hs heq
  · cases heq
    exact ⟨h, hs⟩

theorem takes_ite_get {opens : List Token → Bool} (hr : Takes P r) (hr' : Takes P r') :
    Takes P (do if opens (← get) then r else r') := by
  intro s a s' hs h
  have hite : (if opens s then r else r') s = some (a, s') := h
  split at hite
  · exact hr hs hite
  · exact hr' hs hite

/-! ## Values, arguments and directives -/

section

variable {constant : Bool} {b : Nat} {value inner : Reader Token Value}

theorem legal_nameValue {n : Name} (h : IsName n) : (nameValue n).Legal constant b := by
  unfold nameValue
  split_ifs with htrue hfalse hnull
  · exact .boolean
  · exact .boolean
  · exact .null
  · exact .enum h (by simp [nameValue, htrue, hfalse, hnull])

/-- What is read of a field has a property, unless the field is dropped. -/
theorem takes_field {Q : Value → Prop} (hvalue : Takes Q value) :
    Takes (fun f : Option (Name × Value) => ∀ x ∈ f, IsName x.1 ∧ Q x.2) (readField value) := by
  refine takes_name.bind fun n hn => takes_ifMark ((takes_mark .colon).bind fun _ _ => ?_) nofun
  refine hvalue.bind fun v hv => .pure ?_
  rintro x ⟨⟩
  exact ⟨hn, hv⟩

theorem forall_mem_filterMap_id {Q : α → Prop} {as : List (Option α)}
    (h : ∀ a ∈ as, ∀ x ∈ a, Q x) : ∀ x ∈ as.filterMap id, Q x := by
  intro x hx
  obtain ⟨a, ha, rfl⟩ := List.mem_filterMap.1 hx
  exact h (some x) ha x rfl

theorem takes_readValueWith
    (hinner : Takes (fun v => 0 < b ∧ v.Legal constant (b - 1)) inner) :
    Takes (Value.Legal constant b) (readValueWith constant inner) := by
  have hitems : Takes (Value.Legal constant b) (readItems inner) := by
    refine hinner.many.bind fun vs hvs => (takes_mark .bracketClose).bind fun _ _ => .pure ?_
    refine .list (fun hne => ?_) fun v hv => (hvs v hv).2
    obtain ⟨v, rest, rfl⟩ := List.exists_cons_of_ne_nil hne
    exact (hvs v List.mem_cons_self).1
  have hfields : Takes (Value.Legal constant b) (readFields inner) := by
    refine (takes_field hinner).many.bind fun fs hfs => ?_
    refine (takes_mark .braceClose).bind fun _ _ => .pure ?_
    have hall := forall_mem_filterMap_id hfs
    refine .object (fun hne => ?_) (fun f hf => (hall f hf).1) fun f hf => (hall f hf).2.2
    obtain ⟨f, hf⟩ := List.exists_mem_of_ne_nil _ hne
    exact (hall f hf).2.1
  have hvar (hconstant : constant = false) :
      Takes (Value.Legal constant b) (Value.var <$> readName) :=
    takes_name.map fun n hn => .var hconstant hn
  intro s v s' hs h
  unfold readValueWith at h
  split at h
  · split at h
    · cases h
    · rename_i hconstant
      exact hvar (by simpa using hconstant) (List.forall_mem_cons.1 hs).2 h
  · cases h
    obtain ⟨hn, hs'⟩ := List.forall_mem_cons.1 hs
    exact ⟨legal_nameValue hn, hs'⟩
  · cases h
    obtain ⟨hn, hs'⟩ := List.forall_mem_cons.1 hs
    exact ⟨.int hn, hs'⟩
  · cases h
    obtain ⟨hn, hs'⟩ := List.forall_mem_cons.1 hs
    exact ⟨.float hn, hs'⟩
  · cases h
    exact ⟨.string, (List.forall_mem_cons.1 hs).2⟩
  · exact hitems (List.forall_mem_cons.1 hs).2 h
  · exact hfields (List.forall_mem_cons.1 hs).2 h
  · cases h

theorem takes_value (constant : Bool) (b : Nat) :
    Takes (Value.Legal constant b) (readValue constant b) := by
  induction b with
  | zero => exact takes_readValueWith takes_refuse
  | succ b ih => exact takes_readValueWith (ih.imp fun v hv => ⟨Nat.succ_pos b, hv⟩)

theorem takes_arguments (hvalue : Takes (Value.Legal constant b) value) :
    Takes (fun args : Arguments => ∀ a ∈ args, ArgumentLegal constant b a)
      (readArguments value) := by
  refine takes_ifMark ((takes_mark .parenOpen).bind fun _ _ => ?_) nofun
  refine (takes_field hvalue).many1.bind fun fs hfs => ?_
  refine (takes_mark .parenClose).bind fun _ _ => .pure ?_
  intro a ha
  obtain ⟨hname, hlegal⟩ := forall_mem_filterMap_id hfs.2 a ha
  exact ⟨hname, hlegal⟩

theorem takes_directives (hvalue : Takes (Value.Legal constant b) value) :
    Takes (fun ds : List Directive => ∀ d ∈ ds, d.Legal constant b) (readDirectives value) := by
  refine Ensures.many ((takes_mark .atSign).bind fun _ _ => takes_name.bind fun n hn => ?_)
  exact (takes_arguments hvalue).bind fun args hargs => .pure ⟨hn, hargs⟩

end

/-! ## Variables -/

theorem takes_required : Takes (fun _ => True) readRequired :=
  takes_ifMark ((takes_mark .bang).bind fun _ _ => .pure trivial) trivial

theorem takes_typeWith {b : Nat} {inner : Reader Token TypeRef}
    (hinner : Takes (fun t => 0 < b ∧ t.Legal (b - 1)) inner) :
    Takes (TypeRef.Legal b) (readTypeWith inner) := by
  refine takes_ite_get ?_ ?_
  · refine (takes_mark .bracketOpen).bind fun _ _ => hinner.bind fun item hitem => ?_
    obtain ⟨b, rfl⟩ := Nat.exists_eq_add_of_lt hitem.1
    refine (takes_mark .bracketClose).bind fun _ _ => takes_required.bind fun required _ => .pure ?_
    rw [Nat.zero_add] at hitem ⊢
    exact .list hitem.2
  · exact takes_name.bind fun n hn => takes_required.bind fun required _ => .pure (.named hn)

theorem takes_type (b : Nat) : Takes (TypeRef.Legal b) (readType b) := by
  induction b with
  | zero => exact takes_typeWith takes_refuse
  | succ b ih => exact takes_typeWith (ih.imp fun t ht => ⟨Nat.succ_pos b, ht⟩)

theorem takes_initial :
    Takes (fun initial : Option Value => ∀ v ∈ initial, v.Legal true maxNesting)
      (readInitial (readValue true maxNesting)) := by
  refine takes_ifMark ((takes_mark .equals).bind fun _ _ => ?_) nofun
  refine (takes_value true maxNesting).bind fun v hv => .pure ?_
  rintro x ⟨⟩
  exact hv

theorem takes_variable : Takes VariableDefinition.Legal readVariable := by
  refine (takes_mark .dollar).bind fun _ _ => takes_name.bind fun n hn => ?_
  refine (takes_mark .colon).bind fun _ _ => (takes_type maxNesting).bind fun type htype => ?_
  refine takes_initial.bind fun initial hinitial => ?_
  exact (takes_directives (takes_value true maxNesting)).bind fun ds hds =>
    .pure ⟨hn, htype, hinitial, hds⟩

theorem takes_variables :
    Takes (fun vs : List VariableDefinition => ∀ v ∈ vs, v.Legal) readVariables := by
  refine takes_ifMark ((takes_mark .parenOpen).bind fun _ _ => ?_) nofun
  exact takes_variable.many1.bind fun vs hvs => (takes_mark .parenClose).bind fun _ _ => .pure hvs.2

/-! ## Selections -/

theorem takes_fieldName :
    Takes (fun x : Option Name × Name => (∀ l ∈ x.1, IsName l) ∧ IsName x.2) readFieldName := by
  refine takes_name.bind fun n hn => ?_
  have hlabelled : Takes (fun x : Option Name × Name => (∀ l ∈ x.1, IsName l) ∧ IsName x.2)
      (do readMark .colon; let m ← readName; return (some n, m)) := by
    refine (takes_mark .colon).bind fun _ _ => takes_name.bind fun m hm => .pure ⟨?_, hm⟩
    rintro l ⟨⟩
    exact hn
  have hplain : Takes (fun x : Option Name × Name => (∀ l ∈ x.1, IsName l) ∧ IsName x.2)
      (pure (none, n)) := .pure ⟨nofun, hn⟩
  refine Ensures.bind (P := fun _ => True) (fun s a s' hs h => ?_) fun ts _ => ?_
  · cases h
    exact ⟨trivial, hs⟩
  · split
    · exact hlabelled
    · exact hplain

section

variable {b : Nat} {value : Reader Token Value} {inner : Reader Token (List Selection)}

theorem takes_optionalCondition :
    Takes (fun t : Option Name => ∀ n ∈ t, IsName n) readOptionalCondition := by
  intro s t s' hs h
  have hsome : Takes (fun t : Option Name => ∀ n ∈ t, IsName n)
      (do readKeyword "on"; let t ← readName; return some t) := by
    refine (takes_keyword "on").bind fun _ _ => takes_name.bind fun n hn => .pure ?_
    rintro m ⟨⟩
    exact hn
  unfold readOptionalCondition at h
  split at h
  · exact hsome hs h
  · cases h
    exact ⟨nofun, hs⟩

theorem takes_selection (hvalue : Takes (Value.Legal false b) value)
    (hinner : Takes (SelectionSetLegal b) inner) :
    Takes (Selection.Legal b) (readSelection value inner) := by
  have hdirectives := takes_directives hvalue
  have hfield : Takes (Selection.Legal b) (readFieldSelection value inner) := by
    refine takes_fieldName.bind fun x hx => (takes_arguments hvalue).bind fun args hargs => ?_
    refine hdirectives.bind fun ds hds => ?_
    have hset : Takes (fun ss => ss ≠ [] → SelectionSetLegal b ss) (readOptionalSet inner) :=
      takes_ifMark (hinner.imp fun ss hss _ => hss) fun hne => absurd rfl hne
    refine hset.bind fun ss hss => .pure ?_
    refine .field hx.1 hx.2 hargs hds (fun hne => (hss hne).nesting) fun s hs => ?_
    exact (hss (List.ne_nil_of_mem hs)).selections s hs
  have hinline : Takes (Selection.Legal b) (readInlineFragment value inner) := by
    refine takes_optionalCondition.bind fun t ht => hdirectives.bind fun ds hds => ?_
    refine hinner.bind fun ss hss => .pure ?_
    exact .inlineFragment ht hds hss.ne_nil hss.nesting hss.selections
  have hfragment : Takes (Selection.Legal b) (readFragmentSelection value inner) := by
    intro s x s' hs h
    unfold readFragmentSelection at h
    split at h
    · rename_i n ts
      split at h
      · exact hinline hs h
      · rename_i hne
        obtain ⟨hn, hts⟩ := List.forall_mem_cons.1 hs
        have hspread : Takes (Selection.Legal b) (do
            let ds ← readDirectives value
            return .spread n ds) :=
          hdirectives.bind fun ds hds => .pure (.spread hn hne hds)
        exact hspread hts h
    · exact hinline hs h
    · cases h
  exact takes_ite_get ((takes_mark .spread).bind fun _ _ => hfragment) hfield

theorem takes_selectionSet (b : Nat) : Takes (SelectionSetLegal b) (readSelectionSet b) := by
  induction b with
  | zero => exact takes_refuse
  | succ b ih =>
    have hselection := takes_selection (takes_value false b) ih
    refine (takes_mark .braceOpen).bind fun _ _ => hselection.many1.bind fun ss hss => ?_
    exact (takes_mark .braceClose).bind fun _ _ => .pure ⟨hss.1, Nat.succ_pos b, hss.2⟩

end

/-! ## Definitions -/

theorem takes_optionalName : Takes (fun n : Option Name => ∀ m ∈ n, IsName m) readOptionalName := by
  intro s n s' hs h
  have hsome : Takes (fun n : Option Name => ∀ m ∈ n, IsName m) (some <$> readName) :=
    takes_name.map fun n hn => by
      rintro m ⟨⟩
      exact hn
  unfold readOptionalName at h
  split at h
  · exact hsome hs h
  · cases h
    exact ⟨nofun, hs⟩

theorem takes_operation (type : OperationType) : Takes Operation.Legal (readOperation type) := by
  refine takes_optionalName.bind fun n hn => takes_variables.bind fun vs hvs => ?_
  refine (takes_directives (takes_value false maxNesting)).bind fun ds hds => ?_
  exact (takes_selectionSet maxNesting).bind fun ss hss => .pure ⟨hn, hvs, hds, hss⟩

theorem takes_fragment : Takes Fragment.Legal readFragment := by
  refine takes_name.bind fun n hn => ?_
  split
  · exact Ensures.bind (P := fun _ => False) takes_refuse fun _ hfalse => hfalse.elim
  · rename_i hne
    refine (takes_keyword "on").bind fun _ _ => takes_name.bind fun t ht => ?_
    refine (takes_directives (takes_value false maxNesting)).bind fun ds hds => ?_
    exact (takes_selectionSet maxNesting).bind fun ss hss => .pure ⟨hn, hne, ht, hds, hss⟩

theorem takes_definition : Takes Definition.Legal readDefinition := by
  intro s d s' hs h
  unfold readDefinition at h
  split at h
  · have hts := (List.forall_mem_cons.1 hs).2
    split at h
    · exact (takes_fragment.map (f := Definition.fragment) (Q := Definition.Legal)
        fun f hf => hf) hts h
    · split at h
      · rename_i type _
        exact ((takes_operation type).map (f := Definition.operation) (Q := Definition.Legal)
          fun o ho => ho) hts h
      · cases h
  · have hplain : Takes Definition.Legal
        ((fun ss => Definition.operation ⟨.query, none, [], [], ss⟩)
          <$> readSelectionSet maxNesting) :=
      (takes_selectionSet maxNesting).map fun ss hss => ⟨nofun, nofun, nofun, hss⟩
    exact hplain hs h

/-- The document that tokens make up can be written if they can. -/
theorem legal_of_ofTokens? {ts : List Token} (hts : ∀ t ∈ ts, t.kind.Regular) {d : Document}
    (h : Document.ofTokens? ts = some d) : DocumentLegal d := by
  unfold Document.ofTokens? Reader.whole at h
  split at h
  · rename_i hread
    cases h
    obtain ⟨hne, hlegal⟩ := (takes_definition.many1 hts hread).1
    exact ⟨hne, hlegal⟩
  · cases h

end GraphqlClient.Syntax
