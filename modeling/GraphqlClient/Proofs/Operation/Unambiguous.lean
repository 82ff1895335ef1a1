import GraphqlClient.Proofs.Digest.HexDigest
import GraphqlClient.Proofs.Json.NumberText
import GraphqlClient.Proofs.Json.StringText
import GraphqlClient.Proofs.Operation.Encoding

/-!
# The encoding of variables is unambiguous

An encoded value that a comma follows is known up to the order of members (`encode_append_inj`). The
first character of an encoding tells the kind of the value, and what follows is taken apart from the
front: strings end in their closing quote, numbers in the comma, lists and objects in a bracket
where no value and no key can begin.
-/

namespace GraphqlClient.Json

/-! ## The kind of a value -/

/-- The kinds of values that encodings tell apart by their first character. -/
inductive Kind
  | null
  | bool (b : Bool)
  | number
  | string
  | array
  | object
deriving DecidableEq

/-- The kind of a value. -/
def Value.kind : Value → Kind
  | .null => .null
  | .bool b => .bool b
  | .number _ => .number
  | .string _ => .string
  | .array _ => .array
  | .object _ => .object

/-- The kind of the value whose encoding a character begins. -/
def Kind.ofFront? (c : Char) : Option Kind :=
  if c = 'n' then some .null
  else if c = 't' then some (.bool true)
  else if c = 'f' then some (.bool false)
  else if c = '"' then some .string
  else if c = '[' then some .array
  else if c = '{' then some .object
  else if c.isDigit ∨ c = '-' then some .number
  else none

theorem ofFront?_of_isDigit {c : Char} (h : c.isDigit = true) : Kind.ofFront? c = some .number := by
  have hne : ∀ d : Char, d.isDigit = false → c ≠ d := by
    rintro d hd rfl
    exact absurd h (by rw [hd]; decide)
  unfold Kind.ofFront?
  rw [if_neg (hne 'n' rfl), if_neg (hne 't' rfl), if_neg (hne 'f' rfl), if_neg (hne '"' rfl),
    if_neg (hne '[' rfl), if_neg (hne '{' rfl), if_pos (.inl h)]

/-- A number begins with a digit or a minus sign. -/
theorem ofFront?_text (n : Number) :
    ∃ c cs, n.text = c :: cs ∧ Kind.ofFront? c = some .number := by
  have hn := n.regular_numeral
  obtain ⟨c, cs, hwhole⟩ := List.exists_cons_of_ne_nil hn.whole_ne_nil
  have hc : c.isDigit = true := hn.whole c (hwhole ▸ List.mem_cons_self)
  rw [← n.text_numeral]
  unfold Text.Numeral.text
  rw [hwhole]
  cases n.numeral.negative with
  | true => exact ⟨'-', _, rfl, by decide⟩
  | false => exact ⟨c, _, rfl, ofFront?_of_isDigit hc⟩

/-- The first character of an encoding tells the kind. -/
theorem ofFront?_encode (v : Value) :
    ∃ c cs, v.encode = c :: cs ∧ Kind.ofFront? c = some v.kind := by
  cases v with
  | null => exact ⟨'n', _, rfl, by decide⟩
  | bool b =>
    cases b with
    | true => exact ⟨'t', _, rfl, by decide⟩
    | false => exact ⟨'f', _, rfl, by decide⟩
  | number n =>
    obtain ⟨c, cs, htext, hc⟩ := ofFront?_text n
    exact ⟨c, cs, htext, hc⟩
  | string s => exact ⟨'"', _, rfl, rfl⟩
  | array vs => exact ⟨'[', _, rfl, rfl⟩
  | object ms => exact ⟨'{', _, rfl, rfl⟩

/-- Texts that begin with encodings of two values are equal for values of one kind only. -/
theorem kind_eq_of_encode_append_eq {v w : Value} {a b : List Char}
    (h : v.encode ++ a = w.encode ++ b) : v.kind = w.kind := by
  obtain ⟨c, cs, hv, hc⟩ := ofFront?_encode v
  obtain ⟨d, ds, hw, hd⟩ := ofFront?_encode w
  rw [hv, hw] at h
  rw [(List.cons.inj h).1] at hc
  exact Option.some.inj (hc.symm.trans hd)

/-- No value begins with the bracket that closes a list. -/
theorem encode_append_ne_close (v : Value) (a b : List Char) : v.encode ++ a ≠ ']' :: b := by
  have hclose : Kind.ofFront? ']' = none := by decide
  obtain ⟨c, cs, hv, hc⟩ := ofFront?_encode v
  intro h
  rw [hv] at h
  rw [(List.cons.inj h).1, hclose] at hc
  cases hc

/-! ## Lists and objects -/

/-- Encoded values that a comma follows can be read off the front of a text, up to the order of
members. -/
def Readable (v : Value) : Prop :=
  ∀ (w : Value) (a b : List Char), v.encode ++ ',' :: a = w.encode ++ ',' :: b →
    v.Reordered w ∧ a = b

theorem encodeItems_append_inj {vs ws : List Value} (hvs : ∀ v ∈ vs, Readable v) {a b : List Char}
    (h : encodeItems vs ++ ']' :: a = encodeItems ws ++ ']' :: b) :
    List.Forall₂ Value.Reordered vs ws ∧ a = b := by
  induction vs generalizing ws with
  | nil =>
    cases ws with
    | nil => exact ⟨.nil, (List.cons.inj h).2⟩
    | cons w ws =>
      rw [encodeItems, encodeItems, List.nil_append, List.append_assoc] at h
      exact absurd h.symm (encode_append_ne_close w _ _)
  | cons v vs ih =>
    obtain ⟨hv, hvs⟩ := List.forall_mem_cons.1 hvs
    cases ws with
    | nil =>
      rw [encodeItems, encodeItems, List.nil_append, List.append_assoc] at h
      exact absurd h (encode_append_ne_close v _ _)
    | cons w ws =>
      rw [encodeItems, encodeItems, List.append_assoc, List.append_assoc] at h
      obtain ⟨hvw, hrest⟩ := hv w _ _ h
      obtain ⟨items, hab⟩ := ih hvs hrest
      exact ⟨.cons hvw items, hab⟩

/-- The encoded members of an object, in the order in which they stand. -/
def encodeMembers (ms : Members) : List Char := (encodeValues ms).flatMap encodeMember

theorem encodeMembers_cons (k : String) (v : Value) (ms : Members) :
    encodeMembers ((k, v) :: ms)
      = stringText k ++ ':' :: (v.encode ++ ',' :: encodeMembers ms) := by
  unfold encodeMembers
  rw [encodeValues, List.flatMap_cons, encodeMember]
  simp

theorem encodeMembers_append_inj {ms ns : Members} (hms : ∀ m ∈ ms, Readable m.2) {a b : List Char}
    (h : encodeMembers ms ++ '}' :: a = encodeMembers ns ++ '}' :: b) :
    List.Forall₂ Value.ReorderedMember ms ns ∧ a = b := by
  induction ms generalizing ns with
  | nil =>
    cases ns with
    | nil => exact ⟨.nil, (List.cons.inj h).2⟩
    | cons n ns =>
      rw [encodeMembers_cons] at h
      exact absurd (List.cons.inj h).1 (by decide)
  | cons m ms ih =>
    obtain ⟨k, v⟩ := m
    obtain ⟨hv, hms⟩ := List.forall_mem_cons.1 hms
    cases ns with
    | nil =>
      rw [encodeMembers_cons] at h
      exact absurd (List.cons.inj h).1 (by decide)
    | cons n ns =>
      obtain ⟨k', w⟩ := n
      rw [encodeMembers_cons, encodeMembers_cons, List.append_assoc, List.append_assoc] at h
      obtain ⟨rfl, hvalue⟩ := stringText_append_inj h
      rw [List.cons_append, List.cons_append, List.append_assoc, List.append_assoc] at hvalue
      obtain ⟨hvw, hrest⟩ := hv w _ _ (List.cons.inj hvalue).2
      obtain ⟨members, hab⟩ := ih hms hrest
      exact ⟨.cons (.mk k hvw) members, hab⟩

/-- An object is encoded as its members in some order. -/
theorem exists_perm_encode_object (ms : Members) :
    ∃ ns : Members, ms.Perm ns
      ∧ (Value.object ms).encode = '{' :: encodeMembers ns ++ ['}'] := by
  refine ⟨ms.mergeSort fun m n => decide (m.1 ≤ n.1), (List.mergeSort_perm ms _).symm, ?_⟩
  rw [Value.encode, encodeObject, encodeMembers, sortMembers, encodeValues_eq, encodeValues_eq,
    List.map_mergeSort]
  intro m _ n _
  rfl

/-! ## Values -/

/-- An encoded value is known up to the order of members from a text that goes on with a comma. -/
theorem encode_append_inj (v : Value) : Readable v := by
  induction v with
  | null =>
    intro w a b h
    have hkind := kind_eq_of_encode_append_eq h
    cases w <;> cases hkind
    exact ⟨.null, (List.cons.inj (List.append_cancel_left h)).2⟩
  | bool x =>
    intro w a b h
    have hkind := kind_eq_of_encode_append_eq h
    cases w <;> cases hkind
    exact ⟨.bool x, (List.cons.inj (List.append_cancel_left h)).2⟩
  | number m =>
    intro w a b h
    have hkind := kind_eq_of_encode_append_eq h
    cases w <;> cases hkind
    rename_i n
    obtain ⟨rfl, hab⟩ := Number.text_append_inj h
    exact ⟨.number m, hab⟩
  | string s =>
    intro w a b h
    have hkind := kind_eq_of_encode_append_eq h
    cases w <;> cases hkind
    rename_i t
    obtain ⟨rfl, hab⟩ := stringText_append_inj h
    exact ⟨.string s, (List.cons.inj hab).2⟩
  | array vs ih =>
    intro w a b h
    have hkind := kind_eq_of_encode_append_eq h
    cases w <;> cases hkind
    rename_i ws
    rw [Value.encode, Value.encode, List.append_assoc, List.append_assoc] at h
    obtain ⟨items, hab⟩ := encodeItems_append_inj ih (List.cons.inj h).2
    exact ⟨.array items, (List.cons.inj hab).2⟩
  | object ms ih =>
    intro w a b h
    have hkind := kind_eq_of_encode_append_eq h
    cases w <;> cases hkind
    rename_i ns
    obtain ⟨ms', hms, hencode⟩ := exists_perm_encode_object ms
    obtain ⟨ns', hns, hencode'⟩ := exists_perm_encode_object ns
    rw [hencode, hencode', List.append_assoc, List.append_assoc] at h
    have ih' : ∀ m ∈ ms', Readable m.2 := fun m hm => ih m (hms.symm.subset hm)
    obtain ⟨members, hab⟩ := encodeMembers_append_inj ih' (List.cons.inj h).2
    obtain ⟨ns'', members', hns'⟩ := List.perm_comp_forall₂ hms members
    exact ⟨.object members' (hns'.trans hns.symm), (List.cons.inj hab).2⟩

/-- Variables with one encoding differ in the order of members only. -/
theorem reordered_of_encode_eq {v w : Value} (h : v.encode = w.encode) : v.Reordered w :=
  (encode_append_inj v w [] [] (by rw [h])).1

end GraphqlClient.Json

/-! ## Keys of operations -/

namespace GraphqlClient

open Normalization

/-- The key is sixty-four lower-case hexadecimal digits. -/
structure Normalization.DocumentKey.IsDigest (key : DocumentKey) : Prop where
  length : key.digits.toList.length = 64
  digits : ∀ c ∈ key.digits.toList, c ∈ Text.lowerHexDigits

/-- The key of every document is. -/
theorem Normalization.DocumentKey.isDigest_of (d : Syntax.Document) :
    (DocumentKey.of d).IsDigest where
  length := Digest.length_toList_hexDigest d.text
  digits c hc := by
    unfold DocumentKey.of Digest.hexDigest at hc
    rw [String.toList_ofList] at hc
    exact Text.mem_hex hc

namespace OperationKey

/-- The bytes whose digest is the key of an operation. -/
def message (document : DocumentKey) (values : Json.Members) : List UInt8 :=
  (source document values).toUTF8.toList

/-- Keys are equal when the digests of the bytes are. -/
theorem of_eq_of_iff {d e : DocumentKey} {vs ws : Json.Members} :
    of d vs = of e ws ↔ Digest.sha256 (message d vs) = Digest.sha256 (message e ws) := by
  unfold of message
  rw [OperationKey.mk.injEq, Digest.hexDigest_eq_iff]

theorem toList_source (d : DocumentKey) (vs : Json.Members) :
    (source d vs).toList = d.digits.toList ++ '\x00' :: vs.encode := by
  unfold source
  have hnul : "\x00".toList = ['\x00'] := by decide
  rw [String.toList_append, String.toList_append, hnul, String.toList_ofList, List.append_assoc]
  rfl

/-- The digested bytes are those of one document and, up to the order of members, of one set of
variables. -/
theorem eq_and_reordered_of_message_eq {d e : DocumentKey} (hd : d.IsDigest) (he : e.IsDigest)
    {vs ws : Json.Members} (h : message d vs = message e ws) :
    d = e ∧ (Json.Value.object vs).Reordered (.object ws) := by
  have hsource := congrArg String.toList (Text.toList_toUTF8_inj.1 h)
  rw [toList_source, toList_source] at hsource
  obtain ⟨hdigits, hrest⟩ := List.append_inj hsource (hd.length.trans he.length.symm)
  have hkey : DocumentKey.mk d.digits = .mk e.digits :=
    congrArg DocumentKey.mk (String.toList_inj.1 hdigits)
  exact ⟨hkey, Json.reordered_of_encode_eq (List.cons.inj hrest).2⟩

/-- Operations are digested as the same bytes only if they are of one document and their variables
differ in the order of members only. So they have one key only then, or if digests collide. -/
theorem unambiguous {d e : DocumentKey} (hd : d.IsDigest) (he : e.IsDigest) (vs ws : Json.Members) :
    (message d vs = message e ws → d = e ∧ (Json.Value.object vs).Reordered (.object ws))
      ∧ (of d vs = of e ws →
        (d = e ∧ (Json.Value.object vs).Reordered (.object ws))
          ∨ (message d vs ≠ message e ws
            ∧ Digest.sha256 (message d vs) = Digest.sha256 (message e ws))) := by
  refine ⟨eq_and_reordered_of_message_eq hd he, ?_⟩
  intro hkey
  by_cases hmessage : message d vs = message e ws
  · exact .inl (eq_and_reordered_of_message_eq hd he hmessage)
  · exact .inr ⟨hmessage, of_eq_of_iff.1 hkey⟩

/-- Variables with a string that is spelled as the encoding of a list. -/
def spelledVariables : Json.Members :=
  [("a", .string "t"), ("b", .string r#"[{"x":true,"y":null,},]"#)]

theorem unambiguous_nestedVariables :
    (DocumentKey.of []).IsDigest
      ∧ message (.of []) Operation.nestedVariables = message (.of []) Operation.nestedVariables'
      ∧ (Json.Value.object Operation.nestedVariables).Reordered
        (.object Operation.nestedVariables')
      ∧ message (.of []) Operation.nestedVariables ≠ message (.of []) spelledVariables := by
  have hdigest := DocumentKey.isDigest_of []
  have hmessage : message (.of []) Operation.nestedVariables
      = message (.of []) Operation.nestedVariables' := by
    unfold message
    rw [source_eq_of_reordered Operation.reordered_nestedVariables
      Operation.distinct_nestedVariables]
  obtain ⟨hnested, -⟩ :=
    unambiguous hdigest hdigest Operation.nestedVariables Operation.nestedVariables'
  obtain ⟨hspelled, -⟩ := unambiguous hdigest hdigest Operation.nestedVariables spelledVariables
  refine ⟨hdigest, hmessage, (hnested hmessage).2, ?_⟩
  intro h
  -- No member of the one is a list as a member of the other is.
  obtain _ | _ | _ | _ | _ | ⟨members, perm⟩ := (hspelled h).2
  obtain ⟨m, hm, hb⟩ := Json.exists_reorderedMember members List.mem_cons_self
  have hmem := perm.subset hm
  cases hb with
  | mk key value =>
    cases value
    simp [spelledVariables] at hmem

end OperationKey

end GraphqlClient
