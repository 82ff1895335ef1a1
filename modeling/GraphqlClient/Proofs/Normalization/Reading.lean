import GraphqlClient.Proofs.Normalization.Canonical
import GraphqlClient.Proofs.Normalization.Dedupe
import GraphqlClient.Proofs.Syntax.RoundTrip

/-!
# Sessions over documents that were read

What normalising a template returns is the canonical instance of one document, whose definitions are
read ones if those of the template are. A cache finds instances by digests: `Session.NoCollision`
says that the document of a template shares its digest with no cached document of another text, and
then the instance that is returned has the text of that document (`Session.text_normalize`).
-/

namespace GraphqlClient.Normalization

open Syntax

/-! ## Definitions of templates -/

theorem Template.definitions?_ne_nil {t : Template} {ds : List Definition}
    (h : t.definitions? = some ds) : ds ≠ [] := by
  unfold definitions? at h
  split at h
  · rename_i hblank
    cases h
    simp only [Bool.and_eq_true, Bool.not_eq_true', List.isEmpty_eq_false_iff] at hblank
    exact hblank.2
  · obtain ⟨d, hd, rfl⟩ := Option.map_eq_some_iff.1 h
    exact List.append_ne_nil_of_left_ne_nil (legal_of_ofText? hd).ne_nil t.interpolated

/-- The definitions of a template were read from its body, or are those of its documents. -/
theorem Template.isRead_or_mem_interpolated {t : Template} {ds : List Definition}
    (h : t.definitions? = some ds) : ∀ x ∈ ds, x.IsRead ∨ x ∈ t.interpolated := by
  unfold definitions? at h
  split at h
  · cases h
    exact fun x hx => .inr hx
  · obtain ⟨d, hd, rfl⟩ := Option.map_eq_some_iff.1 h
    exact List.forall_mem_append.2 ⟨fun x hx => .inl ⟨t.body, d, hd, hx⟩, fun x hx => .inr hx⟩

theorem Template.isRead_of_definitions? {t : Template} (ht : ∀ x ∈ t.interpolated, x.IsRead)
    {ds : List Definition} (h : t.definitions? = some ds) : ∀ x ∈ ds, x.IsRead :=
  fun x hx => (isRead_or_mem_interpolated h x hx).elim id (ht x)

namespace Session

/-! ## Canonicalising once more -/

theorem canonicalize_of_get? {s : Session} {d : Document} {found : KeyedDocument}
    (h : s.cache.get? (.of d) = some found) : s.canonicalize d = ⟨found, [.reused], s⟩ := by
  rw [canonicalize, h]

theorem get?_run_canonicalize {s : Session} (hs : s.Coherent) (d : Document)
    (later : List Command) :
    ((s.canonicalize d).session.run later).cache.get? (.of d)
      = some (s.canonicalize d).document := by
  rw [get?_run (coherent_canonicalize hs d), get?_canonicalize_self, Option.some_or]

/-- The document that an instance holds has the key of the document that it was returned for. -/
theorem of_document_canonicalize {s : Session} (hs : s.Coherent) (d : Document) :
    DocumentKey.of (s.canonicalize d).document.document = .of d := by
  obtain ⟨found, hfound, heq⟩ | ⟨-, heq⟩ := s.canonicalize_cases d
  · rw [heq]
    exact (hs.key _ (Lookup.mem_of_lookup hfound)).2.symm
  · rw [heq]
    rfl

/-- A document leads to its instance again, whatever came between. -/
theorem canonicalize_run_canonicalize {s : Session} (hs : s.Coherent) (d : Document)
    (later : List Command) :
    ((s.canonicalize d).session.run later).canonicalize d
      = ⟨(s.canonicalize d).document, [.reused], (s.canonicalize d).session.run later⟩ :=
  canonicalize_of_get? (get?_run_canonicalize hs d later)

/-! ## Normalising -/

theorem normalize_eq_some {s : Session} {config : Config} {t : Template} {del : Delivery}
    (h : s.normalize config t = some del) :
    ∃ ds, t.definitions? = some ds ∧ del.document = (s.canonicalize (dedupe ds)).document
      ∧ del.session = (s.canonicalize (dedupe ds)).session := by
  rw [normalize_eq] at h
  obtain ⟨ds, hds, rfl⟩ := Option.map_eq_some_iff.1 h
  exact ⟨ds, hds, rfl, rfl⟩

/-- A template with definitions normalises. -/
theorem exists_normalize (s : Session) (config : Config) {t : Template} {ds : List Definition}
    (h : t.definitions? = some ds) : ∃ del, s.normalize config t = some del := by
  rw [normalize_eq, h]
  exact ⟨_, rfl⟩

/-- No cached document of another text has the digest of the document of a template. -/
def NoCollision (s : Session) (t : Template) : Prop :=
  ∀ ds ∈ t.definitions?, ∀ e ∈ s.cache.entries,
    DocumentKey.of e.2.document = .of (dedupe ds) → e.2.document.text = Document.text (dedupe ds)

/-- The instance of a document has its text, if no cached document collides with it. -/
theorem text_canonicalize {s : Session} (hs : s.Coherent) {d : Document}
    (hno : ∀ e ∈ s.cache.entries,
      DocumentKey.of e.2.document = .of d → e.2.document.text = d.text) :
    (s.canonicalize d).document.document.text = d.text := by
  obtain ⟨found, hfound, heq⟩ | ⟨-, heq⟩ := s.canonicalize_cases d
  · have hmem := Lookup.mem_of_lookup hfound
    rw [heq]
    exact hno _ hmem (hs.key _ hmem).2.symm
  · rw [heq]
    rfl

theorem text_normalize {s : Session} (hs : s.Coherent) {config : Config} {t : Template}
    {del : Delivery} (hdel : s.normalize config t = some del) (hno : s.NoCollision t)
    {ds : List Definition} (hds : t.definitions? = some ds) :
    del.document.document.text = Document.text (dedupe ds) := by
  obtain ⟨ds', hds', hdocument, -⟩ := normalize_eq_some hdel
  obtain rfl : ds = ds' := Option.some.inj (hds.symm.trans hds')
  rw [hdocument]
  exact text_canonicalize hs (hno ds hds)

theorem run_canonicalizeText (s : Session) {text : String} {d : Document}
    (h : Document.ofText? text = some d) :
    s.run [.canonicalizeText text] = (s.canonicalize d).session := by
  show (((Document.ofText? text).map s.canonicalize).map Delivery.session).getD s = _
  rw [h]
  rfl

/-- A document of the same text, alone in a cache, does not collide. -/
theorem noCollision_canonicalize_empty (n : Nat) {t : Template} {ds : List Definition}
    (hds : t.definitions? = some ds) {d : Document} (htext : d.text = Document.text (dedupe ds)) :
    ((empty n).canonicalize d).session.NoCollision t := by
  intro ds' hds' e he _
  obtain rfl : ds = ds' := Option.some.inj (hds.symm.trans hds')
  obtain rfl := List.mem_singleton.1 he
  exact htext

end Session

/-! ## What cached definitions have in common -/

namespace Session

variable {P : Definition → Prop}

/-- The definitions of cached documents have a property. -/
def All (P : Definition → Prop) (s : Session) : Prop :=
  ∀ e ∈ s.cache.entries, ∀ x ∈ e.2.document, P x

theorem all_canonicalize {s : Session} (hs : s.All P) {d : Document} (hd : ∀ x ∈ d, P x) :
    (s.canonicalize d).session.All P := by
  obtain ⟨found, -, heq⟩ | ⟨-, heq⟩ := s.canonicalize_cases d
  · rw [heq]
    exact hs
  · rw [heq]
    exact List.forall_mem_append.2 ⟨hs, List.forall_mem_singleton.2 hd⟩

theorem all_after {s : Session} (hs : s.All P) {c : Command}
    (hc : ∀ d ∈ c.document?, ∀ x ∈ d, P x) : (c.after s).All P := by
  obtain ⟨d, hd, hafter⟩ | ⟨-, hcache, -⟩ := c.after_cases s
  · rw [hafter]
    exact all_canonicalize hs (hc d hd)
  · unfold All
    rw [hcache]
    exact hs

theorem all_run {s : Session} (hs : s.All P) {history : List Command}
    (h : ∀ c ∈ history, ∀ d ∈ c.document?, ∀ x ∈ d, P x) : (s.run history).All P := by
  induction history generalizing s with
  | nil => exact hs
  | cons c cs ih =>
    obtain ⟨hc, hcs⟩ := List.forall_mem_cons.1 h
    exact ih (all_after hs hc) hcs

theorem all_run_empty (n : Nat) {history : List Command}
    (h : ∀ c ∈ history, ∀ d ∈ c.document?, ∀ x ∈ d, P x) : ((empty n).run history).All P :=
  all_run (fun _ he => absurd he List.not_mem_nil) h

/-- The instance of a document has what cached definitions have in common, if the document does. -/
theorem forall_mem_canonicalize {s : Session} (hs : s.All P) {d : Document} (hd : ∀ x ∈ d, P x) :
    ∀ x ∈ (s.canonicalize d).document.document, P x := by
  obtain ⟨found, hfound, heq⟩ | ⟨-, heq⟩ := s.canonicalize_cases d
  · rw [heq]
    exact hs _ (Lookup.mem_of_lookup hfound)
  · rw [heq]
    exact hd

end Session

/-! ## Histories of documents that were read -/

/-- What the command canonicalises, if anything, was read from texts. -/
def Command.IsRead (c : Command) : Prop := ∀ d ∈ c.document?, ∀ x ∈ d, x.IsRead

namespace Session

/-- Documents that were read normalise to such a document, which may stand in a template again. -/
theorem isRead_normalize {s : Session} (hs : s.All Definition.IsRead) {config : Config}
    {t : Template} {del : Delivery} (ht : ∀ x ∈ t.interpolated, x.IsRead)
    (hdel : s.normalize config t = some del) :
    ∀ x ∈ del.document.document, x.IsRead := by
  obtain ⟨ds, hds, hdocument, -⟩ := normalize_eq_some hdel
  rw [hdocument]
  refine forall_mem_canonicalize hs fun x hx => ?_
  exact Template.isRead_of_definitions? ht hds x (mem_of_mem_dedupe hx)

/-- Where all documents were read, a template normalises to what remains of its definitions. -/
theorem document_normalize {s : Session} (hs : s.Coherent) (hread : s.All Definition.IsRead)
    {config : Config} {t : Template} {del : Delivery} (ht : ∀ x ∈ t.interpolated, x.IsRead)
    (hdel : s.normalize config t = some del) (hno : s.NoCollision t) {ds : List Definition}
    (hds : t.definitions? = some ds) : del.document.document = dedupe ds := by
  have hkept : ∀ x ∈ dedupe ds, x.IsRead := fun x hx =>
    Template.isRead_of_definitions? ht hds x (mem_of_mem_dedupe hx)
  exact eq_of_text_eq (isRead_normalize hread ht hdel) hkept (text_normalize hs hdel hno hds)

end Session

end GraphqlClient.Normalization
