import GraphqlClient.Proofs.Normalization.Reading

/-!
# Normalising twice

The text of a normalised document normalises to the same instance, then and at any later time, and
leaves the session as it is (`normalizeText_text`). The text is read back as the document that was
written, no fragment of which is repeated, and the cache still has the instance of that document.
-/

namespace GraphqlClient.Normalization

open Syntax

namespace Session

theorem normalizeText_text_canonicalize {s : Session} (hs : s.Coherent) {d : Document}
    (hread : Document.ofText? d.text = some d) (hd : dedupe d = d) (hconflicts : conflicts d = [])
    (config : Config) (later : List Command) :
    ((s.canonicalize d).session.run later).normalizeText config d.text
      = some ⟨(s.canonicalize d).document, [.reused], (s.canonicalize d).session.run later⟩ := by
  rw [normalizeText, normalize_eq, Template.definitions?_ofText, hread, Option.map_some, hd,
    hconflicts, canonicalize_run_canonicalize hs]
  simp

/-- What a template normalises to is what its text normalises to. -/
theorem normalizeText_text_normalize {s : Session} (hs : s.Coherent) {config : Config}
    {t : Template} {del : Delivery} (hread : ∀ x ∈ t.interpolated, x.IsRead)
    (hdel : s.normalize config t = some del) (hno : s.NoCollision t) (config' : Config)
    (later : List Command) :
    (del.session.run later).normalizeText config' del.document.document.text
      = some ⟨del.document, [.reused], del.session.run later⟩ := by
  obtain ⟨ds, hds, hdocument, hsession⟩ := normalize_eq_some hdel
  have hback : Document.ofText? (Document.text (dedupe ds)) = some (dedupe ds) := by
    refine ofText?_text_of_isRead (dedupe_ne_nil (Template.definitions?_ne_nil hds)) ?_
    exact fun x hx => Template.isRead_of_definitions? hread hds x (mem_of_mem_dedupe hx)
  rw [text_normalize hs hdel hno hds, hdocument, hsession]
  exact normalizeText_text_canonicalize hs hback (dedupe_dedupe ds) (conflicts_dedupe ds) config'
    later

/-- After any history, the text of what a text or a template normalises to normalises, at any later
time, to the same instance and leaves the session as it is. -/
theorem normalizeText_text (n : Nat) (history later : List Command) (config config' : Config) :
    (∀ text del, ((empty n).run history).normalizeText config text = some del →
      ((empty n).run history).NoCollision (.ofText text) →
        (del.session.run later).normalizeText config' del.document.document.text
          = some ⟨del.document, [.reused], del.session.run later⟩)
      ∧ ∀ t del, (∀ x ∈ t.interpolated, x.IsRead) →
        ((empty n).run history).normalize config t = some del →
          ((empty n).run history).NoCollision t →
            (del.session.run later).normalizeText config' del.document.document.text
              = some ⟨del.document, [.reused], del.session.run later⟩ := by
  have hs := coherent_run_empty n history
  constructor
  · intro text del hdel hno
    have hread : ∀ x ∈ (Template.ofText text).interpolated, x.IsRead :=
      fun _ hx => absurd hx List.not_mem_nil
    exact normalizeText_text_normalize hs hread hdel hno config' later
  · intro t del hread hdel hno
    exact normalizeText_text_normalize hs hread hdel hno config' later

/-- A text with a block string, an argument that is dropped and a fragment that is repeated. -/
def looseText : String := r#"query Q ($a : Int! = 1) { b(c: """
  x
    y """, d: [1.50, "\u0007"], e) ...F } fragment F on T { e } fragment F on T { f }"#

/-- The form in which `looseText` is written with a fragment behind it. -/
def strictText : String := r#"query Q($a: Int! = 1) {
  b(c: "x\n  y ", d: [1.50, "\u0007"])
  ...F
}

fragment F on T {
  e
}

fragment G on T {
  g @h
}
"#

theorem normalizeText_text_looseText :
    ∃ gs del, Document.ofText? "fragment G on T { g @h }" = some gs
      ∧ ((empty 0).run [.canonicalizeText strictText]).normalize {} ⟨[looseText], [.document gs]⟩
        = some del
      ∧ del.document.identity = 0
      ∧ del.session.normalizeText {} strictText = some ⟨del.document, [.reused], del.session⟩ := by
  obtain ⟨gs, hgs⟩ : ∃ gs, Document.ofText? "fragment G on T { g @h }" = some gs :=
    Option.isSome_iff_exists.1 (by decide +kernel)
  obtain ⟨d, hd, hdtext⟩ : ∃ d, Document.ofText? strictText = some d ∧ d.text = strictText :=
    Option.map_eq_some_iff.1 (by decide +kernel)
  have hloose : ((Document.ofText? "fragment G on T { g @h }").bind fun gs =>
      (Template.definitions? ⟨[looseText], [.document gs]⟩).map fun ds =>
        Document.text (dedupe ds)) = some strictText := by decide +kernel
  rw [hgs, Option.bind_some] at hloose
  obtain ⟨ds, hds, htext⟩ := Option.map_eq_some_iff.1 hloose
  have hread : ∀ x ∈ (Template.mk [looseText] [.document gs]).interpolated, x.IsRead := by
    intro x hx
    exact ⟨_, gs, hgs, by simpa [Template.interpolated, Interpolation.definitions] using hx⟩
  have hsame : d = dedupe ds := by
    refine eq_of_text_eq (fun x hx => ⟨_, d, hd, hx⟩) (fun x hx => ?_) (hdtext.trans htext.symm)
    exact Template.isRead_of_definitions? hread hds x (mem_of_mem_dedupe hx)
  have hrun := (empty 0).run_canonicalizeText hd
  have hno : ((empty 0).run [.canonicalizeText strictText]).NoCollision
      ⟨[looseText], [.document gs]⟩ := by
    rw [hrun]
    exact noCollision_canonicalize_empty 0 hds (hdtext.trans htext.symm)
  obtain ⟨del, hdel⟩ := ((empty 0).run [.canonicalizeText strictText]).exists_normalize {} hds
  have hagain :=
    (normalizeText_text 0 [.canonicalizeText strictText] [] {} {}).2 _ del hread hdel hno
  have hdeltext := text_normalize (coherent_run_empty 0 _) hdel hno hds
  rw [hdeltext, htext] at hagain
  refine ⟨gs, del, hgs, hdel, ?_, hagain⟩
  obtain ⟨ds', hds', hdocument, -⟩ := normalize_eq_some hdel
  obtain rfl : ds = ds' := Option.some.inj (hds.symm.trans hds')
  have hfound := canonicalize_run_canonicalize (coherent_run_empty 0 []) d []
  rw [hdocument, ← hsame, hrun]
  exact congrArg (fun del => del.document.identity) hfound

end Session

end GraphqlClient.Normalization
