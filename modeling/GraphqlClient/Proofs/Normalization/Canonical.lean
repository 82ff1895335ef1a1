import GraphqlClient.Proofs.Normalization.History
import Mathlib.Data.Finset.Dedup
import Mathlib.Data.Finset.Card

/-!
# Canonical instances

Over every history of a cache that starts empty, a key leads to the first instance that was returned
for it, and keeps doing so (`instances_run_empty`). Two returned documents are therefore one
instance exactly when their keys are equal.
-/

namespace GraphqlClient.Normalization

open Syntax

/-- A command that fails, looks up or wraps leaves the cache alone. -/
theorem Command.cache_after_of_none {s : Session} {c : Command}
    (hc : c.deliver s = none ∨ c.canonicalizes = false) : (c.after s).cache = s.cache := by
  rcases hc with hnone | hc
  · rw [after, hnone]
    rfl
  · obtain ⟨d, hd, -⟩ | ⟨-, hcache, -⟩ := c.after_cases s
    · rw [document?_of_not_canonicalizes hc] at hd
      cases hd
    · exact hcache

namespace Session

/-- A session on an empty cache, where other instances already have some identities. -/
def empty (nextIdentity : Nat) : Session := { nextIdentity }

theorem coherent_run_empty (n : Nat) (history : List Command) :
    ((empty n).run history).Coherent :=
  coherent_run (coherent_of_cache_eq_empty rfl) history

/-- From an empty cache, a key leads to the first instance that was returned for it. -/
theorem get?_run_empty (n : Nat) (history : List Command) (key : DocumentKey) :
    ((empty n).run history).cache.get? key
      = ((empty n).returned history).find? fun a => a.key = key := by
  have hempty : (empty n).cache.get? key = none := rfl
  rw [get?_run (coherent_of_cache_eq_empty rfl), hempty, Option.none_or]

/-- An instance that is returned has the key of the document that it is returned for. -/
theorem key_canonicalize {s : Session} (hs : s.Coherent) (d : Document) :
    (s.canonicalize d).document.key = .of d := by
  obtain ⟨found, hfound, heq⟩ | ⟨-, heq⟩ := s.canonicalize_cases d
  · rw [heq]
    exact (hs.key _ (Lookup.mem_of_lookup hfound)).1.symm
  · rw [heq]
    rfl

theorem keys_returned {s : Session} (hs : s.Coherent) (history : List Command) :
    (s.returned history).map KeyedDocument.key
      = (history.filterMap Command.document?).map DocumentKey.of := by
  induction history generalizing s with
  | nil => rfl
  | cons c cs ih =>
    rw [returned, List.map_append, ih (coherent_after hs c), c.returned?_eq]
    cases hd : c.document? with
    | none => simp [hd]
    | some d => simp [hd, key_canonicalize hs]

theorem get?_canonicalize_self (s : Session) (d : Document) :
    (s.canonicalize d).session.cache.get? (.of d) = some (s.canonicalize d).document := by
  obtain ⟨found, hfound, heq⟩ | ⟨hnone, heq⟩ := s.canonicalize_cases d
  · rw [heq]
    exact hfound
  · rw [heq, Cache.get?_register, hnone, Option.none_or]
    exact if_pos rfl

/-- A returned instance is the one that its key leads to at the end of the history. -/
theorem get?_key_of_mem_returned {s : Session} (hs : s.Coherent) {history : List Command}
    {a : KeyedDocument} (ha : a ∈ s.returned history) :
    (s.run history).cache.get? a.key = some a := by
  induction history generalizing s with
  | nil => cases ha
  | cons c cs ih =>
    rcases List.mem_append.1 ha with ha | ha
    · rw [c.returned?_eq, Option.mem_toList, Option.map_eq_some_iff] at ha
      obtain ⟨d, hd, rfl⟩ := ha
      obtain ⟨d', hd', hafter⟩ | ⟨hnone, -⟩ := c.after_cases s
      · obtain rfl : d = d' := Option.some.inj (hd.symm.trans hd')
        rw [run_cons, get?_run (coherent_after hs c), hafter, key_canonicalize hs,
          get?_canonicalize_self, Option.some_or]
      · rw [hnone] at hd
        cases hd
    · exact ih (coherent_after hs c) ha

/-- Two entries are one instance exactly when their keys are equal. -/
theorem isSame_iff_of_get? {s : Session} (hs : s.Coherent) {a b : KeyedDocument}
    (ha : s.cache.get? a.key = some a) (hb : s.cache.get? b.key = some b) :
    a.isSame b = true ↔ a.key = b.key := by
  rw [KeyedDocument.isSame, decide_eq_true_eq]
  constructor
  · intro hid
    have hentry := List.inj_on_of_nodup_map hs.identities (Lookup.mem_of_lookup ha)
      (Lookup.mem_of_lookup hb) hid
    exact (Prod.mk.inj hentry).1
  · intro hkey
    rw [hkey, hb] at ha
    rw [Option.some.inj ha]

/-- The keys of entries are those of the returned instances. -/
theorem toFinset_keys_run_empty (n : Nat) (history : List Command) :
    (((empty n).run history).cache.entries.map Prod.fst).toFinset
      = (((empty n).returned history).map KeyedDocument.key).toFinset := by
  ext key
  rw [List.mem_toFinset, List.mem_toFinset, ← not_iff_not, ← Lookup.lookup_eq_none_iff]
  show ((empty n).run history).cache.get? key = none ↔ _
  rw [get?_run_empty, List.find?_eq_none]
  simp

/-- There are as many entries as keys of returned instances. -/
theorem size_run_empty (n : Nat) (history : List Command) :
    ((empty n).run history).cache.size
      = (((empty n).returned history).map KeyedDocument.key).toFinset.card := by
  rw [← toFinset_keys_run_empty, List.toFinset_card_of_nodup (coherent_run_empty n history).keys,
    List.length_map, Cache.size]

/-- What holds of the instances at the end of a history of a cache that starts empty. -/
structure Instances (n : Nat) (history : List Command) : Prop where
  /-- Entries stand under the keys of their documents. -/
  keyed : ∀ e ∈ ((empty n).run history).cache.entries, e.1 = e.2.key ∧ e.1 = .of e.2.document
  /-- Returned documents are one instance exactly when their keys are equal. -/
  same : ∀ a ∈ (empty n).returned history, ∀ b ∈ (empty n).returned history,
    a.isSame b = true ↔ a.key = b.key
  /-- A key leads to the first instance that was returned for it, -/
  first : ∀ key, ((empty n).run history).cache.get? key
    = ((empty n).returned history).find? fun a => a.key = key
  /-- which is the only one ever returned for it. -/
  found : ∀ a ∈ (empty n).returned history, ((empty n).run history).cache.get? a.key = some a
  /-- Instances are returned for the documents that were canonicalised, -/
  keys : ((empty n).returned history).map KeyedDocument.key
    = (history.filterMap Command.document?).map DocumentKey.of
  /-- and entries are as many as their keys. -/
  size : ((empty n).run history).cache.size
    = (((empty n).returned history).map KeyedDocument.key).toFinset.card
  /-- Entries stay whatever follows. -/
  kept : ∀ further, ((empty n).run history).cache.entries
    <+: ((empty n).run (history ++ further)).cache.entries
  /-- A command that fails, looks up or wraps leaves the cache alone. -/
  untouched : ∀ c : Command,
    c.deliver ((empty n).run history) = none ∨ c.canonicalizes = false →
      ((empty n).run (history ++ [c])).cache = ((empty n).run history).cache

/-- Every history of a cache that starts empty keeps the laws of its instances. -/
theorem instances_run_empty (n : Nat) (history : List Command) : Instances n history := by
  have hempty : (empty n).Coherent := coherent_of_cache_eq_empty rfl
  have hrun := coherent_run hempty history
  constructor
  case keyed => exact hrun.key
  case same =>
    intro a ha b hb
    exact isSame_iff_of_get? hrun (get?_key_of_mem_returned hempty ha)
      (get?_key_of_mem_returned hempty hb)
  case first => exact get?_run_empty n history
  case found => exact fun a => get?_key_of_mem_returned hempty
  case keys => exact keys_returned hempty history
  case size => exact size_run_empty n history
  case kept =>
    intro further
    rw [run_append]
    exact entries_prefix_run _ further
  case untouched =>
    intro c hc
    rw [run_append, run_cons, run_nil]
    exact Command.cache_after_of_none hc

/-- Two texts of one document, with another document between them. -/
def sharedText : List Command :=
  [.normalizeText {} "{ a }", .wrap [], .canonicalize [], .canonicalizeText "query { a, }",
    .get (.of [])]

/-- The form in which that document is written. -/
def sharedForm : String := "{
  a
}
"

theorem instances_sharedText :
    ∃ a b c, (empty 7).returned sharedText = [a, b, c]
      ∧ a.key = c.key ∧ a.isSame c = true ∧ a.key ≠ b.key ∧ a.isSame b = false
      ∧ ((empty 7).run sharedText).cache.get? a.key = some a
      ∧ ((empty 7).run sharedText).cache.size = 2
      ∧ (Command.canonicalizeText r"{").deliver ((empty 7).run sharedText) = none
      ∧ ((empty 7).run (sharedText ++ [.canonicalizeText r"{"])).cache
        = ((empty 7).run sharedText).cache := by
  have htexts : (sharedText.filterMap Command.document?).map Document.text
      = [sharedForm, "", sharedForm] := by decide +kernel
  have hdigest : Digest.hexDigest sharedForm ≠ Digest.hexDigest "" := by decide +kernel
  have hnone : (Document.ofText? r"{").isNone = true := by decide +kernel
  have instances := instances_run_empty 7 sharedText
  have hof : DocumentKey.of = (fun text => ⟨Digest.hexDigest text⟩) ∘ Document.text := rfl
  have hkeys := instances.keys
  rw [hof, ← List.map_map, htexts] at hkeys
  obtain ⟨a, b, c, habc⟩ : ∃ a b c, (empty 7).returned sharedText = [a, b, c] :=
    List.length_eq_three.1 (by simpa using congrArg List.length hkeys)
  have hcard := instances.size
  rw [hkeys] at hcard
  rw [habc] at hkeys
  obtain ⟨ha, hb, hc⟩ : a.key = _ ∧ b.key = _ ∧ c.key = _ := by simpa using hkeys
  have hac : a.key = c.key := ha.trans hc.symm
  have hab : a.key ≠ b.key := by
    rw [ha, hb]
    exact fun h => hdigest (DocumentKey.mk.inj h)
  have hamem : a ∈ (empty 7).returned sharedText := by simp [habc]
  have hbmem : b ∈ (empty 7).returned sharedText := by simp [habc]
  have hcmem : c ∈ (empty 7).returned sharedText := by simp [habc]
  have hdeliver : (Command.canonicalizeText r"{").deliver ((empty 7).run sharedText) = none := by
    show (Document.ofText? r"{").map _ = none
    rw [Option.isNone_iff_eq_none.1 hnone, Option.map_none]
  refine ⟨a, b, c, habc, hac, (instances.same a hamem c hcmem).2 hac, hab, ?_,
    instances.found a hamem, ?_, hdeliver, instances.untouched _ (.inl hdeliver)⟩
  · exact Bool.eq_false_iff.2 fun h => hab ((instances.same a hamem b hbmem).1 h)
  · have hne : DocumentKey.mk (Digest.hexDigest "") ≠ ⟨Digest.hexDigest sharedForm⟩ :=
      fun h => hdigest (DocumentKey.mk.inj h).symm
    rw [hcard]
    simpa [hdigest] using Finset.card_pair hne

end Session

end GraphqlClient.Normalization
