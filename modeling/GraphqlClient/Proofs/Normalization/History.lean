import GraphqlClient.Normalization.Normalizer
import GraphqlClient.Proofs.Lookup

/-!
# Histories of a cache

A cache is used by commands, any number of them in any order: documents are normalised or
canonicalised, looked up by their keys, or wrapped without the cache. Whatever a command is, it does
one of two things (`Command.after_cases`): it canonicalises the one document that it stands for
(`Command.document?`), or it leaves the cache alone.

So what a history keeps is what canonicalising one document keeps: `Session.Coherent`, under which
an entry is known from its key and from its identity.
-/

namespace GraphqlClient.Normalization

open Syntax

/-- One use of a cache. -/
inductive Command
  | normalize (config : Config) (t : Template)
  | normalizeText (config : Config) (text : String)
  | canonicalizeText (text : String)
  | canonicalize (d : Document)
  | get (key : DocumentKey)
  | wrap (d : Document)

namespace Command

/-- What a session answers to a command; none when a text is no document or a key is not known. -/
def deliver (s : Session) : Command → Option Delivery
  | .normalize config t => s.normalize config t
  | .normalizeText config text => s.normalizeText config text
  | .canonicalizeText text => s.canonicalizeText text
  | .canonicalize d => some (s.canonicalize d)
  | .get key => (s.cache.get? key).map fun d => ⟨d, [], s⟩
  | .wrap d => some (s.wrap d)

/-- The session after a command, which is the same one when there is no answer. -/
def after (s : Session) (c : Command) : Session := ((c.deliver s).map Delivery.session).getD s

/-- Whether the command hands out canonical instances. -/
def canonicalizes : Command → Bool
  | .get _ => false
  | .wrap _ => false
  | _ => true

/-- The canonical instance that a command returns. -/
def returned? (s : Session) (c : Command) : Option KeyedDocument :=
  if c.canonicalizes then (c.deliver s).map Delivery.document else none

/-- The document that a command canonicalises. -/
def document? : Command → Option Document
  | .normalize _ t => t.definitions?.map dedupe
  | .normalizeText _ text => (Template.ofText text).definitions?.map dedupe
  | .canonicalizeText text => Document.ofText? text
  | .canonicalize d => some d
  | _ => none

end Command

namespace Session

/-- The session after a history. -/
def run (s : Session) (history : List Command) : Session := history.foldl Command.after s

/-- The canonical instances that the commands of a history return, in order. -/
def returned : Session → List Command → List KeyedDocument
  | _, [] => []
  | s, c :: cs => (c.returned? s).toList ++ returned (c.after s) cs

@[simp] theorem run_nil (s : Session) : s.run [] = s := rfl

@[simp] theorem run_cons (s : Session) (c : Command) (cs : List Command) :
    s.run (c :: cs) = (c.after s).run cs := rfl

theorem run_append (s : Session) (before after : List Command) :
    s.run (before ++ after) = (s.run before).run after :=
  List.foldl_append

/-! ## Canonicalising one document -/

/-- What canonicalising a document does: the instance of its key is found, or registered. -/
theorem canonicalize_cases (s : Session) (d : Document) :
    (∃ found, s.cache.get? (.of d) = some found ∧ s.canonicalize d = ⟨found, [.reused], s⟩)
      ∨ s.cache.get? (.of d) = none ∧ s.canonicalize d
        = ⟨s.newInstance d, [.registered],
          ⟨s.cache.register (s.newInstance d), s.nextIdentity + 1⟩⟩ := by
  unfold canonicalize
  cases h : s.cache.get? (.of d) with
  | some found => exact .inl ⟨found, rfl, rfl⟩
  | none => exact .inr ⟨rfl, rfl⟩

/-- Normalising a template canonicalises its definitions, less repeated fragments. -/
theorem normalize_eq (s : Session) (config : Config) (t : Template) :
    s.normalize config t = t.definitions?.map fun ds =>
      { s.canonicalize (dedupe ds) with
        notices := (if config.diagnosticsEnabled then conflicts ds else []).map Notice.conflict
          ++ (s.canonicalize (dedupe ds)).notices } := by
  unfold normalize
  cases t.definitions? with
  | none => rfl
  | some ds => rfl

end Session

namespace Command

/-! ## One command -/

theorem deliver_normalize (s : Session) (config : Config) (t : Template) :
    (s.normalize config t).map (fun del => (del.document, del.session))
      = (t.definitions?.map dedupe).map
        fun d => ((s.canonicalize d).document, (s.canonicalize d).session) := by
  rw [Session.normalize_eq]
  cases t.definitions? with
  | none => rfl
  | some ds => rfl

/-- A canonicalising command answers with the canonical instance of its document. -/
theorem deliver_eq {c : Command} (hc : c.canonicalizes = true) (s : Session) :
    (c.deliver s).map (fun del => (del.document, del.session))
      = c.document?.map
        fun d => ((s.canonicalize d).document, (s.canonicalize d).session) := by
  cases c with
  | normalize config t => exact deliver_normalize s config t
  | normalizeText config text => exact deliver_normalize s config (.ofText text)
  | canonicalizeText text =>
    show ((Document.ofText? text).map s.canonicalize).map _ = _
    rw [Option.map_map]
    rfl
  | canonicalize d => rfl
  | get key => cases hc
  | wrap d => cases hc

theorem document?_of_not_canonicalizes {c : Command} (hc : c.canonicalizes = false) :
    c.document? = none := by
  cases c <;> first | rfl | cases hc

theorem returned?_eq (s : Session) (c : Command) :
    c.returned? s = c.document?.map fun d => (s.canonicalize d).document := by
  unfold returned?
  cases hc : c.canonicalizes with
  | false => rw [document?_of_not_canonicalizes hc]; rfl
  | true =>
    have h := congrArg (Option.map Prod.fst) (deliver_eq hc s)
    simpa [Function.comp_def] using h

/-- A command canonicalises its document, or leaves the cache as it is. -/
theorem after_cases (s : Session) (c : Command) :
    (∃ d, c.document? = some d ∧ c.after s = (s.canonicalize d).session)
      ∨ c.document? = none ∧ (c.after s).cache = s.cache
        ∧ s.nextIdentity ≤ (c.after s).nextIdentity := by
  cases hc : c.canonicalizes with
  | true =>
    have h := congrArg (Option.map Prod.snd) (deliver_eq hc s)
    simp only [Option.map_map, Function.comp_def] at h
    have hafter : c.after s = ((c.deliver s).map fun del => del.session).getD s := rfl
    rw [h] at hafter
    cases hd : c.document? with
    | some d =>
      rw [hd] at hafter
      exact .inl ⟨d, rfl, hafter⟩
    | none =>
      rw [hd] at hafter
      have hs : c.after s = s := hafter
      exact .inr ⟨rfl, by rw [hs], Nat.le_of_eq (by rw [hs])⟩
  | false =>
    refine .inr ⟨document?_of_not_canonicalizes hc, ?_⟩
    cases c with
    | get key =>
      have hs : (get key).after s = s := by
        cases h : s.cache.get? key <;> simp [after, deliver, h]
      rw [hs]
      exact ⟨rfl, Nat.le_refl _⟩
    | wrap d => exact ⟨rfl, Nat.le_succ _⟩
    | _ => cases hc

end Command

/-! ## What a history keeps -/

/-- Entries stand under the keys of their documents, each key once, each instance with an identity
of its own. -/
structure Session.Coherent (s : Session) : Prop where
  key : ∀ e ∈ s.cache.entries, e.1 = e.2.key ∧ e.1 = .of e.2.document
  keys : (s.cache.entries.map Prod.fst).Nodup
  identities : (s.cache.entries.map fun e => e.2.identity).Nodup
  known : ∀ e ∈ s.cache.entries, e.2.identity < s.nextIdentity

namespace Session

theorem coherent_of_cache_eq_empty {s : Session} (h : s.cache = {}) : s.Coherent := by
  constructor <;> simp [h]

theorem Coherent.of_cache_eq {s s' : Session} (hs : s.Coherent) (hcache : s'.cache = s.cache)
    (hnext : s.nextIdentity ≤ s'.nextIdentity) : s'.Coherent where
  key := by rw [hcache]; exact hs.key
  keys := by rw [hcache]; exact hs.keys
  identities := by rw [hcache]; exact hs.identities
  known := by
    rw [hcache]
    exact fun e he => Nat.lt_of_lt_of_le (hs.known e he) hnext

theorem coherent_canonicalize {s : Session} (hs : s.Coherent) (d : Document) :
    (s.canonicalize d).session.Coherent := by
  obtain ⟨found, -, heq⟩ | ⟨hnone, heq⟩ := s.canonicalize_cases d
  · rw [heq]
    exact hs
  · have hkey := hs.keys.concat (Lookup.lookup_eq_none_iff.1 hnone)
    have hidentity : s.nextIdentity ∉ s.cache.entries.map fun e => e.2.identity := by
      intro hmem
      obtain ⟨e, he, hid⟩ := List.mem_map.1 hmem
      exact absurd hid (Nat.ne_of_lt (hs.known e he))
    have hidentities := hs.identities.concat hidentity
    rw [List.concat_eq_append] at hkey hidentities
    rw [heq]
    constructor
    · exact List.forall_mem_append.2 ⟨hs.key, List.forall_mem_singleton.2 ⟨rfl, rfl⟩⟩
    · simp only [Cache.register, List.map_append, List.map_singleton]
      exact hkey
    · simp only [Cache.register, List.map_append, List.map_singleton]
      exact hidentities
    · refine List.forall_mem_append.2 ⟨?_, List.forall_mem_singleton.2 (Nat.lt_succ_self _)⟩
      exact fun e he => Nat.lt_succ_of_lt (hs.known e he)

theorem coherent_after {s : Session} (hs : s.Coherent) (c : Command) : (c.after s).Coherent := by
  obtain ⟨d, -, hafter⟩ | ⟨-, hcache, hnext⟩ := c.after_cases s
  · rw [hafter]
    exact coherent_canonicalize hs d
  · exact hs.of_cache_eq hcache hnext

theorem coherent_run {s : Session} (hs : s.Coherent) (cs : List Command) : (s.run cs).Coherent := by
  induction cs generalizing s with
  | nil => exact hs
  | cons c cs ih => exact ih (coherent_after hs c)

/-! ## What a history leaves -/

/-- Entries stay as they are and where they are. -/
theorem entries_prefix_after (s : Session) (c : Command) :
    s.cache.entries <+: (c.after s).cache.entries := by
  obtain ⟨d, -, hafter⟩ | ⟨-, hcache, -⟩ := c.after_cases s
  · obtain ⟨found, -, heq⟩ | ⟨-, heq⟩ := s.canonicalize_cases d
    · exact ⟨[], by rw [hafter, heq, List.append_nil]⟩
    · rw [hafter, heq]
      exact List.prefix_append _ _
  · exact ⟨[], by rw [hcache, List.append_nil]⟩

theorem entries_prefix_run (s : Session) (cs : List Command) :
    s.cache.entries <+: (s.run cs).cache.entries := by
  induction cs generalizing s with
  | nil => exact List.prefix_refl _
  | cons c cs ih => exact (entries_prefix_after s c).trans (ih (c.after s))

theorem get?_canonicalize {s : Session} (hs : s.Coherent) (d : Document) (key : DocumentKey) :
    (s.canonicalize d).session.cache.get? key
      = (s.cache.get? key).or
        (if (s.canonicalize d).document.key = key then some (s.canonicalize d).document
          else none) := by
  obtain ⟨found, hfound, heq⟩ | ⟨-, heq⟩ := s.canonicalize_cases d
  · have hkey : found.key = .of d := (hs.key _ (Lookup.mem_of_lookup hfound)).1.symm
    rw [heq]
    by_cases h : found.key = key
    · rw [← h, hkey, hfound, Option.some_or]
    · rw [if_neg h, Option.or_none]
  · rw [heq]
    simp only [Cache.get?_register, eq_comm]

/-- A key leads to the instance that it led to before, or else to the one that a command returns. -/
theorem get?_after {s : Session} (hs : s.Coherent) (c : Command) (key : DocumentKey) :
    (c.after s).cache.get? key
      = (s.cache.get? key).or ((c.returned? s).toList.find? fun a => a.key = key) := by
  rw [c.returned?_eq]
  obtain ⟨d, hd, hafter⟩ | ⟨hd, hcache, -⟩ := c.after_cases s
  · rw [hd, hafter, get?_canonicalize hs, Option.map_some, Option.toList_some, List.find?_singleton]
    simp only [decide_eq_true_eq]
  · rw [hd, hcache, Option.map_none, Option.toList_none, List.find?_nil, Option.or_none]

/-- A key leads to the instance that it led to before a history, or else to the first one that the
history returned for it. -/
theorem get?_run {s : Session} (hs : s.Coherent) (cs : List Command) (key : DocumentKey) :
    (s.run cs).cache.get? key
      = (s.cache.get? key).or ((s.returned cs).find? fun a => a.key = key) := by
  induction cs generalizing s with
  | nil => simp [returned]
  | cons c cs ih =>
    rw [run_cons, ih (coherent_after hs c), get?_after hs, Option.or_assoc, returned,
      List.find?_append]

end Session

end GraphqlClient.Normalization
