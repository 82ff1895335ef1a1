import GraphqlClient.Proofs.Normalization.Composition
import GraphqlClient.Proofs.Syntax.Respaced

/-!
# First fragments of templates

The definitions of a template are those of its body and then those of its documents, in the order in
which these are put in (`Template.definitions?_eq_some_iff`). A template normalises to what remains
of them when the first fragment of each name is kept (`Session.normalize_keepsFirsts`): a name has
the fragment of the body, or else that of the first document that has one.

The fragments that are dropped are compared with those that are kept, and each one that is written
differently is reported (`Session.warnings_normalize`).
-/

namespace GraphqlClient.Normalization

open Syntax

/-! ## The definitions of a template -/

/-- The definitions that the body of a template writes; no definitions if it is blank. -/
def Template.bodyDefinitions? (t : Template) : Option (List Definition) :=
  if Text.isBlankText t.body then some [] else Document.ofText? t.body

/-- A template stands for the definitions of its body and then those of its documents, if there are
any. -/
theorem Template.definitions?_eq_some_iff {t : Template} {ds : List Definition} :
    t.definitions? = some ds ↔ ∃ body, t.bodyDefinitions? = some body
      ∧ ds = body ++ definitionsOf t.interpolations ∧ ds ≠ [] := by
  constructor
  · intro h
    have hne := definitions?_ne_nil h
    unfold definitions? at h
    unfold bodyDefinitions?
    cases hblank : Text.isBlankText t.body with
    | true =>
      rw [hblank, ofText?_of_isBlankText hblank] at h
      split at h
      · exact ⟨[], rfl, (Option.some.inj h).symm, hne⟩
      · cases h
    | false =>
      rw [hblank] at h
      obtain ⟨body, hbody, rfl⟩ := Option.map_eq_some_iff.1 h
      exact ⟨body, hbody, rfl, hne⟩
  · rintro ⟨body, hbody, rfl, hne⟩
    unfold bodyDefinitions? at hbody
    unfold definitions?
    cases hblank : Text.isBlankText t.body with
    | true =>
      rw [hblank] at hbody
      cases hbody
      have hinterpolated : t.interpolated.isEmpty = false := List.isEmpty_eq_false_iff.2 hne
      rw [hinterpolated]
      rfl
    | false =>
      rw [hblank] at hbody
      exact Option.map_eq_some_iff.2 ⟨body, hbody, rfl⟩

/-- A name has the fragment of the body, or else that of the first document that has one. -/
theorem fragment?_definitions (n : Name) (body : List Definition) (is : List Interpolation) :
    fragment? n (body ++ definitionsOf is)
      = (fragment? n body).or (is.findSome? fun i => fragment? n i.definitions) := by
  rw [fragment?_append]
  exact congrArg _ List.find?_flatMap

namespace Session

/-! ## What is kept -/

/-- Of any definitions those remain that `KeepsFirsts` says, and dropping repeated fragments from a
part first, or from all twice, changes nothing. A template normalises if its body is blank or a
document, and it has definitions; what it normalises to is the canonical instance of what remains of
the definitions of its body and then of its documents. A name has the fragment of the body there, or
else that of the first document that has one. The instance has the text of what remains if no
cached document collides, and is the same document if documents were read from texts. -/
theorem normalize_keepsFirsts :
    (∀ ds, KeepsFirsts ds (dedupe ds))
      ∧ (∀ xs ys zs, dedupe (xs ++ (dedupe ys ++ zs)) = dedupe (xs ++ (ys ++ zs)))
      ∧ (∀ ds, dedupe (dedupe ds) = dedupe ds)
      ∧ ∀ (n : Nat) (history : List Command) (config : Config) (t : Template),
        ((∃ del, ((empty n).run history).normalize config t = some del)
          ↔ ∃ body, t.bodyDefinitions? = some body ∧ body ++ definitionsOf t.interpolations ≠ [])
        ∧ ∀ del body, ((empty n).run history).normalize config t = some del →
          t.bodyDefinitions? = some body →
          ∃ kept, KeepsFirsts (body ++ definitionsOf t.interpolations) kept
            ∧ (∀ name, fragment? name kept
              = (fragment? name body).or
                (t.interpolations.findSome? fun i => fragment? name i.definitions))
            ∧ del.document = (((empty n).run history).canonicalize kept).document
            ∧ (((empty n).run history).NoCollision t →
              del.document.document.text = Document.text kept
              ∧ ((∀ c ∈ history, c.IsRead) → (∀ x ∈ t.interpolated, x.IsRead) →
                del.document.document = kept)) := by
  refine ⟨keepsFirsts_dedupe, dedupe_append_dedupe, dedupe_dedupe, ?_⟩
  intro n history config t
  constructor
  · constructor
    · rintro ⟨del, hdel⟩
      obtain ⟨ds, hds, -⟩ := normalize_eq_some hdel
      obtain ⟨body, hbody, rfl, hne⟩ := Template.definitions?_eq_some_iff.1 hds
      exact ⟨body, hbody, hne⟩
    · rintro ⟨body, hbody, hne⟩
      exact exists_normalize _ config (Template.definitions?_eq_some_iff.2 ⟨body, hbody, rfl, hne⟩)
  · intro del body hdel hbody
    obtain ⟨ds, hds, hdocument, -⟩ := normalize_eq_some hdel
    obtain ⟨body', hbody', rfl, -⟩ := Template.definitions?_eq_some_iff.1 hds
    obtain rfl : body = body' := Option.some.inj (hbody.symm.trans hbody')
    refine ⟨_, keepsFirsts_dedupe _, fun name => ?_, hdocument, fun hno => ⟨?_, ?_⟩⟩
    · rw [fragment?_dedupe, fragment?_definitions]
    · exact text_normalize (coherent_run_empty n history) hdel hno hds
    · intro hhistory hread
      exact document_normalize (coherent_run_empty n history) (all_run_empty n hhistory) hread
        hdel hno hds

/-- A body with a fragment. -/
def oneName : String := "fragment F on T { a }"

/-- A document that repeats the name, with another one and an operation. -/
def twoNames : String := "fragment F on T { b } fragment G on T { c } { d }"

/-- A document that repeats the other name and the operation. -/
def repeatedName : String := "{ d } fragment G on T { e }"

/-- What remains of all three. -/
def keptNames : String := "fragment F on T {
  a
}

fragment G on T {
  c
}

query {
  d
}

query {
  d
}
"

theorem normalize_keepsFirsts_keptNames :
    ∃ gs hs del, Document.ofText? twoNames = some gs ∧ Document.ofText? repeatedName = some hs
      ∧ ((empty 0).run []).normalize {} ⟨[oneName], [.document gs, .document hs]⟩ = some del
      ∧ del.document.document.text = keptNames
      ∧ fragment? "G" del.document.document = fragment? "G" gs := by
  obtain ⟨fs, hfs, hF⟩ : ∃ fs, Document.ofText? oneName = some fs ∧ fragmentNames fs = ["F"] :=
    Option.map_eq_some_iff.1 (by decide +kernel)
  obtain ⟨gs, hgs, hG⟩ : ∃ gs, Document.ofText? twoNames = some gs
      ∧ fragmentNames gs = ["F", "G"] := Option.map_eq_some_iff.1 (by decide +kernel)
  obtain ⟨hs, hhs⟩ : ∃ hs, Document.ofText? repeatedName = some hs :=
    Option.isSome_iff_exists.1 (by decide +kernel)
  have htext : ((Document.ofText? oneName).bind fun fs => (Document.ofText? twoNames).bind fun gs =>
      (Document.ofText? repeatedName).map fun hs =>
        Document.text (dedupe (fs ++ definitionsOf [.document gs, .document hs])))
      = some keptNames := by decide +kernel
  rw [hfs, Option.bind_some, hgs, Option.bind_some, hhs] at htext
  have hbody : (Template.mk [oneName] [.document gs, .document hs]).bodyDefinitions? = some fs := by
    have hblank : Text.isBlankText oneName = false := by decide
    have hwhole : (Template.mk [oneName] [.document gs, .document hs]).body = oneName := by
      rw [Template.body_oneSegment, bodyTextOf_documents (by simp [Interpolation.isDocument]),
        String.append_empty]
    rw [Template.bodyDefinitions?, hwhole, hblank]
    exact hfs
  have hne : fs ++ definitionsOf [.document gs, .document hs] ≠ [] :=
    List.append_ne_nil_of_left_ne_nil (legal_of_ofText? hfs).ne_nil _
  obtain ⟨-, -, -, htemplate⟩ := normalize_keepsFirsts
  obtain ⟨hexists, hkeeps⟩ := htemplate 0 [] {} ⟨[oneName], [.document gs, .document hs]⟩
  obtain ⟨del, hdel⟩ := hexists.2 ⟨fs, hbody, hne⟩
  obtain ⟨kept, hkept, hfirst, -, hinstance⟩ := hkeeps del fs hdel hbody
  have hno : ((empty 0).run []).NoCollision ⟨[oneName], [.document gs, .document hs]⟩ :=
    fun _ _ e he => absurd he List.not_mem_nil
  have hread : ∀ x ∈ (Template.mk [oneName] [.document gs, .document hs]).interpolated,
      x.IsRead := by
    intro x hx
    rcases List.mem_append.1 (show x ∈ gs ++ (hs ++ []) from hx) with hx | hx
    · exact ⟨_, gs, hgs, hx⟩
    · exact ⟨_, hs, hhs, by simpa using hx⟩
  obtain ⟨hsame, hdocument⟩ := hinstance hno
  refine ⟨gs, hs, del, hgs, hhs, hdel, ?_, ?_⟩
  · rw [hsame, hkept.places, ← dedupe_eq]
    exact Option.some.inj htext
  · have hnone : fragment? "G" fs = none := fragment?_eq_none_iff.2 (by rw [hF]; decide)
    have hsome : (fragment? "G" gs).isSome = true := by
      rw [Option.isSome_iff_ne_none, Ne, fragment?_eq_none_iff, hG]
      decide
    obtain ⟨g, hg⟩ := Option.isSome_iff_exists.1 hsome
    rw [hdocument (fun _ hc => absurd hc List.not_mem_nil) hread, hfirst, hnone]
    simp [Interpolation.definitions, hg]

/-! ## What is reported -/

/-- Canonicalising warns of nothing. -/
theorem warnings_canonicalize (s : Session) (d : Document) :
    (s.canonicalize d).notices.filter Notice.isWarning = [] := by
  obtain ⟨found, -, heq⟩ | ⟨-, heq⟩ := s.canonicalize_cases d
  · rw [heq]
    rfl
  · rw [heq]
    rfl

/-- What normalising a template warns of: the conflicts of its definitions, if it is asked to. -/
theorem warnings_normalize_eq (s : Session) (config : Config) (t : Template) :
    (s.normalize config t).map (fun del => del.notices.filter Notice.isWarning)
      = t.definitions?.map fun ds =>
        if config.diagnosticsEnabled then (conflicts ds).map .conflict else [] := by
  have hconflicts (names : List Name) :
      (names.map Notice.conflict).filter Notice.isWarning = names.map .conflict := by
    simp [Notice.isWarning]
  rw [normalize_eq, Option.map_map]
  congr 1
  funext ds
  show List.filter Notice.isWarning (_ ++ _) = _
  rw [List.filter_append, warnings_canonicalize, List.append_nil, hconflicts]
  split <;> rfl

end Session

/-- Both definitions are read from one text with blanks and comments put in differently. -/
def Reformatted (x y : Definition) : Prop :=
  ∃ text text₁ text₂ : String, Respaced text.toList text₁.toList
    ∧ Respaced text.toList text₂.toList ∧ Document.ofText? text₁ = some [x]
    ∧ Document.ofText? text₂ = some [y]

theorem Reformatted.eq {x y : Definition} (h : Reformatted x y) : x = y := by
  obtain ⟨text, text₁, text₂, h₁, h₂, hx, hy⟩ := h
  rw [ofText?_respaced h₁, ← ofText?_respaced h₂, hy] at hx
  exact (List.singleton_inj.1 (Option.some.inj hx)).symm

/-- Where the fragments of one name differ in formatting only, there are no conflicts. -/
theorem conflicts_of_reformatted {ds : List Definition}
    (h : ∀ f g : Fragment, .fragment f ∈ ds → .fragment g ∈ ds → f.name = g.name →
      Reformatted (.fragment f) (.fragment g)) : conflicts ds = [] := by
  apply conflicts_eq_nil
  intro f hf first hfirst
  obtain ⟨g, rfl, hname, hg⟩ := exists_of_fragment? hfirst
  rw [(h g f hg hf hname).eq]

namespace Session

/-- A warning for each fragment that is written differently from the first one of its name, in
order, and no other; none at all if they are not asked for. -/
theorem warnings_normalize :
    (∀ ds, conflicts ds = fragmentNames (ds.filter (differsFromFirst ds)))
      ∧ (∀ (s : Session) (config : Config) (t : Template),
        (s.normalize config t).map (fun del => del.notices.filter Notice.isWarning)
          = t.definitions?.map fun ds =>
            if config.diagnosticsEnabled then
              (fragmentNames (ds.filter (differsFromFirst ds))).map .conflict
            else [])
      ∧ (∀ ds : List Definition,
        (∀ f g : Fragment, .fragment f ∈ ds → .fragment g ∈ ds → f.name = g.name →
          Reformatted (.fragment f) (.fragment g)) → conflicts ds = [])
      ∧ ∀ f g : Fragment, f.name = g.name →
        (Definition.fragment f).text ≠ (Definition.fragment g).text →
          conflicts [.fragment f, .fragment g, .fragment g] = [f.name, f.name]
          ∧ conflicts [.fragment f, .fragment g, .fragment f] = [f.name] := by
  refine ⟨conflicts_eq, fun s config t => ?_, fun ds h => conflicts_of_reformatted h, ?_⟩
  · rw [warnings_normalize_eq]
    simp only [conflicts_eq]
  · intro f g hname htext
    rw [conflicts_eq, conflicts_eq]
    simp [differsFromFirst_fragment, fragment?_fragment_cons, hname, htext]

/-- A fragment, and twice another one of its name. -/
def changedTwice : String :=
  "fragment F on T { a } fragment F on T { b } fragment F on T { b }"

/-- A fragment with one field. -/
def oneField (field : Name) : Fragment := ⟨"F", "T", [], [.field none field [] [] []]⟩

/-- A fragment with few blanks. -/
def denseFragment : String := "fragment F on T{a}"

/-- The same with a line end before it. -/
def shiftedFragment : String := "\nfragment F on T{a}"

theorem respaced_shiftedFragment : Respaced denseFragment.toList shiftedFragment.toList := by
  obtain ⟨ts, hts⟩ : ∃ ts, tokens? " F on T{a}".toList = some ts :=
    Option.isSome_iff_exists.1 (by decide +kernel)
  have hdense : denseFragment.toList = "fragment".toList ++ " F on T{a}".toList := by
    decide +kernel
  have hshifted : shiftedFragment.toList
      = ['\n'] ++ ("fragment".toList ++ ([] ++ " F on T{a}".toList)) := by
    decide +kernel
  have hread : Lexeme.read ("fragment".toList ++ " F on T{a}".toList)
      = some (.token (.name "fragment"), " F on T{a}".toList) := rfl
  rw [hdense, hshifted]
  exact .token hread (.blank rfl .nil) .nil (.refl_of_scan hts)

theorem warnings_normalize_changedTwice :
    ((empty 0).normalize {} (.ofText changedTwice)).map
        (fun del => del.notices.filter Notice.isWarning) = some [.conflict "F", .conflict "F"]
      ∧ ((empty 0).normalize ⟨false⟩ (.ofText changedTwice)).map
        (fun del => del.notices.filter Notice.isWarning) = some []
      ∧ (∃ f g, Document.ofText? denseFragment = some [.fragment f]
        ∧ Document.ofText? shiftedFragment = some [.fragment g]
        ∧ conflicts [.fragment f, .fragment g] = [])
      ∧ conflicts [.fragment (oneField "a"), .fragment (oneField "b"), .fragment (oneField "b")]
        = ["F", "F"]
      ∧ conflicts [.fragment (oneField "a"), .fragment (oneField "b"), .fragment (oneField "a")]
        = ["F"] := by
  obtain ⟨-, hwarnings, hreformatted, hthree⟩ := warnings_normalize
  obtain ⟨ds, hds, hdiffer⟩ : ∃ ds, (Template.ofText changedTwice).definitions? = some ds
      ∧ fragmentNames (ds.filter (differsFromFirst ds)) = ["F", "F"] :=
    Option.map_eq_some_iff.1 (by decide +kernel)
  obtain ⟨f, hf⟩ : ∃ f, Document.ofText? denseFragment = some [.fragment f] := by
    obtain ⟨fs, hfs, hone⟩ : ∃ fs, Document.ofText? denseFragment = some fs
        ∧ (fs.length, fragmentNames fs) = (1, ["F"]) :=
      Option.map_eq_some_iff.1 (by decide +kernel)
    obtain ⟨hlength, hnames⟩ := Prod.mk.inj hone
    obtain ⟨d, rfl⟩ := List.length_eq_one_iff.1 hlength
    cases d with
    | operation o => cases hnames
    | fragment f => exact ⟨f, hfs⟩
  have hshifted : Document.ofText? shiftedFragment = some [.fragment f] :=
    (ofText?_respaced respaced_shiftedFragment).trans hf
  have hdense : Respaced denseFragment.toList denseFragment.toList := by
    obtain ⟨ts, hts⟩ : ∃ ts, tokens? denseFragment.toList = some ts :=
      Option.isSome_iff_exists.1 (by decide +kernel)
    exact .refl_of_scan hts
  refine ⟨?_, ?_, ⟨f, f, hf, hshifted, hreformatted _ fun g g' hg hg' _ => ?_⟩, ?_⟩
  · rw [hwarnings, hds, Option.map_some, hdiffer]
    rfl
  · rw [hwarnings, hds]
    rfl
  · obtain rfl : g = f := by simpa using hg
    obtain rfl : g' = g := by simpa using hg'
    exact ⟨_, _, _, hdense, respaced_shiftedFragment, hf, hshifted⟩
  · exact hthree (oneField "a") (oneField "b") rfl (by decide +kernel)

end Session

end GraphqlClient.Normalization
