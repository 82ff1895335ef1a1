import GraphqlClient.Normalization.Cache
import GraphqlClient.Normalization.Config
import GraphqlClient.Normalization.Fragments
import GraphqlClient.Normalization.Template

/-!
# Normalising documents

The definitions of a template, the first fragment of each name among them, as the one instance that
the session has for their text.
-/

namespace GraphqlClient.Normalization

namespace Session

/-- The canonical document of a template; none when its text is no document. -/
def normalize (s : Session) (config : Config) (t : Template) : Option Delivery := do
  let ds ← t.definitions?
  let warnings := if config.diagnosticsEnabled then conflicts ds else []
  let delivery := s.canonicalize (dedupe ds)
  return { delivery with notices := warnings.map .conflict ++ delivery.notices }

/-- The canonical document of a text. -/
def normalizeText (s : Session) (config : Config) (text : String) : Option Delivery :=
  s.normalize config (.ofText text)

end Session

end GraphqlClient.Normalization
