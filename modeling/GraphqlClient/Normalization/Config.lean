import GraphqlClient.Json.Tree

/-!
# Settings of the normaliser
-/

namespace GraphqlClient.Normalization

open Json Text

/-- Settings of the normaliser. -/
structure Config where
  /-- Whether two different fragments of one name are reported. -/
  diagnosticsEnabled : Bool := true
deriving DecidableEq

namespace Config

/-- The setting that a tree writes. -/
def settingOfTree? : Tree → Option Config
  | .bool b => some ⟨b⟩
  | _ => none

/-- The settings that a tree writes: an object with no member but the setting, or a list of the
setting; either may be empty. -/
def ofTree? : Tree → Option Config
  | .object [] => some {}
  | .object [(key, t)] =>
    if Symbol.string? key = some "diagnostics_enabled" then settingOfTree? t else none
  | .array [] => some {}
  | .array [t] => settingOfTree? t
  | _ => none

/-- The settings that a JSON text writes. -/
def ofText? (text : String) : Option Config := (Tree.ofText? text).bind ofTree?

/-- The value that writes settings. -/
def toValue (c : Config) : Value := .object [("diagnostics_enabled", .bool c.diagnosticsEnabled)]

end Config

end GraphqlClient.Normalization
