import VaultKeeper.Document.Config
import VaultKeeper.Toml

/-! # Loading a configuration

A configuration is read from its text and accepted when it keeps all rules.
-/

namespace VaultKeeper.Config

/-- Read and check the text of a configuration. -/
def ofText (s : String) : Except ConfigFault Config := do
  let some c := (Toml.read? s).bind (read? .toml) | throw .unreadable
  c.validate
  return c

end VaultKeeper.Config
