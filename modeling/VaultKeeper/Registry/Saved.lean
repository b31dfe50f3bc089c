import VaultKeeper.Registry

/-! # Saved selections

The part of a registry that survives a restart: registered strategies, overrides and default
strategies. Restoring drops the entries whose profile or strategy is not known.
-/

namespace VaultKeeper

/-- The part of a registry that survives a restart. -/
structure SavedRegistry where
  /-- Registered strategies. -/
  strategies : List Strategy
  /-- Overrides: profile, token hash and strategy. -/
  overrides : List ((String × Digest) × Digest)
  /-- Default strategies: profile, token hash and state. -/
  defaults : List ((String × Digest) × DefaultState)
deriving DecidableEq

namespace SavedRegistry

instance : Inhabited SavedRegistry := ⟨⟨[], [], []⟩⟩

end SavedRegistry

namespace Registry

/-- What of a registry is saved, in order of its keys. -/
def saved (r : Registry) : SavedRegistry :=
  ⟨r.strategies.values, r.overrides.toList, r.defaults.toList⟩

/-- Whether a saved override can be restored. -/
def knowsOverride (r : Registry) (e : (String × Digest) × Digest) : Bool :=
  r.profiles.contains e.1.1 && r.strategies.contains e.2

/-- Whether a saved default strategy can be restored. -/
def knowsDefault (r : Registry) (e : (String × Digest) × DefaultState) : Bool :=
  r.profiles.contains e.1.1 && e.2.cached?.all r.strategies.contains

/-- Add saved strategies and those overrides and default strategies that are known. -/
def restore (r : Registry) (s : SavedRegistry) : Registry :=
  let r := s.strategies.foldl register r
  let overrides := s.overrides.filter r.knowsOverride
  let defaults := s.defaults.filter r.knowsDefault
  { r with
    overrides := overrides.foldl (fun t e => t.insert e.1 e.2) r.overrides
    defaults := defaults.foldl (fun t e => t.insert e.1 e.2) r.defaults }

/-- How many saved entries a restore drops. -/
def dropped (r : Registry) (s : SavedRegistry) : Nat :=
  let r := s.strategies.foldl register r
  s.overrides.countP (!r.knowsOverride ·) + s.defaults.countP (!r.knowsDefault ·)

end Registry

end VaultKeeper
