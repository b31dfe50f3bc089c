import VaultKeeper.Config.Load
import VaultKeeper.Keeper.Replay
import VaultKeeper.Registry.Bootstrap

/-! # Command line

Replays chain snapshots through a keeper. Standard input holds a configuration, a line of three
hyphens, and then one snapshot in JSON on each line. The records of executed batches are printed as
they arise, and the state to keep at the end. -/

namespace VaultKeeper

/-- The keeper of a configuration text, or why there is none. -/
def Keeper.ofText (text : String) : Except String Keeper := do
  let config ← (Config.ofText text).mapError fun f =>
    s!"Failed to load configuration: {f.message}"
  unless config.service.dryRun do
    throw "Only dry-run execution is available; set service.dry_run = true"
  let registry ← (Registry.ofConfig config).mapError fun f =>
    s!"Failed to bootstrap registry: {f.message}"
  return { Keeper.new registry config.vaults with metrics := some {}, storage := some {} }

/-- The lines of a stream up to a line of three hyphens, or up to its end. -/
partial def readSection (input : IO.FS.Stream) (text : String) : IO String := do
  let line ← input.getLine
  if line.isEmpty || line == "---\n" then return text
  readSection input (text ++ line)

/-- Replay the snapshots on the lines of a stream. -/
partial def replayLines (input output : IO.FS.Stream) (k : Keeper) (r : Replay) : IO Unit := do
  let line ← input.getLine
  if line.isEmpty then
    output.putStrLn (Json.writeIndented (k.stopReplay.run r).1.document)
  else
    let ((k, records), r) := (k.replay line).run r
    for record in records do output.putStrLn (Json.write record.document)
    output.flush
    replayLines input output k r

end VaultKeeper

/-- Reads a configuration and replays the snapshots after it. -/
def main : IO UInt32 := do
  let input ← IO.getStdin
  match VaultKeeper.Keeper.ofText (← VaultKeeper.readSection input "") with
  | .error message =>
    IO.eprintln message
    return 1
  | .ok k =>
    VaultKeeper.replayLines input (← IO.getStdout) (k.noteRunning true) {}
    return 0
