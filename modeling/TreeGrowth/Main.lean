import TreeGrowth.CommandLine.Reference
import TreeGrowth.Mesh.Saved
import Std.Time.DateTime.Timestamp

/-!
# The command

Grows the reference tree as the arguments ask, prints and logs what there is to say about it, and
saves its most detailed mesh where that is asked for.
-/

namespace TreeGrowth.Reference

/-- Computes a value here and not where it is first used. -/
@[noinline] def compute {α : Type} (value : Unit → α) : IO α := pure (value ())

/-- How long the word that the arguments ask for takes to grow, in milliseconds. -/
def growthTime (arguments : List String) (entropy : Nat) : IO Float := do
  match Invocation.ofArguments options arguments with
  | .ok (.run values) =>
      let recipe := (values.foldl Request.take {}).recipe
      let before ← IO.monoNanosNow
      let _ ← compute fun _ => recipe.wordLength Pcg64 entropy
      return ((← IO.monoNanosNow) - before).toFloat / 1e6
  | _ => return 0.0

/-- What the clock, the terminal and the machine's own randomness say. -/
def surroundings (arguments : List String) : IO Surroundings := do
  let bytes ← IO.getRandomBytes 16
  let entropy := bytes.foldl (fun n byte => 256 * n + byte.toNat) 0
  let now ← Std.Time.Timestamp.now
  return {
    now := Float.ofInt now.toNanosecondsSinceUnixEpoch.val / 1e9
    elapsed := ← growthTime arguments entropy
    onTerminal := ← (← IO.getStderr).isTty
    entropy }

/-- Saves a mesh, in a directory that is made if it is not there. -/
def save (path : String) (mesh : Mesh Float) : IO Unit := do
  IO.FS.createDirAll (directoryOf path)
  IO.FS.writeBinFile path mesh.archive

def command (arguments : List String) : IO UInt32 := do
  let report := run arguments (← surroundings arguments)
  let output ← IO.getStdout
  let errors ← IO.getStderr
  errors.putStr report.logged
  report.saved.forM fun (path, mesh) => save path mesh
  report.printed.forM fun line => output.putStr (line ++ "\n")
  output.flush
  match report.ending with
  | .exit code => return code.toUInt32
  | .failure fault =>
      errors.putStr (fault.message ++ "\n")
      return 1

end TreeGrowth.Reference

def main (arguments : List String) : IO UInt32 := TreeGrowth.Reference.command arguments
