import BlockPlay.Command.Arguments
import BlockPlay.Command.Perform
import BlockPlay.Text.Identifier

/-!
The command line tool. Programs are checked in memory; only files, fresh names and output are left to
the outside.
-/
namespace BlockPlay

def readFile (name : String) : IO (Except FileFault (List UInt8)) := do
  try
    let bytes ← IO.FS.readBinFile name
    return .ok bytes.toList
  catch e =>
    return match e with
      | .inappropriateType .. => .error .isDirectory
      | _ => .error .notFound

def size : Except FileFault (List UInt8) → Nat
  | .ok bytes => bytes.length
  | .error _ => 0

def fileNames : Command → List String
  | .presets => []
  | .compile source _ => source.program :: source.config.toList
  | .run source level _ _ => source.program :: level :: source.config.toList

def freshNames (count : Nat) : IO (Array BlockId) := do
  let mut names : Array BlockId := #[]
  for _ in [0:count] do
    names := names.push ⟨Text.identifier (← IO.rand 0 (Decimal.pow2 128 - 1))⟩
  return names

/-- Performs a command on the files that it names. As a document has fewer blocks than bytes, fresh
names do not run out. -/
def performOnDisk (command : Command) : IO Output := do
  let contents ← (fileNames command).mapM fun name => return (name, ← readFile name)
  let files : Files := fun name => (contents.lookup name).getD (.error .notFound)
  let names ← freshNames (contents.foldl (fun n (_, content) => n + size content) 0)
  return .ofResult (command.perform files (fun n => names.getD n ⟨""⟩) .never)

def runWords (args : List String) : IO UInt32 := do
  let output ← match Command.ofWords args with
    | .ok command => performOnDisk command
    | .error usage => pure (.ofUsage usage)
  IO.print output.out
  IO.eprint output.err
  return UInt32.ofNat output.exitCode

end BlockPlay

def main (args : List String) : IO UInt32 := BlockPlay.runWords args
