import TwinGraph.CommandLine

/-! The program: reads the environment and the file of the settings, runs the command line and
prints what it comes to. -/
namespace TwinGraph.CommandLine

def readContent? (name : Text) : IO (Option Text) := do
  try
    return some (← IO.FS.readFile (String.ofList name)).toList
  catch _ => return none

def readVariable? (name : Text) : IO (Option Text) := do
  return (← IO.getEnv (String.ofList name)).map String.toList

end TwinGraph.CommandLine

open TwinGraph TwinGraph.CommandLine in
def main (arguments : List String) : IO UInt32 := do
  let env : Settings.Environment :=
    ⟨← readVariable? Settings.graphNameVariable, ← readVariable? Settings.batchSizeVariable⟩
  let arguments := arguments.map String.toList
  let content ←
    match settingsFile? arguments with
    | some name => readContent? name
    | none => pure none
  let outcome := run env (fun _ => content) arguments
  IO.print (String.ofList outcome.output)
  IO.eprint (String.ofList outcome.errors)
  return outcome.code.toUInt32
