import InfraConfig.CommandLine.Run

/-!
# The command

The command is carried out on the files that standard input describes: a JSON object with the working
directory under `directory`, and under `files` an object of texts by path.
-/

namespace InfraConfig

/-- The files that a JSON text describes. -/
def FileTree.read? (source : String) : Option FileTree := do
  let .object top ← Json.read? source | none
  let some (.text directory) := Entries.get? top "directory" | none
  let some (.object files) := Entries.get? top "files" | none
  let files ← files.mapM fun (path, d) =>
    match d with
    | .text s => some (path, s)
    | _ => none
  some (.ofFiles directory files)

end InfraConfig

open InfraConfig in
def main (words : List String) : IO UInt32 := do
  match FileTree.read? (← (← IO.getStdin).readToEnd) with
  | none =>
    IO.eprintln "standard input describes no files"
    return 2
  | some tree =>
    let result := CommandLine.run tree words
    IO.print result.output
    for line in result.errors do
      IO.eprintln line
    return .ofNat result.exitCode
