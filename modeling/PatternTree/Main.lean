import PatternTree.CommandLine.Run

namespace PatternTree.CommandLine

/-- What there is under a file's name at the moment. A directory can be opened and not read. -/
def fileState (path : String) : IO FileState := do
  match ← (IO.FS.Handle.mk path .read).toBaseIO with
  | .error _ => return .missing
  | .ok handle =>
    match ← handle.readBinToEnd.toBaseIO with
    | .error _ => return .unreadable
    | .ok bytes => return .contents bytes

/-- The files that a command line names, and the standard input when it is read. -/
def surroundingsOf (arguments : Arguments) : IO Surroundings := do
  let paths := arguments.dialect.toList ++ arguments.file.toList
  let states ← paths.mapM fun path => return (path, ← fileState path)
  let input ←
    if arguments.patterns.isEmpty && arguments.file.isNone then
      (← IO.getStdin).readBinToEnd
    else pure ByteArray.empty
  return { file := fun path => (states.lookup path).getD .missing, input }

end PatternTree.CommandLine

open PatternTree.CommandLine

/-- Runs the command line of the process. -/
def main (arguments : List String) : IO UInt32 := do
  let surroundings ←
    match Request.ofArguments arguments with
    | .ok (.report arguments) => surroundingsOf arguments
    | _ => pure { file := fun _ => .missing, input := ByteArray.empty }
  let outcome := run arguments surroundings
  IO.print outcome.output
  IO.eprint outcome.complaint
  return outcome.exitCode.toUInt32
