import ClassLang.CommandLine.Report

/-!
# The command line program

The only module that reads and writes: it fetches the bytes that a command line
asks for and writes the report on them.
-/

namespace ClassLang

/-- The bytes of a file, if it can be read. -/
def readFile? (path : String) : IO (Option ByteArray) := do
  try
    return some (← IO.FS.readBinFile path)
  catch _ =>
    return none

/-- All bytes of the standard input. -/
def readInput : IO ByteArray := do
  let stdin ← IO.getStdin
  let mut bytes := ByteArray.empty
  repeat
    let more ← stdin.read 65536
    if more.isEmpty then break
    bytes := bytes ++ more
  return bytes

/-- The bytes of the text that a command line asks to read. -/
def fetch (invocation : Invocation) : IO (Option ByteArray) := do
  match invocation with
  | .go { script := some path, .. } => readFile? path
  | .go { script := none, .. } => return some (← readInput)
  | _ => return none

end ClassLang

/-- Does what the arguments ask for. -/
def main (arguments : List String) : IO UInt32 := do
  let invocation := ClassLang.Invocation.ofArguments arguments
  let input ← ClassLang.fetch invocation
  match invocation.report ClassLang.ampleFuel input with
  | none => return 70
  | some report =>
    IO.print report.stdout
    IO.eprint report.stderr
    return report.exit.toUInt32
