-- SUMMARY: The program on the system's files and output.
import Handheld.CommandLine.Execution

namespace Handheld

/-! ## Files and output -/

/-- Reads a file, or gives the system's reason why it cannot be read. -/
def readFile (path : String) : IO (Except String ByteArray) := do
  try
    return .ok (← IO.FS.readBinFile path)
  catch error =>
    return .error (toString error)

/-- Writes bytes to the output at once. -/
def writeOutput (bytes : List UInt8) : IO Unit := do
  unless bytes.isEmpty do
    let output ← IO.getStdout
    output.write bytes.toByteArray
    output.flush

end Handheld

/-- Runs the program and ends with its exit code. -/
def main (arguments : List String) : IO UInt32 := do
  let ending ← Handheld.program Handheld.readFile Handheld.writeOutput arguments
  Handheld.writeOutput ending.output
  IO.eprint ending.errors
  return ending.exitCode
