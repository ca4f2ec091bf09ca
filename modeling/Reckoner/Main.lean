/-
# The program

The outer layer reads what the arguments ask for and writes the response.  All decisions are made by
`Reckoner.Response.ofArguments`, save for the one case it does not cover: that standard input is
asked for and cannot be read.
-/
import Reckoner.Session

namespace Reckoner

/-- The bytes of a file, or nothing if it cannot be read. -/
def readFile? (path : String) : IO (Option (List UInt8)) := do
  try
    return some (← IO.FS.readBinFile path).data.toList
  catch _ =>
    return none

/-- All bytes of standard input, or the reason why they cannot be read. -/
def readInput : IO (Except String (List UInt8)) := do
  try
    return .ok (← (← IO.getStdin).readBinToEnd).data.toList
  catch error =>
    return .error (toString error)

/-- Writes a line to its channel. -/
def writeEvent (event : Event) : IO Unit := do
  (← IO.getStdout).putStr event.outputText
  (← IO.getStderr).putStr event.errorText

end Reckoner

open Reckoner in
/-- Answers the expressions that the arguments name. -/
def main (arguments : List String) : IO UInt32 := do
  let source? := (Options.ofArguments arguments).toOption.map Options.source
  let contents? ← match source? with
    | some (.file path) => readFile? path
    | _ => pure none
  let input ← match source? with
    | some .standardInput => readInput
    | _ => pure (.ok [])
  let response := match input with
    | .ok bytes => Response.ofArguments arguments contents? bytes
    | .error reason => Response.ofUnreadableInput reason
  response.events.forM writeEvent
  return response.exitCode.toUInt32
