import ExprCompiler.Command.Line

/-! The program: reads the input that its arguments ask for, and prints the answer. -/

namespace ExprCompiler

/-- All bytes of a stream, after those read already. -/
partial def readAll (stream : IO.FS.Stream) (bytes : ByteArray) : IO ByteArray := do
  let chunk ← stream.read 65536
  if chunk.isEmpty then return bytes else readAll stream (bytes ++ chunk)

/-- Reads an input. -/
def readInput (path : String) : IO (Except InputFault String) := do
  try
    let bytes ←
      if path = standardInput then readAll (← IO.getStdin) .empty
      else IO.FS.readBinFile path
    return decodeInput path bytes.toList
  catch error =>
    match error with
    | .noFileOrDirectory .. => return .error (.fileNotFound path)
    | .permissionDenied .. => return .error (.permissionDenied path)
    | other => return .error (.unreadable path (toString other))

end ExprCompiler

open ExprCompiler in
/-- Answers an invocation of the program. -/
def main (arguments : List String) : IO UInt32 := do
  let invocation := Invocation.ofArguments arguments
  let input ← match invocation.path? with
    | some path => readInput path
    | none => pure (.ok "")
  let errorStream ← IO.getStderr
  let response := invocation.respond input (← errorStream.isTty)
  IO.print response.output
  errorStream.putStr response.errors
  return UInt32.ofNat response.exitCode
