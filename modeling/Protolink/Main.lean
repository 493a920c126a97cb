import Protolink.Console
import Protolink.Listing
import Protolink.References
import Protolink.Wire.Binary

/-!
# The program

The first argument chooses the generator: `graph` for listings, `imports` for references.
-/

namespace Protolink.Main

/-- Everything that a stream holds. -/
partial def readAll (stream : IO.FS.Stream) (done : ByteArray) : IO ByteArray := do
  let chunk ← stream.read 65536
  if chunk.isEmpty then return done else readAll stream (done ++ chunk)

/-- Runs a generator between standard input and standard output. -/
def serve [WorkingDirectory] (generator : Generator) : IO UInt32 := do
  let level := Console.logLevel (← IO.getEnv "PROTOC_GRAPH_LOG_LEVEL")
  let input ← readAll (← IO.getStdin) .empty
  let outcome := Console.run Wire.binary level generator input.toList
  (← IO.getStderr).putStr outcome.report
  let output ← IO.getStdout
  output.write ⟨outcome.output.toArray⟩
  output.flush
  return outcome.status.toUInt32

end Protolink.Main

def main (args : List String) : IO UInt32 := do
  let _ := Protolink.WorkingDirectory.ofPath (← IO.currentDir).toString.toList
  match args with
  | ["graph"] => Protolink.Main.serve Protolink.Listing.generator
  | ["imports"] => Protolink.Main.serve Protolink.References.generator
  | _ =>
    (← IO.getStderr).putStrLn "usage: protolink (graph | imports)"
    return 2
