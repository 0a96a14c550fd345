import CoolStatics.CommandLine.Run

/-!
The command itself: reads the file that the request names, then prints the answer.
-/
namespace CoolStatics.CommandLine

def readText (path : String) : IO (Option String) :=
  try
    return some (← IO.FS.readFile path)
  catch _ => return none

def run (args : List String) : IO UInt32 := do
  let request := Request.ofArguments? args
  let content ← match request with
    | some (.check path ..) => readText path
    | _ => pure none
  let response := respond request content
  let stdout ← IO.getStdout
  let stderr ← IO.getStderr
  response.log.forM (stderr.putStrLn ·)
  stdout.putStr response.out
  stderr.putStr response.err
  return response.status

end CoolStatics.CommandLine

def main (args : List String) : IO UInt32 := CoolStatics.CommandLine.run args
