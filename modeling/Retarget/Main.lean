import Retarget.CommandLine.Run

/-!
# The program

The command line on real files. Programs that read source text are not started.
-/

namespace Retarget

def HostError.ofException : IO.Error → HostError
  | .noFileOrDirectory .. => .notFound
  | .alreadyExists .. => .exists
  | e => .other e.toString

namespace CommandLine

def attempt (action : IO α) : IO (Except HostError α) := do
  match ← action.toBaseIO with
  | .ok a => return .ok a
  | .error e => return .error (HostError.ofException e)

def machine : Host IO where
  readText path := attempt (IO.FS.readFile path)
  write path artifact := attempt <|
    match artifact with
    | .text s => IO.FS.writeFile path s
    | .binary bytes => IO.FS.writeBinFile path ⟨bytes.toArray⟩
  makeDirectory path := attempt (if path == "" then pure () else IO.FS.createDirAll path)
  runProgram _ _ := return .error (.other "Function not implemented (os error 38)")

end CommandLine

end Retarget

open Retarget in
def main (args : List String) : IO UInt32 := do
  let reader ← IO.getEnv "LUASCRIPT_PARSER"
  let stderr ← IO.getStderr
  let colors ← stderr.isTty
  let outcome ← CommandLine.run CommandLine.machine colors (reader.getD CommandLine.defaultReader) args
  IO.print outcome.stdout
  IO.eprint outcome.stderr
  return outcome.code.toUInt32
