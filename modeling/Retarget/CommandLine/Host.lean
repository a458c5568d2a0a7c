import Retarget.Target.Basic

/-!
# What a command needs from the machine

Commands read and write files and may start another program. They do so through a `Host`, so they run on real
files as well as on a `FileTree` in memory.
-/

namespace Retarget

inductive HostError where
  | notFound
  | notDirectory
  | isDirectory
  | exists
  | notText
  | other (message : String)
  deriving DecidableEq, Repr

def HostError.message : HostError → String
  | notFound => "No such file or directory (os error 2)"
  | notDirectory => "Not a directory (os error 20)"
  | isDirectory => "Is a directory (os error 21)"
  | .exists => "File exists (os error 17)"
  | notText => "stream did not contain valid UTF-8"
  | other message => message

structure ProgramResult where
  status : Nat
  output : String
  errors : String
  deriving DecidableEq, Repr

structure Host (m : Type → Type) where
  readText : String → m (Except HostError String)
  write : String → Artifact → m (Except HostError Unit)
  makeDirectory : String → m (Except HostError Unit)
  runProgram : String → List String → m (Except HostError ProgramResult)

end Retarget
