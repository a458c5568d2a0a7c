import Retarget.Node.Basic

/-!
# Targets

The languages that a module can be compiled to.
-/

namespace Retarget

inductive Target where
  | lua | wasm | llvm | mlir
  deriving DecidableEq, Repr, Inhabited

namespace Target

def all : List Target := [.lua, .wasm, .llvm, .mlir]

def name : Target → String
  | lua => "lua"
  | wasm => "wasm"
  | llvm => "llvm"
  | mlir => "mlir"

def extension : Target → String
  | lua => "lua"
  | wasm => "wasm"
  | llvm => "ll"
  | mlir => "mlir"

def ofName? (s : String) : Option Target :=
  all.find? fun target => target.name.toList == s.toList.map Char.toLower

end Target

inductive Artifact where
  | text (s : String)
  | binary (bytes : List UInt8)
  deriving DecidableEq, Repr

def Artifact.size : Artifact → Nat
  | text s => s.utf8ByteSize
  | binary bytes => bytes.length

end Retarget
