import Retarget.Lua.Chunk
import Retarget.Llvm.Generate
import Retarget.Mlir.Generate
import Retarget.Wasm.Generate

/-!
# Compiling modules

A `Compiler` has a set of targets and may optimize a module first. Problems of one target do not keep the
others from being compiled.
-/

namespace Retarget

/-- What compiling to a target has led to; there is an artifact or there are problems. -/
structure Compilation where
  target : Target
  result : Except (List BackendError) Artifact

def Module.compileTo (m : Module) (options : CompileOptions) (target : Target) : Except (List BackendError) Artifact :=
  match target with
  | .lua => .text <$> (Lua.Job.mk m options.lua options.debugInfo).emit
  | .wasm => .binary <$> Wasm.emit m options.wasmOptimize
  | .llvm => .text <$> Llvm.emit m options
  | .mlir => .text <$> Mlir.emit m options.mlirCanonicalize

structure Compiler where
  options : CompileOptions := {}
  targets : List Target := Target.all
  pipeline : Option Pipeline := none

namespace Compiler

def registered (c : Compiler) : List Target := Target.all.filter c.targets.contains

def prepare (c : Compiler) (m : Module) : Except BackendError Module :=
  match c.pipeline with
  | some pipeline => (pipeline.apply m).mapError fun e => .transform e.message
  | none => .ok m

def compile (c : Compiler) (m : Module) (name : String) : Except BackendError Compilation := do
  match (Target.ofName? name).filter c.registered.contains with
  | some target =>
    let m ← c.prepare m
    return ⟨target, m.compileTo c.options target⟩
  | none => throw (.unknownTarget name c.registered)

def compileAll (c : Compiler) (m : Module) : List Compilation :=
  match c.prepare m with
  | .ok m => c.registered.map fun target => ⟨target, m.compileTo c.options target⟩
  | .error e => c.registered.map fun target => ⟨target, .error [e]⟩

end Compiler

end Retarget
