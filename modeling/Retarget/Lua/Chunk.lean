import Retarget.Lua.Statement

/-!
# Lua programs from modules

`Job.emit` compiles a module to the text of a Lua program, or gives all problems that it finds.
-/

namespace Retarget.Lua

/-- The functions that generate phrases nested at most `depth` levels. -/
def generators : (depth : Nat) → Generators
  | 0 =>
    ⟨fun _ id => throw (.cyclic .lua id), fun _ id => throw (.cyclic .lua id),
      fun _ _ id => throw (.cyclic .lua id), fun _ _ id => throw (.cyclic .lua id)⟩
  | depth + 1 =>
    let r := generators depth
    ⟨Gen.expr r, Gen.effect r, Gen.stmt r, Gen.functionDeclaration r⟩

structure Chunk where
  version : LuaVersion
  source : Option String
  helpers : List Helper
  body : List Stmt

def Chunk.text (c : Chunk) (width : Nat) : String :=
  "-- Generated by luascript for Lua " ++ c.version.text ++ "\n" ++
    String.join (c.source.toList.map fun source => "-- source: " ++ source ++ "\n") ++
    String.join (c.helpers.map fun h => h.text c.version ++ "\n") ++
    Stmt.texts width 0 c.body

namespace Job

def chunk (job : Job) : Except (List BackendError) Chunk :=
  let generate := Gen.block (generators job.module.levels) {} job.module.body
  match (generate.run job).run {} with
  | (.error e, s) => .error (s.errors ++ [e])
  | (.ok body, s) =>
    if s.errors.isEmpty then
      .ok ⟨job.options.version, job.module.metadata.source, Helper.all.filter s.helpers.contains, body⟩
    else .error s.errors

def emit (job : Job) : Except (List BackendError) String := do
  return (← job.chunk).text job.options.indentWidth

end Job

end Retarget.Lua
