import Retarget.Builder.Build
import Retarget.Lower.Stmt
import Retarget.Syntax.Write

/-!
# Lowering programs

`Program.lower` walks a program once, resolves every name and builds the module. Phrases are lowered by open
recursion: `lowerers n` handles phrases that are nested at most `n` levels, and a program is nested no deeper
than the document that it is written as.
-/

namespace Retarget

open Syntax

structure LowerOptions where
  build : BuildOptions := {}
  fileId : Nat := 0
  sourceName : Option String := none
  deriving DecidableEq, Repr

/-- The functions that lower phrases nested at most `depth` levels. -/
def lowerers : (depth : Nat) → Lowerers
  | 0 => ⟨fun _ _ => throw .tooDeep, fun _ => throw .tooDeep, fun _ _ _ => throw .tooDeep⟩
  | depth + 1 =>
    let r := lowerers depth
    ⟨LowerM.lowerExpr r, LowerM.lowerStmt r, LowerM.destructurePattern r⟩

namespace Syntax.Program

def initialState (p : Program) (options : LowerOptions) : LowerState where
  fileId := options.fileId
  builder := { source := options.sourceName, directives := directives p.body }

def lowerBody (p : Program) (r : Lowerers) : LowerM (List NodeId) := do
  let hoisted ← LowerM.hoistVars p.body p.pos
  LowerM.declareBlock p.body
  let own ← LowerM.statements r (afterDirectives p.body)
  return hoisted.toList ++ own

def toBuilder (p : Program) (options : LowerOptions := {}) : Except LoweringError Builder := do
  let (body, s) ← (p.lowerBody (lowerers p.toJson.depth)).run (p.initialState options)
  return s.builder.setBody body

def lower (p : Program) (options : LowerOptions := {}) : Except LoweringError Module := do
  let b ← p.toBuilder options
  (b.build options.build).mapError .builder

end Syntax.Program

end Retarget
