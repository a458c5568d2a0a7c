import Retarget.Builder.Basic
import Retarget.Flow.Derive
import Retarget.Validate.Invariants

/-!
# Building a module

`Builder.build` turns a builder into a module: nothing may be left reserved, the top-level statements have
to be statements, and the module has to be valid if that is asked for.
-/

namespace Retarget

structure BuildOptions where
  validate : Bool := true
  deriveCfg : Bool := true
  deriving DecidableEq, Repr

namespace Builder

def statementError? (b : Builder) (index : Nat) (id : NodeId) : Option BuilderError :=
  let field := "body[" ++ toString index ++ "]"
  match b.nodes[id]? with
  | none => some (.danglingReference "Module" field id)
  | some node =>
    if node.kind.isStatement then none
    else some (.shapeMismatch "Module" field .statement node.kind.name id)

def completionError? (b : Builder) : Option BuilderError :=
  (b.reserved.min?.map .unfilled).or
    (b.body.mapIdx b.statementError?).reduceOption.head?

def toModule (b : Builder) (deriveCfg : Bool) : Module where
  schemaVersion := schemaVersion
  nodes := b.nodes
  body := b.body
  metadata := ⟨if deriveCfg then Flow.deriveAll b.nodes else ∅, b.source, b.directives⟩

def build (b : Builder) (options : BuildOptions := {}) : Except BuilderError Module := do
  match b.completionError? with
  | some error => throw error
  | none =>
    let m := b.toModule options.deriveCfg
    if options.validate && !m.isValid then throw (.invalidModule m.problems)
    return m

end Builder

end Retarget
