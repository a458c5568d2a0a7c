import Retarget.Llvm.Print
import Retarget.Llvm.Statement
import Retarget.Optimize.Pipeline
import Retarget.Target.Gather
import Retarget.Target.Options

/-!
# LLVM programs from modules

The functions of a module become functions, and its other statements become an initializer, which is registered
as a constructor of the program.
-/

namespace Retarget.Llvm

/-- The first lines of a function: its variables get their places and first values. -/
def prologue (scope : NumericScope) : Draft :=
  let places := Gen.addresses scope
  let values := (List.range scope.function.params.length).map Operand.arg ++
    List.replicate scope.function.locals.length Gen.nan
  (places.zip values).foldl
    (fun d (place, value) => (d.instruction (.allocate place)).instruction (.store value place))
    (Draft.push {} (.label .entry))

/-- A function of a layout. Every function has a result, apart from the one named like the initializer. -/
def function (debugInfo isInit : Bool) (scope : NumericScope) : Except (List BackendError) Function := do
  let f := scope.function
  let returns := f.name != NumericPlan.initName
  let depth := scope.module.levels
  let stmt := Gen.stmt ⟨debugInfo, returns⟩ (Gen.expr depth) depth none
  let step (draft : Draft) (id : NodeId) := (stmt id scope draft).map (·.2)
  let draft ← gatherSteps step (prologue scope) f.body
  let draft := draft.terminate (if returns then .ret Gen.nan else .retVoid)
  return ⟨f.name, f.params.length, isInit, draft.lines.toList⟩

def generate (m : Module) (options : CompileOptions) : Except (List BackendError) Program := do
  let plan ← NumericPlan.ofModule m .llvm
  let functions := plan.functions.map fun f => function options.debugInfo false ⟨m, plan, f⟩
  let init := plan.init.toList.map fun f => function options.debugInfo true ⟨m, plan, f⟩
  return {
    source := m.metadata.source.getD "luascript"
    triple := options.targetTriple
    level := min options.optLevel 3
    globals := plan.globals.map (·.2)
    functions := ← gather (functions ++ init) }

def emit (m : Module) (options : CompileOptions) : Except (List BackendError) String := do
  let m ←
    if options.optLevel = 0 then pure m
    else (Pipeline.standard.apply m).mapError fun e => [.transform e.message]
  return (← generate m options).text

end Retarget.Llvm
