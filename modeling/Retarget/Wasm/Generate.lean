import Retarget.Optimize.Pipeline
import Retarget.Target.Gather
import Retarget.Wasm.Encode
import Retarget.Wasm.Statement

/-!
# WebAssembly modules from modules

The functions of a module are exported under their names, and its other statements run at the start.
-/

namespace Retarget.Wasm

def bodyCode (stmt : Labels → NodeId → StmtGen Code) (scope : NumericScope) :
    (labels : Labels) → (scratch : Nat) → List NodeId → Except (List BackendError) (Code × Nat)
  | _, scratch, [] => .ok ([], scratch)
  | labels, scratch, id :: more =>
    match stmt labels id scope scratch with
    | .ok (code, scratch) =>
      (bodyCode stmt scope labels scratch more).map fun (rest, scratch) => (code ++ rest, scratch)
    | .error failure =>
      match bodyCode stmt scope failure.labels scratch more with
      | .ok _ => .error [failure.error]
      | .error errors => .error (failure.error :: errors)

def functionBody (scope : NumericScope) (returns : Bool) : Except (List BackendError) Body := do
  let depth := scope.module.levels
  let stmt := StmtGen.stmt returns (Gen.expr depth) depth
  let (code, scratch) ← bodyCode stmt scope [] 0 scope.function.body
  return ⟨scope.function.locals.length + scratch, if returns then code ++ [Gen.nan] else code⟩

def assemble (plan : NumericPlan) (bodies : List Body) : Binary :=
  let all := plan.functions.map (fun f => Signature.mk f.params.length true) ++
    plan.init.toList.map fun _ => ⟨0, false⟩
  let signatures := all.eraseDups
  { signatures := signatures
    functions := all.map signatures.idxOf
    globals := plan.globals.length
    exports := Json.sortFields (plan.functions.mapIdx fun i f => (f.name, i))
    start := plan.init.map fun _ => plan.functions.length
    bodies := bodies }

def generate (m : Module) : Except (List BackendError) Binary := do
  let plan ← NumericPlan.ofModule m .wasm
  let functions := plan.functions.map fun f => functionBody ⟨m, plan, f⟩ true
  let init := plan.init.toList.map fun f => functionBody ⟨m, plan, f⟩ false
  return assemble plan (← gather (functions ++ init))

def emit (m : Module) (optimize : Bool) : Except (List BackendError) Bytes := do
  let m ← if optimize then (Pipeline.standard.apply m).mapError fun e => [.transform e.message] else pure m
  return (← generate m).bytes

end Retarget.Wasm
