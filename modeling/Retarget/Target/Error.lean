import Retarget.Source.Diagnostic
import Retarget.Target.Basic

/-!
# Errors of code generation

Why a module cannot be compiled to a target.
-/

namespace Retarget

inductive BackendError where
  | unsupported (target : Target) (kind : String) (id : NodeId) (reason : String)
  | missingNode (target : Target) (id : NodeId)
  | unknownTarget (name : String) (known : List Target)
  | transform (message : String)
  | cyclic (target : Target) (id : NodeId)
  deriving DecidableEq, Repr

def commaSeparated (names : List String) : String := ", ".intercalate names

namespace BackendError

def message : BackendError → String
  | unsupported target kind id reason =>
    target.name ++ ": cannot compile " ++ kind ++ " (node " ++ toString id ++ "): " ++ reason
  | missingNode target id => target.name ++ ": node " ++ toString id ++ " is missing from the module"
  | unknownTarget name known =>
    "unknown target `" ++ name ++ "` (known targets: " ++ commaSeparated (known.map (·.name)) ++ ")"
  | transform message => "IR transform failed: " ++ message
  | cyclic target id => target.name ++ ": node " ++ toString id ++ " owns itself"

def code : BackendError → ErrorCode
  | unsupported .. => .unsupportedNode
  | unknownTarget .. => .unknownTarget
  | missingNode .. | transform _ | cyclic .. => .targetFailure

def node? : BackendError → Option NodeId
  | unsupported _ _ id _ | missingNode _ id | cyclic _ id => some id
  | unknownTarget .. | transform _ => none

def notes : BackendError → List String
  | unknownTarget _ known => ["registered targets: " ++ commaSeparated (known.map (·.name))]
  | _ => []

def toDiagnostic (e : BackendError) : Diagnostic :=
  { Diagnostic.error e.message e.code none "" with notes := e.notes }

end BackendError

end Retarget
