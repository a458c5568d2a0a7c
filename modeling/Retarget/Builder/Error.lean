import Retarget.Source.Diagnostic
import Retarget.Validate.Problem

/-!
# Errors of building

Why a node cannot be created or changed, or why a module cannot be built.
-/

namespace Retarget

inductive BuilderError where
  | danglingReference (kind field : String) (missing : NodeId)
  | shapeMismatch (kind field : String) (expected : Category) (found : String) (target : NodeId)
  | unfilled (id : NodeId)
  | alreadyDefined (id : NodeId)
  | unknownNode (id : NodeId)
  | invalidNode (kind cause : String)
  | idsExhausted
  | invalidModule (problems : List Problem)
  deriving DecidableEq, Repr

namespace BuilderError

def message : BuilderError → String
  | danglingReference kind field missing =>
    kind ++ "." ++ field ++ " references missing node #" ++ toString missing
  | shapeMismatch kind field expected found target =>
    kind ++ "." ++ field ++ " expects " ++ expected.text ++ ", found " ++ found ++ " (#" ++
      toString target ++ ")"
  | unfilled id => "node #" ++ toString id ++ " was reserved but never filled"
  | alreadyDefined id => "node #" ++ toString id ++ " is already defined"
  | unknownNode id => "node #" ++ toString id ++ " does not exist"
  | invalidNode kind cause => "invalid " ++ kind ++ ": " ++ cause
  | idsExhausted => "node ids exhausted"
  | invalidModule problems =>
    "module failed validation with " ++ toString problems.length ++ " error(s): " ++
      "; ".intercalate (problems.map (·.message))

def code : BuilderError → ErrorCode
  | danglingReference .. | unknownNode _ => .danglingReference
  | shapeMismatch .. => .shapeMismatch
  | unfilled _ | alreadyDefined _ => .unfilledNode
  | invalidNode .. | idsExhausted => .invalidNode
  | invalidModule _ => .invariantViolation

end BuilderError

end Retarget
