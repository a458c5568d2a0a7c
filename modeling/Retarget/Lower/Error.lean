import Retarget.Builder.Error

/-!
# Errors of lowering

Why a program has no module.
-/

namespace Retarget

inductive LoweringError where
  | unhandled (kind : String) (span : Option Span)
  | malformed (kind cause : String) (span : Option Span)
  | builder (error : BuilderError)
  | tooDeep
  deriving DecidableEq, Repr

namespace LoweringError

def message : LoweringError → String
  | unhandled kind _ => "no lowering rule for " ++ kind
  | malformed kind cause _ => "malformed " ++ kind ++ ": " ++ cause
  | builder error => error.message
  | tooDeep => "program nested too deeply"

def span? : LoweringError → Option Span
  | unhandled _ span | malformed _ _ span => span
  | builder _ | tooDeep => none

def code : LoweringError → ErrorCode
  | unhandled .. | tooDeep => .unhandledSyntax
  | malformed .. => .malformedSyntax
  | builder error => error.code

def toDiagnostic (e : LoweringError) : Diagnostic :=
  .error e.message e.code e.span? "while lowering this"

end LoweringError

end Retarget
