import Retarget.Source.Span
import Retarget.Text.Pieces

/-!
# Diagnostics

A diagnostic is a message of a level, with an optional code, labelled regions of source and notes.
-/

namespace Retarget

inductive Level where
  | error
  | warning
  | note
  deriving DecidableEq, Repr, Inhabited

def Level.text : Level → String
  | .error => "error"
  | .warning => "warning"
  | .note => "note"

/-- A code: a letter for the stage (`I` input, `B` building, `L` lowering, `V` validation, `G` code
generation) and a number. -/
structure ErrorCode where
  stage : Char
  number : Nat
  deriving DecidableEq, Repr, Inhabited

namespace ErrorCode

def invalidProgram : ErrorCode := ⟨'I', 1⟩
def invalidModule : ErrorCode := ⟨'I', 2⟩
def readerFailed : ErrorCode := ⟨'I', 3⟩
def danglingReference : ErrorCode := ⟨'B', 1⟩
def shapeMismatch : ErrorCode := ⟨'B', 2⟩
def unfilledNode : ErrorCode := ⟨'B', 3⟩
def invalidNode : ErrorCode := ⟨'B', 4⟩
def unhandledSyntax : ErrorCode := ⟨'L', 1⟩
def malformedSyntax : ErrorCode := ⟨'L', 2⟩
def schemaViolation : ErrorCode := ⟨'V', 1⟩
def invariantViolation : ErrorCode := ⟨'V', 2⟩
def unsupportedNode : ErrorCode := ⟨'G', 1⟩
def unknownTarget : ErrorCode := ⟨'G', 2⟩
def targetFailure : ErrorCode := ⟨'G', 3⟩

def text (code : ErrorCode) : String :=
  let digits := toString code.number
  "E" ++ String.singleton code.stage ++ copies (3 - digits.length) '0' ++ digits

end ErrorCode

structure Label where
  span : Span
  message : String
  primary : Bool
  deriving DecidableEq, Repr, Inhabited

structure Diagnostic where
  level : Level
  message : String
  code : Option ErrorCode := none
  labels : List Label := []
  notes : List String := []
  deriving DecidableEq, Repr, Inhabited

namespace Diagnostic

def summary (d : Diagnostic) : String :=
  let code := match d.code with
    | some code => "[" ++ code.text ++ "]"
    | none => ""
  d.level.text ++ code ++ ": " ++ d.message

def error (message : String) (code : ErrorCode) (span : Option Span) (label : String) : Diagnostic where
  level := .error
  message := message
  code := some code
  labels := span.toList.map fun s => ⟨s, label, true⟩

end Diagnostic

def errorCount (diagnostics : List Diagnostic) : Nat :=
  (diagnostics.filter (·.level = .error)).length

end Retarget
