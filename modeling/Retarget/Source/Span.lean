import Retarget.Json.Read

/-!
# Source positions

A `Span` is a half-open region of a source file. Spans are ordered by byte offsets; lines and columns are
carried along for messages.
-/

namespace Retarget

structure Position where
  line : Nat
  column : Nat
  offset : Nat := 0
  deriving DecidableEq, Repr, Inhabited

structure Span where
  start : Position
  stop : Position
  fileId : Nat := 0
  deriving DecidableEq, Repr, Inhabited

namespace Position

def toJson (p : Position) : Json :=
  .obj [("line", .ofNat p.line), ("column", .ofNat p.column), ("offset", .ofNat p.offset)]

def ofJson? (value : Json) : Option Position := do
  let fields ← value.record? ["line", "column", "offset"] 2
  return {
    line := ← Json.required Json.nat32? "line" fields
    column := ← Json.required Json.nat32? "column" fields
    offset := ← Json.defaulted 0 Json.nat64? "offset" fields }

end Position

namespace Span

def point (p : Position) (fileId : Nat) : Span := ⟨p, p, fileId⟩

def merge (a b : Span) : Span :=
  if a.fileId ≠ b.fileId then a
  else
    { start := if b.start.offset < a.start.offset then b.start else a.start
      stop := if a.stop.offset < b.stop.offset then b.stop else a.stop
      fileId := a.fileId }

def length (s : Span) : Nat := s.stop.offset - s.start.offset

def isEmpty (s : Span) : Bool := s.length == 0

def location (s : Span) : String := toString s.start.line ++ ":" ++ toString s.start.column

def toJson (s : Span) : Json :=
  .obj [("start", s.start.toJson), ("end", s.stop.toJson), ("fileId", .ofNat s.fileId)]

def ofJson? (value : Json) : Option Span := do
  let fields ← value.record? ["start", "end", "fileId"] 2
  return {
    start := ← Json.required Position.ofJson? "start" fields
    stop := ← Json.required Position.ofJson? "end" fields
    fileId := ← Json.defaulted 0 Json.nat32? "fileId" fields }

end Span

end Retarget
