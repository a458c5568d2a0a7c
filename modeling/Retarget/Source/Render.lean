import Retarget.Source.Diagnostic
import Retarget.Source.File

/-!
# Rendering diagnostics

A diagnostic is rendered as its summary, then for each label the place, the line of source and a marker
under the region, then the notes. Labels of unknown files are left out, and of unknown lines only the place
is written.
-/

namespace Retarget

structure Renderer where
  files : SourceFiles
  colors : Bool := true

namespace Renderer

def paint (r : Renderer) (code : String) : String := if r.colors then code else ""

def levelColor : Level → String
  | .error => "\x1b[1;31m"
  | .warning => "\x1b[1;33m"
  | .note => "\x1b[1;36m"

/-- How many characters are marked under a line of `bytes` bytes. -/
def markWidth (span : Span) (bytes : Nat) : Nat :=
  if span.start.line = span.stop.line then max (span.stop.column - span.start.column) 1
  else max (bytes - (max span.start.column 1 - 1)) 1

def excerpt (r : Renderer) (level : Level) (label : Label) (text : String) : String :=
  let reset := r.paint "\x1b[0m"
  let blue := r.paint "\x1b[1;34m"
  let number := toString label.span.start.line
  let gutter := copies number.length ' '
  let color := if label.primary then r.paint (levelColor level) else blue
  let mark := if label.primary then '^' else '-'
  let indent := copies (max label.span.start.column 1 - 1) ' '
  " " ++ gutter ++ " " ++ blue ++ "|" ++ reset ++ "\n" ++
  " " ++ blue ++ number ++ " |" ++ reset ++ " " ++ text ++ "\n" ++
  " " ++ gutter ++ " " ++ blue ++ "|" ++ reset ++ " " ++ indent ++ color ++
    copies (markWidth label.span text.utf8ByteSize) mark ++ reset ++ " " ++ label.message ++ "\n"

def label (r : Renderer) (level : Level) (label : Label) : String :=
  match r.files.get? label.span.fileId with
  | none => ""
  | some file =>
    let place := " " ++ r.paint "\x1b[1;34m" ++ "-->" ++ r.paint "\x1b[0m" ++ " " ++ file.name ++ ":" ++
      label.span.location ++ "\n"
    match file.line label.span.start.line with
    | none => place
    | some text => place ++ r.excerpt level label text

def render (r : Renderer) (d : Diagnostic) : String :=
  let reset := r.paint "\x1b[0m"
  let bold := r.paint "\x1b[1m"
  let code := match d.code with
    | some code => "[" ++ code.text ++ "]"
    | none => ""
  let head := r.paint (levelColor d.level) ++ d.level.text ++ code ++ reset ++ bold ++ ": " ++ d.message ++
    reset ++ "\n"
  let notes := d.notes.map fun note => "   = " ++ bold ++ "note" ++ reset ++ ": " ++ note ++ "\n"
  head ++ String.join (d.labels.map (r.label d.level)) ++ String.join notes

def renderAll (r : Renderer) (diagnostics : List Diagnostic) : String :=
  "\n".intercalate (diagnostics.map r.render)

end Renderer

end Retarget
