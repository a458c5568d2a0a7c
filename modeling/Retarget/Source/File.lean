/-!
# Source files

`SourceFile.line` gives the text of a line by its number. The file keeps its text as bytes are counted: a
line is cut out between two byte offsets, and a cut outside the text or inside a character gives nothing.
-/

namespace Retarget

structure SourceFile where
  name : String
  source : String
  deriving DecidableEq, Repr, Inhabited

namespace SourceFile

/-- The byte offset after each newline of `text`, which starts at byte `offset`. -/
def startsAfter (offset : Nat) : List Char → List Nat
  | [] => []
  | c :: rest =>
    let next := offset + c.utf8Size
    if c == '\n' then next :: startsAfter next rest else startsAfter next rest

def lineStarts (file : SourceFile) : List Nat := 0 :: startsAfter 0 file.source.toList

/-- Drops `n` bytes; nothing if that ends inside a character or outside the text. -/
def dropBytes? : Nat → List Char → Option (List Char)
  | 0, text => some text
  | _ + 1, [] => none
  | n + 1, c :: rest => if c.utf8Size ≤ n + 1 then dropBytes? (n + 1 - c.utf8Size) rest else none

/-- Takes `n` bytes; nothing if that ends inside a character or outside the text. -/
def takeBytes? : Nat → List Char → Option (List Char)
  | 0, _ => some []
  | _ + 1, [] => none
  | n + 1, c :: rest =>
    if c.utf8Size ≤ n + 1 then (takeBytes? (n + 1 - c.utf8Size) rest).map (c :: ·) else none

def slice? (start stop : Nat) (text : List Char) : Option (List Char) :=
  if start ≤ stop then (dropBytes? start text).bind (takeBytes? (stop - start)) else none

def dropReturns (text : List Char) : List Char := (text.reverse.dropWhile (· == '\r')).reverse

def line (file : SourceFile) : Nat → Option String
  | 0 => none
  | n + 1 => do
    let start ← file.lineStarts[n]?
    let stop := match file.lineStarts[n + 1]? with
      | some next => next - 1
      | none => file.source.utf8ByteSize
    let text ← slice? start stop file.source.toList
    return String.ofList (dropReturns text)

end SourceFile

structure SourceFiles where
  files : List SourceFile := []
  deriving Repr, Inhabited

namespace SourceFiles

def add (s : SourceFiles) (name source : String) : Nat × SourceFiles :=
  (s.files.length, ⟨s.files ++ [⟨name, source⟩]⟩)

def get? (s : SourceFiles) (id : Nat) : Option SourceFile := s.files[id]?

end SourceFiles

end Retarget
