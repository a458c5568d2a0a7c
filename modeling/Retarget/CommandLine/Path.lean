import Retarget.Text.Pieces

/-!
# Paths

A path is a text whose segments are divided by slashes. Empty segments and dots count for nothing, unless they
come first.
-/

namespace Retarget.Path

def segments (path : String) : List String := (pieces '/' path.toList).map String.ofList

def ofSegments (segments : List String) : String := "/".intercalate segments

def trimReversed : List String → List String
  | [] => []
  | [first] => [first]
  | last :: second :: before =>
    if last == "" || last == "." then trimReversed (second :: before) else last :: second :: before

def reversed (path : String) : List String := trimReversed (segments path).reverse

def fileName? (path : String) : Option String :=
  match reversed path with
  | last :: _ => if last == "" || last == "." || last == ".." then none else some last
  | [] => none

/-- A file name as its stem and its extension; a dot at the start does not begin an extension. -/
def splitName (name : String) : String × Option String :=
  let chars := name.toList.reverse
  match chars.dropWhile (· != '.') with
  | '.' :: c :: before =>
    (String.ofList (c :: before).reverse, some (String.ofList (chars.takeWhile (· != '.')).reverse))
  | _ => (name, none)

def extension? (path : String) : Option String := (fileName? path).bind fun name => (splitName name).2

def withExtension (path extension : String) : String :=
  match fileName? path with
  | some name => ofSegments ((reversed path).tail.reverse ++ [(splitName name).1 ++ "." ++ extension])
  | none => path

/-- The directory that a path is in; nothing for a file in the working directory. -/
def parent (path : String) : String :=
  match trimReversed (reversed path).tail with
  | [""] => "/"
  | before => ofSegments before.reverse

def join (directory name : String) : String :=
  if directory == "" then name
  else if directory.toList.getLast? == some '/' then directory ++ name
  else directory ++ "/" ++ name

end Retarget.Path
