import Retarget.CommandLine.Host
import Retarget.CommandLine.Path

/-!
# Files in memory

A `FileTree` is a working directory with everything in it. Paths outside of it do not exist.
-/

namespace Retarget

/-- Names that lead from the working directory to a file or directory. -/
abbrev Location := List String

inductive FileEntry where
  | directory
  | file (content : Artifact)
  deriving DecidableEq, Repr

structure FileTree where
  entries : List (Location × FileEntry) := []
  deriving Repr

namespace FileTree

variable (t : FileTree) (place : Location) (path : String)

def get? : Option FileEntry :=
  if place.isEmpty then some .directory else t.entries.lookup place

def put (entry : FileEntry) : FileTree :=
  ⟨(place, entry) :: t.entries.filter (·.1 != place)⟩

def enter : Except HostError Unit :=
  match t.get? place with
  | some .directory => .ok ()
  | some (.file _) => .error .notDirectory
  | none => .error .notFound

/-- The location that segments lead to from another one; all but the last must exist. -/
def walk (t : FileTree) (place : Location) : List String → Except HostError Location
  | [] => .ok place
  | segment :: more => do
    t.enter place
    if segment == "" || segment == "." then t.walk place more
    else if segment == ".." then
      if place.isEmpty then throw .notFound
      t.walk place.dropLast more
    else t.walk (place ++ [segment]) more

def locate : Except HostError Location :=
  match Path.segments path with
  | "" :: _ => .error .notFound
  | segments => t.walk [] segments

def readText : Except HostError String := do
  match t.get? (← t.locate path) with
  | some (.file (.text s)) => return s
  | some (.file (.binary bytes)) =>
    match String.fromUTF8? ⟨bytes.toArray⟩ with
    | some s => return s
    | none => throw .notText
  | some .directory => throw .isDirectory
  | none => throw .notFound

def write (content : Artifact) : Except HostError FileTree := do
  let place ← t.locate path
  match t.get? place with
  | some .directory => throw .isDirectory
  | _ => return t.put place (.file content)

def makeAlong (t : FileTree) (place : Location) : List String → Except HostError FileTree
  | [] => .ok t
  | segment :: more => do
    if segment == "" || segment == "." then t.makeAlong place more
    else if segment == ".." then
      if place.isEmpty then throw .notFound
      t.makeAlong place.dropLast more
    else
      let next := place ++ [segment]
      match t.get? next with
      | some .directory => t.makeAlong next more
      | some (.file _) => throw (if more.all (· == "") then .exists else .notDirectory)
      | none => (t.put next .directory).makeAlong next more

def makeDirectory : Except HostError FileTree :=
  match Path.segments path with
  | "" :: _ :: _ => .error .notFound
  | segments => t.makeAlong [] segments

def add (content : Artifact) : Except HostError FileTree := do
  (← t.makeDirectory (Path.parent path)).write path content

def files : List (String × Artifact) :=
  t.entries.filterMap fun (place, entry) =>
    match entry with
    | .directory => none
    | .file content => some (Path.ofSegments place, content)

/-- A host that works on a tree. What programs do is given by `run`. -/
def host (run : FileTree → String → List String → Except HostError ProgramResult) : Host (StateM FileTree) where
  readText path := return (← get).readText path
  write path content := do change ((← get).write path content)
  makeDirectory path := do change ((← get).makeDirectory path)
  runProgram program args := return run (← get) program args
where
  change : Except HostError FileTree → StateM FileTree (Except HostError Unit)
    | .ok t => do
      set t
      return .ok ()
    | .error e => return .error e

end FileTree

end Retarget
