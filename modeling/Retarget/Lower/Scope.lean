import Retarget.Node.Basic

/-!
# Scopes

A `ScopeStack` maps names to the nodes that declare them, frame by frame. The frame of the module is always
there; the frames inside it are pushed and popped.
-/

namespace Retarget

inductive FrameKind where
  | module | function | block
  deriving DecidableEq, Repr, Inhabited

/-- The names declared in one place; a later declaration of a name comes first. -/
abbrev Bindings := List (String × NodeId)

structure ScopeFrame where
  kind : FrameKind
  bindings : Bindings := []
  deriving DecidableEq, Repr, Inhabited

/-- The frames around a place in a program, innermost first, and the names of the module. -/
structure ScopeStack where
  inner : List ScopeFrame := []
  root : Bindings := []
  deriving DecidableEq, Repr, Inhabited

namespace ScopeStack

def depth (s : ScopeStack) : Nat := s.inner.length + 1

def push (kind : FrameKind) (s : ScopeStack) : ScopeStack := { s with inner := ⟨kind, []⟩ :: s.inner }

def pop (s : ScopeStack) : ScopeStack := { s with inner := s.inner.tail }

def add (name : String) (id : NodeId) (s : ScopeStack) : ScopeStack :=
  match s.inner with
  | [] => { s with root := (name, id) :: s.root }
  | frame :: outer => { s with inner := { frame with bindings := (name, id) :: frame.bindings } :: outer }

/-- Declares a name in the first of the frames that is no block; the rest says whether there is one. -/
def addOutsideBlocks (name : String) (id : NodeId) : List ScopeFrame → Option (List ScopeFrame)
  | [] => none
  | frame :: outer =>
    if frame.kind = .block then (addOutsideBlocks name id outer).map (frame :: ·)
    else some ({ frame with bindings := (name, id) :: frame.bindings } :: outer)

def addToFunction (name : String) (id : NodeId) (s : ScopeStack) : ScopeStack :=
  match addOutsideBlocks name id s.inner with
  | some inner => { s with inner := inner }
  | none => { s with root := (name, id) :: s.root }

def lookup? (name : String) (bindings : Bindings) : Option NodeId :=
  (bindings.find? (·.1 == name)).map (·.2)

def local? (name : String) (s : ScopeStack) : Option NodeId :=
  match s.inner with
  | [] => lookup? name s.root
  | frame :: _ => lookup? name frame.bindings

def resolve? (name : String) (s : ScopeStack) : Option NodeId :=
  (s.inner.findSome? fun frame => lookup? name frame.bindings).or (lookup? name s.root)

end ScopeStack

end Retarget
