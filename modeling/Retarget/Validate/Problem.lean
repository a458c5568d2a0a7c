import Retarget.Module.Version
import Retarget.Node.Reference

/-!
# Problems of a module

What the validator can find wrong with a module, and the words for it.
-/

namespace Retarget

inductive Problem where
  | keyMismatch (key id : NodeId)
  | incompatibleVersion (version : String)
  | missingReference (node : NodeId) (field : String) (target : NodeId)
  | wrongCategory (node : NodeId) (field : String) (expected : Category) (found : String) (target : NodeId)
  | missingStatement (index : Nat) (id : NodeId)
  | notStatement (index : Nat) (found : String)
  | ownedTwice (child first second : NodeId)
  | ownershipCycle (id : NodeId)
  | ownedStatement (index : Nat) (id parent : NodeId)
  | repeatedStatement (index : Nat) (id : NodeId)
  | outOfScope (id : NodeId) (name : String) (binding : NodeId)
  | usedEarly (id : NodeId) (name : String) (binding : NodeId)
  | graphOwnerKind (function : NodeId) (found : String)
  | graphOwnerMissing (function : NodeId)
  | repeatedBlock (function : NodeId) (index block : Nat)
  | missingEntry (function : NodeId) (entry : Nat)
  | missingSuccessor (function : NodeId) (index block : Nat)
  | missingBlockStatement (function : NodeId) (index : Nat) (statement : NodeId)
  | unreachableBlock (function : NodeId) (index block : Nat)
  deriving DecidableEq, Repr

namespace Problem

def nodePath (id : NodeId) : String := "nodes." ++ toString id

def bodyPath (index : Nat) : String := "body[" ++ toString index ++ "]"

def graphPath (function : NodeId) : String := "metadata.cfg." ++ toString function

def blockPath (function : NodeId) (index : Nat) : String :=
  graphPath function ++ ".blocks[" ++ toString index ++ "]"

def missing (id : NodeId) : String := "references missing node " ++ toString id

def message : Problem → String
  | keyMismatch key id => nodePath key ++ ".id: " ++ toString id ++ " does not match its key"
  | incompatibleVersion version =>
    "schemaVersion: `" ++ version ++ "` is not compatible with " ++ Retarget.schemaVersion
  | missingReference node field target => nodePath node ++ "." ++ field ++ ": " ++ missing target
  | wrongCategory node field expected found target =>
    nodePath node ++ "." ++ field ++ ": expected " ++ expected.text ++ ", found " ++ found ++ " (node " ++
      toString target ++ ")"
  | missingStatement index id => bodyPath index ++ ": " ++ missing id
  | notStatement index found => bodyPath index ++ ": expected a statement, found " ++ found
  | ownedTwice child first second =>
    nodePath child ++ ": owned by both node " ++ toString first ++ " and node " ++ toString second
  | ownershipCycle id => nodePath id ++ ": part of an ownership cycle"
  | ownedStatement index id parent =>
    bodyPath index ++ ": node " ++ toString id ++ " is also owned by node " ++ toString parent
  | repeatedStatement index id => bodyPath index ++ ": node " ++ toString id ++ " appears twice"
  | outOfScope id name binding =>
    nodePath id ++ ".binding: `" ++ name ++ "` resolves to node " ++ toString binding ++
      ", which is not in scope here"
  | usedEarly id name binding =>
    nodePath id ++ ".binding: `" ++ name ++ "` is used before its declaration (node " ++
      toString binding ++ ")"
  | graphOwnerKind function found =>
    graphPath function ++ ": node is a " ++ found ++ ", not a function"
  | graphOwnerMissing function => graphPath function ++ ": " ++ missing function
  | repeatedBlock function index block =>
    blockPath function index ++ ": duplicate block id " ++ toString block
  | missingEntry function entry => graphPath function ++ ".entry: missing block " ++ toString entry
  | missingSuccessor function index block =>
    blockPath function index ++ ".successors: missing block " ++ toString block
  | missingBlockStatement function index statement =>
    blockPath function index ++ ".statements: " ++ missing statement
  | unreachableBlock function index block =>
    blockPath function index ++ ": block " ++ toString block ++ " is unreachable from entry"

def missingNode? : Problem → Option NodeId
  | missingReference _ _ id | missingStatement _ id | graphOwnerMissing id
  | missingBlockStatement _ _ id => some id
  | _ => none

end Problem

end Retarget
