import Std.Data.ExtTreeMap
import Retarget.Flow.Graph

/-!
# Modules

A module is a program that has been built: a table of nodes, the statements at the top level, and what is
known about the whole.
-/

namespace Retarget

abbrev IdMap (α : Type) := Std.ExtTreeMap NodeId α

abbrev NodeTable := IdMap Node

def NodeTable.kind? (nodes : NodeTable) (id : NodeId) : Option Kind := (nodes[id]?).map Node.kind

structure Metadata where
  cfg : IdMap Flow.Graph := ∅
  source : Option String := none
  /-- Directives at the start of the program, such as `"use strict"`. -/
  directives : List String := []

structure Module where
  schemaVersion : String
  nodes : NodeTable
  body : List NodeId
  metadata : Metadata

namespace Module

def node? (m : Module) (id : NodeId) : Option Node := m.nodes[id]?

def kind? (m : Module) (id : NodeId) : Option Kind := m.nodes.kind? id

def functions (m : Module) : List Node := m.nodes.values.filter (·.kind.function?.isSome)

end Module

end Retarget
