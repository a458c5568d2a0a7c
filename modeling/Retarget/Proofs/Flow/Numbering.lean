import Mathlib.Data.List.Sort
import Retarget.Proofs.Flow.Graph

/-!
# The numbers of blocks

The blocks of a derived graph are numbered from zero on, in the order in which they stand, and the entry is the first.

* `filterMap_renumber?_range`: numbering the kept blocks of a row anew gives the numbers from zero on.
* `Graph.WellFormed`: what holds of a derived graph.
* `deriveAll_wellFormed`: every function has a graph, every graph is well-formed, and the validator has no objections.
-/

namespace Retarget

open List

/-- Whether references lead to nodes of the table can be decided node by node. -/
instance (nodes : NodeTable) : Decidable nodes.Closed :=
  decidable_of_iff (∀ node ∈ nodes.values, ∀ r ∈ node.kind.references, r.target ∈ nodes) <| by
    simp only [IdMap.mem_values, NodeTable.Closed, NodeTable.kind?_eq_some]
    constructor
    · rintro h id kind ⟨node, hnode, rfl⟩
      exact h node ⟨id, hnode⟩
    · rintro h node ⟨id, hnode⟩
      exact h id node.kind ⟨node, hnode, rfl⟩

namespace Flow

open Relation

/-- A graph whose blocks stand in the order of their numbers, with the entry in front, and lead to each other without
repetitions. -/
structure Graph.WellFormed (nodes : NodeTable) (g : Graph) : Prop where
  ids : g.blocks.map (·.id) = range g.blocks.length
  nonempty : g.blocks ≠ []
  entry : g.entry = 0
  successor_lt : ∀ block ∈ g.blocks, ∀ s ∈ block.successors, s < g.blocks.length
  successors_nodup : ∀ block ∈ g.blocks, block.successors.Nodup
  statement_mem : ∀ block ∈ g.blocks, ∀ s ∈ block.statements, s ∈ nodes
  reachable : ∀ block ∈ g.blocks, ReflTransGen g.Edge g.entry block.id

section Numbers

variable {kept : List Nat} (hsorted : kept.Pairwise (· < ·)) {n : Nat}

include hsorted

theorem filter_mem_range (hlt : ∀ i ∈ kept, i < n) : (range n).filter (· ∈ kept) = kept := by
  apply List.Pairwise.eq_of_mem_iff (pairwise_lt_range.filter _) hsorted
  intro i
  simp only [mem_filter, mem_range, decide_eq_true_eq]
  exact ⟨fun h => h.2, fun h => ⟨hlt i h, h⟩⟩

/-- **Renumbering leaves no gaps**: the numbers given to the kept blocks are those from zero on, in order. -/
theorem filterMap_renumber?_range (hlt : ∀ i ∈ kept, i < n) :
    (range n).filterMap (renumber? kept) = range kept.length := by
  have hnodup : kept.Nodup := hsorted.imp Nat.ne_of_lt
  have hdropped : (range n).filterMap (renumber? kept) =
      ((range n).filter (· ∈ kept)).filterMap (renumber? kept) := by
    rw [filterMap_filter]
    apply filterMap_congr
    intro i _
    by_cases hi : i ∈ kept
    · simp [hi]
    · simp [hi, renumber?]
  have hnumbers : kept.map (renumber? kept) = (range kept.length).map some := by
    apply ext_getElem (by simp)
    intro i hi hi'
    simp only [getElem_map, getElem_range]
    exact (renumber?_eq_some hnodup).2 (getElem?_eq_getElem _)
  calc (range n).filterMap (renumber? kept)
      = (kept.map (renumber? kept)).filterMap id := by
        rw [hdropped, filter_mem_range hsorted hlt, filterMap_map]
        rfl
    _ = range kept.length := by rw [hnumbers]; simp

theorem renumber?_zero (hzero : 0 ∈ kept) : renumber? kept 0 = some 0 := by
  cases kept with
  | nil => simp at hzero
  | cons head tail =>
    obtain rfl | htail := mem_cons.1 hzero
    · simp [renumber?, idxOf?_cons]
    · have hlt := (pairwise_cons.1 hsorted).1 0 htail
      omega

end Numbers

variable {P : NodeId → Prop} {nodes : NodeTable} {draft : Draft} {entry : Nat}

theorem pairwise_keptBlocks : (keptBlocks entry draft).Pairwise (· < ·) :=
  Std.ExtTreeSet.ordered_toList.imp Nat.compare_eq_lt.1

theorem Fits.ids_finish (h : Fits P draft) (hentry : entry < draft.length) :
    (finish entry draft).blocks.map (·.id) = range (finish entry draft).blocks.length := by
  have hids : (finish entry draft).blocks.map (·.id) = range (keptBlocks entry draft).length := by
    rw [h.map_id_finish]
    exact filterMap_renumber?_range pairwise_keptBlocks fun i => h.lt_length hentry
  have hlength : (finish entry draft).blocks.length = (keptBlocks entry draft).length := by
    simpa using congrArg length hids
  rw [hids, hlength]

theorem Fits.successors_nodup_finish (h : Fits P draft) {block : Block} (hb : block ∈ (finish entry draft).blocks) :
    block.successors.Nodup := by
  obtain ⟨i, old, number, -, -, hold, rfl⟩ := h.exists_kept hb
  apply List.Nodup.filterMap _ (h.successors_nodup old (mem_of_getElem? hold))
  intro a a' b ha ha'
  rw [Option.mem_def, renumber?_eq_some nodup_keptBlocks] at ha ha'
  exact Option.some.inj (ha.symm.trans ha')

/-- **A finished graph is well-formed**, if it starts with the first block of a fitting draft. -/
theorem finish_wellFormed (h : Fits (· ∈ nodes) draft) (hentry : 0 < draft.length) :
    (finish 0 draft).WellFormed nodes := by
  have hsound := finish_sound h hentry
  have hids := h.ids_finish hentry
  refine ⟨hids, ?_, ?_, ?_, fun block => h.successors_nodup_finish, hsound.statement_mem, hsound.reachable⟩
  · intro hnil
    have hmem := hsound.entry_mem
    simp [hnil] at hmem
  · exact finish_entry (renumber?_zero pairwise_keptBlocks (mem_keptBlocks.2 .refl))
  · intro block hb s hs
    have hmem := hsound.successor_mem block hb s hs
    rwa [hids, mem_range] at hmem

theorem bodyGraph_wellFormed (hclosed : nodes.Closed) {body : NodeId} (hbody : body ∈ nodes) :
    (bodyGraph nodes body).WellFormed nodes := by
  obtain ⟨hfits, hentry⟩ := fits_body (mem_of_child hclosed) hbody
  exact finish_wellFormed hfits hentry

theorem mem_deriveAll {id : NodeId} {node : Node} (hnode : nodes[id]? = some node) (hid : node.id = id)
    (hfunction : node.kind.function?.isSome = true) : id ∈ deriveAll nodes := by
  obtain ⟨f, hf⟩ := Option.isSome_iff_exists.1 hfunction
  have hgraph : functionGraph? nodes node.id = some (bodyGraph nodes f.body) := by
    simp [functionGraph?, hid, hnode, hf]
  have hvalue : node ∈ nodes.values := IdMap.mem_values.2 ⟨id, hnode⟩
  rw [deriveAll, Std.ExtTreeMap.mem_ofList, contains_iff_mem, mem_map]
  refine ⟨(node.id, bodyGraph nodes f.body), mem_filterMap.2 ⟨node, ?_, ?_⟩, hid⟩
  · exact mem_filter.2 ⟨hvalue, hfunction⟩
  · simp [hgraph]

/-- **Derived graphs are well-formed.** In a table whose references lead to its nodes, every function has a graph, all
graphs are well-formed, and the validator finds nothing wrong with the graphs of a module that is built with them. For
this, ownership need not even be free of circles. -/
theorem deriveAll_wellFormed (hclosed : nodes.Closed) :
    (∀ (id : NodeId) (node : Node), nodes[id]? = some node → node.id = id → node.kind.function?.isSome = true →
      id ∈ deriveAll nodes) ∧
      (∀ (function : NodeId) (g : Graph), (deriveAll nodes)[function]? = some g → g.WellFormed nodes) ∧
      ∀ m : Module, m.nodes = nodes → m.metadata.cfg = deriveAll nodes → m.flowProblems = [] := by
  refine ⟨fun id node => mem_deriveAll, fun function g hg => ?_, fun m hm hcfg => ?_⟩
  · obtain ⟨-, body, hbody, rfl⟩ := functionGraph?_eq_some hclosed (getElem?_deriveAll hg)
    exact bodyGraph_wellFormed hclosed hbody
  · subst hm
    exact Module.flowProblems_of_closed hclosed hcfg

/-- The function `f() { do { try { throw null; break; } catch (e) { continue; } finally { return; } } while (null); }`.
-/
def retry : Module :=
  .numbered [.null, .throwStmt 1, .breakStmt, .block [2, 3], .parameter "e", .continueStmt, .block [6],
    .catchClause (some 5) 7, .returnStmt none, .block [9], .tryStmt 4 (some 8) (some 10), .block [11], .null,
    .doWhile 12 13, .block [14], .functionDecl ⟨some "f", [], none, 15, false⟩] [16]

theorem retry_wellFormed : retry.nodes.Closed ∧ ∃ g : Graph, (deriveAll retry.nodes)[16]? = some g ∧
    g.WellFormed retry.nodes ∧ { retry with metadata.cfg := deriveAll retry.nodes }.flowProblems = [] := by
  have hclosed : retry.nodes.Closed := by decide +kernel
  obtain ⟨hfunctions, hgraphs, hflow⟩ := deriveAll_wellFormed hclosed
  have hnode : ∃ node, retry.nodes[16]? = some node ∧ node.id = 16 ∧ node.kind.function?.isSome = true :=
    ⟨_, rfl, rfl, rfl⟩
  obtain ⟨node, hnode, hid, hfunction⟩ := hnode
  obtain ⟨g, hg⟩ := IdMap.mem_iff.1 (hfunctions 16 node hnode hid hfunction)
  exact ⟨hclosed, g, hg, hgraphs 16 g hg, hflow _ rfl rfl⟩

end Flow

end Retarget
