import Retarget.Proofs.Document.Node
import Retarget.Proofs.Ownership
import Retarget.Validate.Document

/-!
# Modules in documents

`Module.document_roundTrip`: a module that is stored under its own ids, has finite numbers only and is of a version
that can be read gives a document of the right shape that is read back as the module itself. So the validation of the
document reports what the validation of the module does.

The numbers of a module are natural numbers here, and those of the format have a width. `Module.InRange` says that the
numbers have that width and that object types, which are tables by name, are in the order of the names.
-/

namespace Retarget

open Json Shape List Option

/-! ## Control flow -/

namespace Flow

structure Block.InRange (block : Block) : Prop where
  id_lt : block.id < 0x100000000
  statements_lt : ∀ id ∈ block.statements, id < 0x100000000
  successors_lt : ∀ id ∈ block.successors, id < 0x100000000

theorem Block.ofJson?_toJson {block : Block} (h : block.InRange) : ofJson? block.toJson = some block := by
  refine bind_eq_some_iff.2 ⟨block.id, natBelow?_ofNat h.id_lt, ?_⟩
  refine bind_eq_some_iff.2 ⟨block.statements, ids?_ofList h.statements_lt, ?_⟩
  exact bind_eq_some_iff.2 ⟨block.successors, ids?_ofList h.successors_lt, rfl⟩

structure Graph.InRange (g : Graph) : Prop where
  entry_lt : g.entry < 0x100000000
  blocks : ∀ block ∈ g.blocks, block.InRange

theorem Graph.ofJson?_toJson {g : Graph} (h : g.InRange) : ofJson? g.toJson = some g := by
  refine bind_eq_some_iff.2 ⟨g.entry, natBelow?_ofNat h.entry_lt, ?_⟩
  refine bind_eq_some_iff.2 ⟨g.blocks, list?_ofList fun block hblock => ?_, rfl⟩
  exact Block.ofJson?_toJson (h.blocks block hblock)

end Flow

/-! ## Modules -/

/-- The numbers of a module have the width of the format, and its types are sorted. -/
structure Module.InRange (m : Module) : Prop where
  nodes : ∀ id node, m.nodes[id]? = some node → id < 0x100000000 ∧ node.InRange
  body_lt : ∀ id ∈ m.body, id < 0x100000000
  cfg : ∀ id g, m.metadata.cfg[id]? = some g → id < 0x100000000 ∧ g.InRange

def Module.HasFiniteNumbers (m : Module) : Prop := ∀ id x, m.kind? id = some (.number x) → x.isFinite = true

theorem Metadata.ofJson?_toJson {m : Metadata}
    (h : ∀ id g, m.cfg[id]? = some g → id < 0x100000000 ∧ g.InRange) : ofJson? m.toJson = some m := by
  obtain ⟨cfg, source, directives⟩ := m
  have hcfg : idMap? Flow.Graph.ofJson? (.ofIdMap Flow.Graph.toJson cfg) = some cfg :=
    idMap?_ofIdMap fun id g hg => ⟨(h id g hg).1, Flow.Graph.ofJson?_toJson (h id g hg).2⟩
  cases directives with
  | nil => cases source <;> exact bind_eq_some_iff.2 ⟨cfg, hcfg, rfl⟩
  | cons first more =>
    have hdirectives : list? string? (.ofList .str (first :: more)) = some (first :: more) :=
      list?_ofList fun _ _ => rfl
    cases source <;> exact bind_eq_some_iff.2 ⟨cfg, hcfg, bind_eq_some_iff.2 ⟨_, rfl,
      bind_eq_some_iff.2 ⟨first :: more, hdirectives, rfl⟩⟩⟩

namespace Module

variable {m : Module} {id : NodeId} {node : Node}

theorem HasFiniteNumbers.isFinite (h : m.HasFiniteNumbers) (hnode : m.nodes[id]? = some node) : node.kind.IsFinite := by
  intro x hx
  exact h id x (NodeTable.kind?_eq_some.2 ⟨node, hnode, hx⟩)

theorem ofJson?_toJson (h : m.InRange) (hfinite : m.HasFiniteNumbers) : ofJson? m.toJson = some m := by
  have hnodes : idMap? Node.ofJson? (.ofIdMap Node.toJson m.nodes) = some m.nodes := by
    refine idMap?_ofIdMap fun id node hnode => ?_
    obtain ⟨hid, hrange⟩ := h.nodes id node hnode
    exact ⟨hid, Node.ofJson?_toJson hrange (hfinite.isFinite hnode)⟩
  refine bind_eq_some_iff.2 ⟨m.nodes, hnodes, ?_⟩
  refine bind_eq_some_iff.2 ⟨m.body, ids?_ofList h.body_lt, ?_⟩
  exact bind_eq_some_iff.2 ⟨m.metadata, Metadata.ofJson?_toJson h.cfg, rfl⟩

theorem documentProblems_toJson (hkeys : m.nodes.KeysMatch) (h : m.InRange) (hfinite : m.HasFiniteNumbers)
    (hversion : isCompatible m.schemaVersion = true) : documentProblems m.toJson = [] := by
  have htable : tableProblems (some (.ofIdMap Node.toJson m.nodes)) = [] := by
    refine flatMap_eq_nil_iff.2 fun field hfield => ?_
    obtain ⟨entry, hentry, rfl⟩ := mem_map.1 hfield
    have hnode := Std.ExtTreeMap.mem_toList_iff_getElem?_eq_some.1 hentry
    have hproblems := Node.nodeProblems_toJson (h.nodes _ _ hnode).2 (hfinite.isFinite hnode)
    rwa [hkeys _ _ hnode] at hproblems
  have hbody : fieldProblems "body" .ids (some (.ofList .ofNat m.body)) = [] := (holds_ids h.body_lt).fits "body"
  change versionProblems (some (.str m.schemaVersion)) ++ tableProblems (some (.ofIdMap Node.toJson m.nodes)) ++
    fieldProblems "body" .ids (some (.ofList .ofNat m.body)) ++ [] ++ [] = []
  rw [htable, hbody, versionProblems, require_true hversion]
  rfl

/-- **Documents are read back**, and they are valid if and only if their modules are. -/
theorem document_roundTrip (m : Module) (hkeys : m.nodes.KeysMatch) (h : m.InRange) (hfinite : m.HasFiniteNumbers)
    (hversion : isCompatible m.schemaVersion = true) :
    Module.ofJson m.toJson = .ok m ∧ documentProblems m.toJson = [] ∧ validateDocument m.toJson = m.validate := by
  have hread := ofJson?_toJson h hfinite
  have hshape := documentProblems_toJson hkeys h hfinite hversion
  refine ⟨?_, hshape, ?_⟩
  · rw [Module.ofJson, hread]
    exact if_pos hversion
  · rw [validateDocument, hshape, hread]
    rfl

/-- The number of `0.5;`, with a place and a type. -/
def half : Node where
  id := 1
  kind := .number 0.5
  span := some ⟨⟨1, 14, 13⟩, ⟨1, 17, 16⟩, 0⟩
  type := some (.object [("x", .number), ("y", .array (.union [.string, .any]))])

/-- `0.5;` in strict mode, with a graph. -/
def annotated : Module where
  schemaVersion := "1.2.3"
  nodes := .ofList [(1, half), (2, { id := 2, kind := .exprStmt 1, synthetic := true })]
  body := [2]
  metadata :=
    { cfg := .ofList [(2, Flow.Graph.mk 0 [⟨0, [2], []⟩])]
      source := some "half.js"
      directives := ["use strict"] }

theorem half_inRange : half.InRange where
  id_lt := by decide
  kind := forall_mem_nil _
  span := by
    rintro s ⟨⟩
    exact ⟨⟨by decide, by decide, by decide⟩, ⟨by decide, by decide, by decide⟩, by decide⟩
  type := by
    rintro t ⟨⟩
    exact ⟨by decide, trivial, ⟨trivial, trivial, trivial⟩, trivial⟩

theorem annotated_nodes (h : annotated.nodes[id]? = some node) : node.id = id ∧ node.InRange ∧ node.kind.IsFinite := by
  have hmem := IdMap.mem_of_getElem?_ofList h
  simp only [mem_cons, Prod.mk.injEq, not_mem_nil, or_false] at hmem
  rcases hmem with ⟨rfl, rfl⟩ | ⟨rfl, rfl⟩
  · exact ⟨rfl, half_inRange, by rintro x ⟨⟩; decide⟩
  · refine ⟨rfl, ⟨by decide, forall_mem_singleton.2 (by decide), ?_, ?_⟩, ?_⟩
    all_goals rintro _ ⟨⟩

theorem annotated_inRange : annotated.InRange where
  nodes := fun id node h => by
    obtain ⟨rfl, hrange, -⟩ := annotated_nodes h
    exact ⟨hrange.id_lt, hrange⟩
  body_lt := by decide
  cfg := fun id g h => by
    obtain ⟨rfl, rfl⟩ := Prod.mk.inj (mem_singleton.1 (IdMap.mem_of_getElem?_ofList h))
    exact ⟨by decide, by decide, forall_mem_singleton.2 ⟨by decide, by decide, by decide⟩⟩

theorem annotated_roundTrip : annotated.nodes.KeysMatch ∧ annotated.InRange ∧ annotated.HasFiniteNumbers ∧
    isCompatible annotated.schemaVersion = true ∧ Module.ofJson annotated.toJson = .ok annotated ∧
    documentProblems annotated.toJson = [] ∧ validateDocument annotated.toJson = annotated.validate := by
  have hkeys : annotated.nodes.KeysMatch := fun id node h => (annotated_nodes h).1
  have hfinite : annotated.HasFiniteNumbers := by
    intro id x h
    obtain ⟨node, hnode, hkind⟩ := NodeTable.kind?_eq_some.1 h
    exact (annotated_nodes hnode).2.2 x hkind
  have hversion : isCompatible annotated.schemaVersion = true := by decide +kernel
  exact ⟨hkeys, annotated_inRange, hfinite, hversion,
    document_roundTrip annotated hkeys annotated_inRange hfinite hversion⟩

end Module

end Retarget
