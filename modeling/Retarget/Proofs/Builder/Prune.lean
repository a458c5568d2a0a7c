import Mathlib.Data.Set.Card
import Retarget.Builder.Basic
import Retarget.Proofs.Reach
import Retarget.Proofs.Table

/-!
# Pruning

References may lead in circles, since identifiers refer to the declarations around them.

* `Builder.mem_live`: what is live can be reached by references from the top-level statements and the reserved ids.
* `Builder.pruneUnreachable_exact`: pruning drops all other nodes and nothing else, and counts them.
-/

namespace Retarget

open Relation List IdMap Std.ExtTreeMap

theorem IdMap.ncard_ids {α : Type} (t : IdMap α) : {id | id ∈ t}.Finite ∧ {id | id ∈ t}.ncard = t.size := by
  have hids : {id | id ∈ t} = (t.keys.toFinset : Set NodeId) := by
    simp
  rw [hids, Set.ncard_coe_finset, toFinset_card_of_nodup nodup_keys, length_keys]
  exact ⟨Finset.finite_toSet _, rfl⟩

namespace Builder

variable {b b' : Builder} {x y : NodeId}

/-- A reference of the node `x` leads to `y`. -/
def Refers (b : Builder) (x y : NodeId) : Prop := y ∈ b.targets x

theorem refers_iff : b.Refers x y ↔ ∃ node, b.nodes[x]? = some node ∧ ∃ r ∈ node.kind.references, r.target = y := by
  rw [Refers, targets]
  cases b.nodes[x]? <;> simp

/-- **What is live** can be reached from the top-level statements and the reserved ids. -/
theorem mem_live : x ∈ b.live ↔ ∃ r, (r ∈ b.body ∨ r ∈ b.reserved) ∧ ReflTransGen b.Refers r x := by
  rw [live, Reach.mem_within ?_ (Nat.lt_succ_self _)]
  · simp only [mem_append, Std.ExtTreeSet.mem_toList]
    rfl
  · -- Only nodes that are stored lead anywhere.
    intro l hnodup hl
    refine length_le_size hnodup fun y hy => ?_
    have hne := hl y hy
    rw [targets] at hne
    split at hne
    next node hnode => exact mem_iff.2 ⟨node, hnode⟩
    next => exact absurd rfl hne

theorem live_of_refers (hx : x ∈ b.live) (hy : b.Refers x y) : y ∈ b.live := by
  obtain ⟨r, hr, hreach⟩ := mem_live.1 hx
  exact mem_live.2 ⟨r, hr, hreach.tail hy⟩

theorem getElem?_pruneUnreachable {node : Node} :
    b.pruneUnreachable.2.nodes[x]? = some node ↔ b.nodes[x]? = some node ∧ x ∈ b.live := by
  rw [pruneUnreachable]
  simp

theorem mem_pruneUnreachable : x ∈ b.pruneUnreachable.2.nodes ↔ x ∈ b.nodes ∧ x ∈ b.live := by
  simp only [mem_iff, getElem?_pruneUnreachable, exists_and_right]

theorem live_of_live (hbody : b.body ⊆ b'.body) (hreserved : ∀ id ∈ b.reserved, id ∈ b'.reserved)
    (hnodes : ∀ id ∈ b.live, ∀ node, b.nodes[id]? = some node → b'.nodes[id]? = some node) (hx : x ∈ b.live) :
    x ∈ b'.live := by
  obtain ⟨root, hroot, hreach⟩ := mem_live.1 hx
  refine mem_live.2 ⟨root, hroot.imp (hbody ·) (hreserved root), ?_⟩
  induction hreach with
  | refl => exact .refl
  | @tail y z hy hz ih =>
    have hlive : y ∈ b.live := mem_live.2 ⟨root, hroot, hy⟩
    obtain ⟨node, hnode, hr⟩ := refers_iff.1 hz
    exact (ih hlive).tail (refers_iff.2 ⟨node, hnodes y hlive node hnode, hr⟩)

theorem pruneUnreachable_eq_self (h : ∀ id ∈ b.nodes, id ∈ b.live) : b.pruneUnreachable = (0, b) := by
  have hnodes : b.pruneUnreachable.2.nodes = b.nodes := by
    refine ext_getElem? fun id => Option.ext fun node => ?_
    rw [getElem?_pruneUnreachable, and_iff_left_iff_imp]
    exact fun hnode => h id (mem_iff.2 ⟨node, hnode⟩)
  rw [pruneUnreachable] at hnodes ⊢
  dsimp only at hnodes ⊢
  rw [hnodes, Nat.sub_self]

theorem pruneUnreachable_fst : b.pruneUnreachable.1 = {id | id ∈ b.nodes ∧ id ∉ b.live}.ncard := by
  have hdropped : {id | id ∈ b.nodes ∧ id ∉ b.live} = {id | id ∈ b.nodes} \ {id | id ∈ b.pruneUnreachable.2.nodes} := by
    ext id
    simp only [Set.mem_ofPred_eq, Set.mem_sdiff, mem_pruneUnreachable]
    tauto
  have hkept : {id | id ∈ b.pruneUnreachable.2.nodes} ⊆ {id | id ∈ b.nodes} := fun id hid =>
    (mem_pruneUnreachable.1 hid).1
  rw [hdropped, Set.ncard_sdiff hkept (ncard_ids _).1, (ncard_ids _).2, (ncard_ids _).2]
  rfl

/-- **Pruning is exact**: a node is kept if it can be reached from the top-level statements or the reserved ids, and
only then. All else stays as it is, the nodes dropped are counted, and nothing is left to prune. -/
theorem pruneUnreachable_exact (b : Builder) :
    let Reachable id := ∃ root, (root ∈ b.body ∨ root ∈ b.reserved) ∧ ReflTransGen (fun x y => ∃ node,
      b.nodes[x]? = some node ∧ ∃ r ∈ node.kind.references, r.target = y) root id
    (∀ id node, b.pruneUnreachable.2.nodes[id]? = some node ↔ b.nodes[id]? = some node ∧ Reachable id) ∧
      b.pruneUnreachable.2 = { b with nodes := b.pruneUnreachable.2.nodes } ∧
      b.pruneUnreachable.1 = {id | id ∈ b.nodes ∧ ¬Reachable id}.ncard ∧
      b.pruneUnreachable.2.pruneUnreachable = (0, b.pruneUnreachable.2) := by
  intro Reachable
  have hlive (id : NodeId) : Reachable id ↔ id ∈ b.live := by
    rw [mem_live, show b.Refers = _ from funext₂ fun x y => propext refers_iff]
  refine ⟨fun id node => ?_, rfl, ?_, pruneUnreachable_eq_self fun id hid => ?_⟩
  · rw [hlive, getElem?_pruneUnreachable]
  · simp only [hlive]
    exact pruneUnreachable_fst
  · refine live_of_live (b := b) (Subset.refl _) (fun _ h => h) (fun id hid node hnode => ?_)
      (mem_pruneUnreachable.1 hid).2
    exact getElem?_pruneUnreachable.2 ⟨hnode, hid⟩

end Builder

end Retarget
