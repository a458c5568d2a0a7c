import Mathlib.Data.List.Perm.Subperm
import Mathlib.Logic.Relation
import Retarget.Module.Basic

/-!
# Tables of nodes

* `IdMap.mem_values` and `IdMap.length_le_size`: the entries of a table are what its ids lead to, and a table
  has room for all its different ids.
* `IdMap.descent`: going down from node to node without end in sight takes at most as many levels as there are nodes.
* `Module.numbered` is the module of a list of kinds whose ids are their places in the list, from one on.
-/

namespace Retarget

open List Relation

variable {α : Type}

theorem IdMap.values_eq (t : IdMap α) : t.values = t.toList.map Prod.snd := by
  obtain ⟨t⟩ := t
  induction t using Std.ExtDTreeMap.inductionOn with
  | mk m =>
    change m.inner.values = (Std.DTreeMap.Internal.Impl.Const.toList m.inner).map Prod.snd
    rw [Std.DTreeMap.Internal.Impl.values_eq_map_snd,
      Std.DTreeMap.Internal.Impl.Const.toList_eq_toListModel_map, List.map_map]
    rfl

variable {a : α} {x y : NodeId} {next : NodeId → List NodeId} {Q : Nat → NodeId → Prop} {t : IdMap α}

theorem IdMap.mem_values : a ∈ t.values ↔ ∃ id : NodeId, t[id]? = some a := by
  rw [IdMap.values_eq, mem_map]
  constructor
  · rintro ⟨⟨id, a⟩, h, rfl⟩
    exact ⟨id, Std.ExtTreeMap.mem_toList_iff_getElem?_eq_some.1 h⟩
  · rintro ⟨id, h⟩
    exact ⟨(id, a), Std.ExtTreeMap.mem_toList_iff_getElem?_eq_some.2 h, rfl⟩

variable {id : NodeId}

theorem IdMap.mem_iff : id ∈ t ↔ ∃ a, t[id]? = some a := by
  rw [Std.ExtTreeMap.mem_iff_isSome_getElem?, Option.isSome_iff_exists]

theorem IdMap.mem_of_getElem?_ofList {l : List (NodeId × α)} (h : (Std.ExtTreeMap.ofList l : IdMap α)[id]? = some a) :
    (id, a) ∈ l := by
  suffices hmany : ∀ t : IdMap α, (t.insertMany l)[id]? = some a → (id, a) ∈ l ∨ t[id]? = some a by
    rw [Std.ExtTreeMap.ofList_eq_insertMany_empty] at h
    exact (hmany ∅ h).resolve_right (by simp)
  clear h
  induction l with
  | nil => intro t h; exact .inr h
  | cons head tail ih =>
    intro t h
    rw [Std.ExtTreeMap.insertMany_cons] at h
    rcases ih _ h with htail | hhead
    · exact .inl (mem_cons_of_mem _ htail)
    · rw [Std.ExtTreeMap.getElem?_insert] at hhead
      split at hhead
      next heq =>
        obtain rfl : head.1 = id := by simpa using heq
        obtain rfl := Option.some.inj hhead
        exact .inl mem_cons_self
      next => exact .inr hhead

theorem IdMap.length_le_size {ids : List NodeId} (hnodup : ids.Nodup)
    (hmem : ∀ id ∈ ids, id ∈ t) : ids.length ≤ t.size := by
  have hsub : ids ⊆ t.keys := fun id hid => Std.ExtTreeMap.mem_keys.2 (hmem id hid)
  rw [← Std.ExtTreeMap.length_keys]
  exact (subperm_of_subset hnodup hsub).length_le

theorem not_transGen_of_acc {r : NodeId → NodeId → Prop} (h : Acc r x) (hy : ReflTransGen r y x) : ¬TransGen r y y := by
  have hacc : Acc (TransGen r) y := by
    refine acc_transGen_iff.2 ?_
    induction hy using ReflTransGen.head_induction_on with
    | refl => exact h
    | head hy _ ih => exact ih.inv hy
  induction hacc with
  | intro y _ ih => exact fun hself => ih y hself ‹_› hself

section Descent

variable (hnext : ∀ x c, c ∈ next x → x ∈ t) (step : ∀ fuel id, (∀ c ∈ next id, Q fuel c) → Q (fuel + 1) id)
  (h : ∀ x, ReflTransGen (fun c p => c ∈ next p) x id → ¬TransGen (fun c p => c ∈ next p) x x)

include hnext step h

/-- Induction downward with one level of fuel for each id. Without circles the ids `above` are all different, so that
the entries of the table give enough levels. -/
theorem IdMap.descent_of_above (above : List NodeId) (hnodup : above.Nodup) (hmem : ∀ a ∈ above, a ∈ t)
    (habove : ∀ a ∈ above, TransGen (fun c p => c ∈ next p) id a) {fuel : Nat}
    (hfuel : t.size < fuel + above.length) : Q fuel id := by
  induction fuel generalizing id above with
  | zero =>
    have hlength := IdMap.length_le_size hnodup hmem
    omega
  | succ fuel ih =>
    have hnew : id ∉ above := fun hid => h id .refl (habove id hid)
    refine step fuel id fun c hc =>
      ih (fun x hx => h x (hx.tail hc)) (id :: above) (nodup_cons.2 ⟨hnew, hnodup⟩) ?_ ?_ ?_
    · exact forall_mem_cons.2 ⟨hnext id c hc, hmem⟩
    · exact forall_mem_cons.2 ⟨.single hc, fun a ha => .head hc (habove a ha)⟩
    · rw [length_cons]
      omega

/-- **A table has levels enough** for all ways down through its entries. -/
theorem IdMap.descent : Q (t.size + 1) id :=
  descent_of_above hnext step h [] nodup_nil (by simp) (by simp) (by simp)

end Descent

theorem IdSet.mem_insert {t : IdSet} : x ∈ t.insert y ↔ x = y ∨ x ∈ t := by
  rw [Std.ExtTreeSet.mem_insert, Nat.compare_eq_eq, eq_comm]

theorem IdSet.mem_erase {t : IdSet} : x ∈ t.erase y ↔ x ≠ y ∧ x ∈ t := by
  rw [Std.ExtTreeSet.mem_erase, ne_eq, Nat.compare_eq_eq, ne_comm]

theorem NodeTable.kind?_eq_some {nodes : NodeTable} {kind : Kind} :
    nodes.kind? id = some kind ↔ ∃ node, nodes[id]? = some node ∧ node.kind = kind := by
  rw [NodeTable.kind?, Option.map_eq_some_iff]

/-- The module with the given kinds, numbered from one on, and the given statements at its top level. -/
def Module.numbered (kinds : List Kind) (body : List NodeId) : Module where
  schemaVersion := "1.0.0"
  nodes := .ofList (kinds.mapIdx fun i kind => (i + 1, { id := i + 1, kind : Node }))
  body := body
  metadata := {}

theorem mem_of_kind?_numbered {kinds : List Kind} {body : List NodeId} {kind : Kind}
    (h : (Module.numbered kinds body).nodes.kind? id = some kind) : kind ∈ kinds := by
  obtain ⟨node, hnode, rfl⟩ := NodeTable.kind?_eq_some.1 h
  obtain ⟨i, hi, heq⟩ := List.mem_mapIdx.1 (IdMap.mem_of_getElem?_ofList hnode)
  cases heq
  exact List.getElem_mem hi

end Retarget
