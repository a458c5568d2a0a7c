import Mathlib.Data.List.Nodup
import Retarget.Proofs.Flow.Draw
import Retarget.Proofs.Reach

/-!
# Derived control-flow graphs

A finished graph keeps the blocks of a draft that can be reached, under new numbers.

* `Graph.mem_reachable`: what can be reached, as a relation.
* `finish_sound`: the finished graph of a fitting draft has different blocks, all of them reachable, that lead
  to each other and hold statements that exist.
* `Module.flowProblems_of_closed`: the derived graphs of a table whose references lead to its nodes are free of
  problems.
-/

namespace Retarget

open List Option

variable {kind : Kind} {function : NodeId}

theorem Kind.body_mem_childList {f : FunctionNode} (h : kind.function? = some f) : f.body ∈ kind.childList := by
  cases kind <;> simp only [Kind.function?, some.injEq, reduceCtorEq] at h
  all_goals
    subst h
    simp [Kind.childList, Kind.functionChildren]

def NodeTable.Closed (nodes : NodeTable) : Prop :=
  ∀ id kind, nodes.kind? id = some kind → ∀ r ∈ kind.references, r.target ∈ nodes

namespace Flow

open Relation

variable {g : Graph} {i j : Nat}

namespace Graph

def Edge (g : Graph) (i j : Nat) : Prop := j ∈ g.next i

theorem mem_ids_of_next_ne_nil (h : g.next i ≠ []) : i ∈ g.blocks.map (·.id) := by
  rw [next] at h
  split at h
  next block hblock =>
    have hid := find?_some hblock
    rw [beq_iff_eq] at hid
    exact mem_map.2 ⟨block, mem_of_find?_eq_some hblock, hid⟩
  next => exact absurd rfl h

theorem mem_reachable : i ∈ g.reachable ↔ ReflTransGen g.Edge g.entry i := by
  rw [reachable, Reach.mem_within ?_ (Nat.lt_succ_self _)]
  · simp only [mem_singleton, exists_eq_left]
    rfl
  · intro l hnodup hl
    have hsub : l ⊆ g.blocks.map (·.id) := fun y hy => mem_ids_of_next_ne_nil (hl y hy)
    rw [← length_map (fun block : Block => block.id)]
    exact (subperm_of_subset hnodup hsub).length_le

/-- A graph whose blocks are different, can be reached, lead to each other and hold statements that exist. -/
structure Sound (nodes : NodeTable) (g : Graph) : Prop where
  nodup : (g.blocks.map (·.id)).Nodup
  entry_mem : g.entry ∈ g.blocks.map (·.id)
  successor_mem : ∀ block ∈ g.blocks, ∀ s ∈ block.successors, s ∈ g.blocks.map (·.id)
  statement_mem : ∀ block ∈ g.blocks, ∀ s ∈ block.statements, s ∈ nodes
  reachable : ∀ block ∈ g.blocks, ReflTransGen g.Edge g.entry block.id

end Graph

end Flow

namespace Module

open Retarget.Flow

variable {m : Module}

theorem repeatedBlocks_eq_nil {blocks : List Block} {index : Nat} {seen : IdSet} :
    repeatedBlocks function index seen blocks = [] ↔
      (∀ block ∈ blocks, block.id ∉ seen) ∧ (blocks.map (·.id)).Nodup := by
  induction blocks generalizing index seen with
  | nil => simp [repeatedBlocks]
  | cons block rest ih =>
    have hseen : (if block.id ∈ seen then [Problem.repeatedBlock function index block.id] else []) = [] ↔
        block.id ∉ seen := by simp_all
    simp only [repeatedBlocks, append_eq_nil_iff, hseen, ih, forall_mem_cons, map_cons,
      nodup_cons, List.mem_map, not_exists, not_and, Std.ExtTreeSet.mem_insert, Nat.compare_eq_eq,
      not_or]
    constructor
    · rintro ⟨hid, hrest, hnodup⟩
      exact ⟨⟨hid, fun b hb => (hrest b hb).2⟩, fun b hb heq => (hrest b hb).1 heq.symm, hnodup⟩
    · rintro ⟨⟨hid, hrest⟩, hnew, hnodup⟩
      exact ⟨hid, fun b hb => ⟨fun heq => hnew b hb heq.symm, hrest b hb⟩, hnodup⟩

theorem graphProblems_eq_nil (hfunction : IsFunction m.kind? function) (h : g.Sound m.nodes) :
    m.graphProblems function g = [] := by
  have hids : ∀ id, id ∈ (Std.ExtTreeSet.ofList (g.blocks.map (·.id)) : IdSet) ↔ id ∈ g.blocks.map (·.id) :=
    fun id => by rw [Std.ExtTreeSet.mem_ofList, contains_iff_mem]
  obtain ⟨kind, hkind, hfun⟩ := hfunction
  obtain ⟨node, hnode, rfl⟩ := NodeTable.kind?_eq_some.1 hkind
  rw [graphProblems, Module.node?, hnode, if_pos ((hids _).2 h.entry_mem),
    repeatedBlocks_eq_nil.2 ⟨by simp, h.nodup⟩]
  simp only [hfun, if_true, append_nil, nil_append, append_eq_nil_iff, flatten_eq_nil_iff,
    mem_mapIdx]
  refine ⟨?_, ?_⟩
  · rintro _ ⟨index, hi, rfl⟩
    have hmem := getElem_mem hi
    rw [blockProblems, append_eq_nil_iff, filterMap_eq_nil_iff, filterMap_eq_nil_iff]
    exact ⟨fun s hs => if_pos ((hids s).2 (h.successor_mem _ hmem s hs)),
      fun s hs => if_pos (h.statement_mem _ hmem s hs)⟩
  · rintro _ ⟨index, hi, rfl⟩
    exact if_pos (Graph.mem_reachable.2 (h.reachable _ (getElem_mem hi)))

end Module

namespace Flow

open Relation

/-! ## Finishing a draft -/

section Finish

variable {P : NodeId → Prop} {nodes : NodeTable} {draft : Draft} {entry : Nat}

theorem Fits.block? (h : Fits P draft) (i : Nat) : Graph.block? ⟨entry, draft⟩ i = draft[i]? := by
  change draft.find? (·.id == i) = draft[i]?
  cases hi : draft[i]? with
  | none =>
    rw [find?_eq_none]
    intro block hblock
    obtain ⟨j, hj⟩ := getElem?_of_mem hblock
    rw [beq_iff_eq, h.id_eq j block hj]
    rintro rfl
    exact absurd (hi.symm.trans hj) nofun
  | some block =>
    -- The block at place `i` is the only one of that id.
    cases hfind : draft.find? (·.id == i) with
    | none =>
      have := find?_eq_none.1 hfind block (mem_of_getElem? hi)
      exact absurd (h.id_eq i block hi) (by simpa using this)
    | some found =>
      obtain ⟨j, hj⟩ := getElem?_of_mem (mem_of_find?_eq_some hfind)
      have hid := find?_some hfind
      rw [beq_iff_eq, h.id_eq j found hj] at hid
      rw [hid] at hj
      exact hj.symm.trans hi |>.symm ▸ rfl

theorem renumber?_eq_some {kept : List Nat} (hnodup : kept.Nodup) {i j : Nat} :
    renumber? kept i = some j ↔ kept[j]? = some i := by
  rw [renumber?]
  induction kept generalizing j with
  | nil => simp
  | cons head tail ih =>
    rw [idxOf?_cons]
    by_cases hi : head = i
    · subst hi
      simp only [beq_self_eq_true, if_true, some.injEq]
      cases j with
      | zero => simp
      | succ j =>
        refine iff_of_false (by omega) fun hmem => ?_
        exact (nodup_cons.1 hnodup).1 (mem_of_getElem? hmem)
    · rw [if_neg (by simpa using hi)]
      cases j with
      | zero => simp [hi]
      | succ j => simp [ih (nodup_cons.1 hnodup).2]

abbrev keptBlocks (entry : Nat) (draft : Draft) : List Nat := (Graph.reachable ⟨entry, draft⟩).toList

theorem nodup_keptBlocks : (keptBlocks entry draft).Nodup :=
  Std.ExtTreeSet.distinct_toList.imp fun {a b} h heq => h (by rw [heq]; exact Nat.compare_eq_eq.2 rfl)

theorem mem_keptBlocks : i ∈ keptBlocks entry draft ↔ ReflTransGen (Graph.Edge ⟨entry, draft⟩) entry i := by
  rw [Std.ExtTreeSet.mem_toList, Graph.mem_reachable]

theorem Fits.edge_iff (h : Fits P draft) :
    Graph.Edge ⟨entry, draft⟩ i j ↔ ∃ block, draft[i]? = some block ∧ j ∈ block.successors := by
  rw [Graph.Edge, Graph.next, h.block?]
  cases draft[i]? <;> simp

theorem Fits.lt_length (h : Fits P draft) (hentry : entry < draft.length)
    (hi : i ∈ keptBlocks entry draft) : i < draft.length := by
  induction mem_keptBlocks.1 hi with
  | refl => exact hentry
  | tail _ hedge _ =>
    obtain ⟨block, hblock, hj⟩ := h.edge_iff.1 hedge
    exact h.successor_lt block (mem_of_getElem? hblock) _ hj

def renumbered (kept : List Nat) (number : Nat) (block : Block) : Block :=
  ⟨number, block.statements, block.successors.filterMap (renumber? kept)⟩

variable {block : Block}

theorem mem_finish :
    block ∈ (finish entry draft).blocks ↔ ∃ old ∈ draft, ∃ number,
      renumber? (keptBlocks entry draft) old.id = some number ∧
        renumbered (keptBlocks entry draft) number old = block := by
  simp only [finish, mem_filterMap, bind, bind_eq_some_iff, pure, some.injEq]
  rfl

section

variable (h : Fits P draft)
include h

theorem Fits.map_id : draft.map (·.id) = range draft.length := by
  refine ext_getElem (by simp) fun i hi hi' => ?_
  rw [getElem_map, getElem_range]
  exact h.id_eq i _ (getElem?_eq_getElem _)

theorem Fits.map_id_finish : (finish entry draft).blocks.map (·.id) =
    (range draft.length).filterMap (renumber? (keptBlocks entry draft)) := by
  rw [← h.map_id, finish, map_filterMap, filterMap_map]
  refine filterMap_congr fun block _ => ?_
  cases hid : renumber? (keptBlocks entry draft) block.id <;> simp [hid]

theorem Fits.nodup_finish : ((finish entry draft).blocks.map (·.id)).Nodup := by
  rw [h.map_id_finish]
  refine List.Nodup.filterMap (fun a a' b hb hb' => ?_) nodup_range
  rw [mem_def, renumber?_eq_some nodup_keptBlocks] at hb hb'
  exact some.inj (hb.symm.trans hb')

theorem Fits.exists_renumbered (hentry : entry < draft.length)
    (hi : i ∈ keptBlocks entry draft) : ∃ number old, renumber? (keptBlocks entry draft) i = some number ∧
      draft[i]? = some old ∧ renumbered (keptBlocks entry draft) number old ∈ (finish entry draft).blocks := by
  obtain ⟨number, hnumber⟩ := getElem?_of_mem hi
  have hlt := h.lt_length hentry hi
  have hold := getElem?_eq_getElem hlt
  have hrenumber := (renumber?_eq_some nodup_keptBlocks).2 hnumber
  refine ⟨number, draft[i], hrenumber, hold, mem_finish.2 ⟨draft[i], getElem_mem hlt, number, ?_, rfl⟩⟩
  rwa [h.id_eq i _ hold]

theorem Fits.exists_kept (hb : block ∈ (finish entry draft).blocks) :
    ∃ i old number, i ∈ keptBlocks entry draft ∧ renumber? (keptBlocks entry draft) i = some number ∧
      draft[i]? = some old ∧ renumbered (keptBlocks entry draft) number old = block := by
  obtain ⟨old, hold, number, hnumber, rfl⟩ := mem_finish.1 hb
  obtain ⟨i, hi⟩ := getElem?_of_mem hold
  rw [h.id_eq i old hi] at hnumber
  exact ⟨i, old, number, mem_of_getElem? ((renumber?_eq_some nodup_keptBlocks).1 hnumber), hnumber, hi, rfl⟩

end

theorem finish_entry {first : Nat} (h : renumber? (keptBlocks entry draft) entry = some first) :
    (finish entry draft).entry = first := by
  change (renumber? (keptBlocks entry draft) entry).getD 0 = first
  rw [h, getD_some]

theorem Fits.block?_finish (h : Fits P draft) (hentry : entry < draft.length) (hi : i ∈ keptBlocks entry draft)
    {number : Nat} {old : Block} (hnumber : renumber? (keptBlocks entry draft) i = some number)
    (hold : draft[i]? = some old) :
    (finish entry draft).block? number = some (renumbered (keptBlocks entry draft) number old) := by
  obtain ⟨number', old', hnumber', hold', hmem⟩ := h.exists_renumbered hentry hi
  obtain rfl := some.inj (hnumber'.symm.trans hnumber)
  obtain rfl := some.inj (hold'.symm.trans hold)
  cases hfind : (finish entry draft).block? number' with
  | none =>
    rw [Graph.block?, find?_eq_none] at hfind
    exact absurd (beq_self_eq_true number') (hfind _ hmem)
  | some found =>
    -- As the blocks have different ids, the block that is found is the renumbered one.
    have hid := find?_some hfind
    rw [beq_iff_eq] at hid
    rw [inj_on_of_nodup_map h.nodup_finish (mem_of_find?_eq_some hfind) hmem hid]

theorem Fits.edge_finish (h : Fits P draft) (hentry : entry < draft.length)
    (hi : i ∈ keptBlocks entry draft) (hedge : Graph.Edge ⟨entry, draft⟩ i j) {a b : Nat}
    (ha : renumber? (keptBlocks entry draft) i = some a) (hb : renumber? (keptBlocks entry draft) j = some b) :
    (finish entry draft).Edge a b := by
  obtain ⟨block, hblock, hj⟩ := h.edge_iff.1 hedge
  rw [Graph.Edge, Graph.next, h.block?_finish hentry hi ha hblock]
  exact mem_filterMap.2 ⟨j, hj, hb⟩

/-- **A finished graph is sound.** -/
theorem finish_sound (h : Fits (· ∈ nodes) draft) (hentry : entry < draft.length) :
    (finish entry draft).Sound nodes := by
  have hself : entry ∈ keptBlocks entry draft := mem_keptBlocks.2 .refl
  obtain ⟨first, old, hfirst, -, hfirstMem⟩ := h.exists_renumbered hentry hself
  have hentryEq : (finish entry draft).entry = first := finish_entry hfirst
  refine ⟨h.nodup_finish, ?_, fun block hb s hs => ?_, fun block hb s hs => ?_, fun block hb => ?_⟩
  · rw [hentryEq]
    exact mem_map_of_mem hfirstMem
  · obtain ⟨i, old, number, hi, -, hold, rfl⟩ := h.exists_kept hb
    obtain ⟨j, hj, hs⟩ := mem_filterMap.1 hs
    have hkept : j ∈ keptBlocks entry draft :=
      mem_keptBlocks.2 ((mem_keptBlocks.1 hi).tail (h.edge_iff.2 ⟨old, hold, hj⟩))
    obtain ⟨number', old', hnumber', -, hmem⟩ := h.exists_renumbered hentry hkept
    obtain rfl := some.inj (hnumber'.symm.trans hs)
    exact mem_map_of_mem hmem
  · obtain ⟨i, old, number, -, -, hold, rfl⟩ := h.exists_kept hb
    exact h.statement_mem old (mem_of_getElem? hold) s hs
  · obtain ⟨i, old, number, hi, hnumber, -, rfl⟩ := h.exists_kept hb
    change ReflTransGen (finish entry draft).Edge (finish entry draft).entry number
    rw [hentryEq]
    clear hb old
    induction mem_keptBlocks.1 hi generalizing number with
    | refl => rw [some.inj (hfirst.symm.trans hnumber)]
    | @tail a b hpath hedge ih =>
      have ha : a ∈ keptBlocks entry draft := mem_keptBlocks.2 hpath
      obtain ⟨number', -, hnumber', -, -⟩ := h.exists_renumbered hentry ha
      exact (ih number' ha hnumber').tail (h.edge_finish hentry ha hedge hnumber' hnumber)

end Finish

/-! ## All functions of a table -/

variable {nodes : NodeTable} {body id : NodeId}

theorem fits_body {P : NodeId → Prop}
    (hchild : ∀ {id c : NodeId} {kind : Kind}, nodes.kind? id = some kind → c ∈ kind.childList → P c) (hbody : P body) :
    Fits P (drawStatement nodes (nodes.size + 1) [] (Draw.newBlock []).1 body (Draw.newBlock []).2).2 ∧
      (Draw.newBlock []).1 <
        (drawStatement nodes (nodes.size + 1) [] (Draw.newBlock []).1 body (Draw.newBlock []).2).2.length := by
  obtain ⟨A, hfirst, hdraft⟩ := drafted_body hchild (fun _ _ => False.elim) hbody id
  exact ⟨hdraft.fits, hdraft.lt 0 hfirst⟩

theorem mem_of_child (hclosed : nodes.Closed) {c : NodeId} (hid : nodes.kind? id = some kind)
    (hc : c ∈ kind.childList) : c ∈ nodes := by
  obtain ⟨r, hr, rfl, -⟩ := Kind.exists_reference_of_mem_children (kind.children_eq ▸ hc)
  exact hclosed id kind hid r hr

theorem bodyGraph_sound (hclosed : nodes.Closed) (hbody : body ∈ nodes) : (bodyGraph nodes body).Sound nodes := by
  obtain ⟨hfits, hentry⟩ := fits_body (mem_of_child hclosed) hbody
  exact finish_sound hfits hentry

theorem functionGraph?_eq_some (hclosed : nodes.Closed) (h : functionGraph? nodes id = some g) :
    IsFunction nodes.kind? id ∧ ∃ body ∈ nodes, g = bodyGraph nodes body := by
  simp only [functionGraph?, bind, bind_eq_some_iff, pure, some.injEq] at h
  obtain ⟨node, hnode, function, hfunction, rfl⟩ := h
  have hkind : nodes.kind? id = some node.kind := NodeTable.kind?_eq_some.2 ⟨node, hnode, rfl⟩
  exact ⟨⟨node.kind, hkind, by rw [hfunction]; rfl⟩, function.body,
    mem_of_child hclosed hkind (Kind.body_mem_childList hfunction), rfl⟩

theorem getElem?_deriveAll (h : (deriveAll nodes)[function]? = some g) : functionGraph? nodes function = some g := by
  have hpair := IdMap.mem_of_getElem?_ofList h
  simp only [mem_filterMap, bind, bind_eq_some_iff, pure, some.injEq,
    Prod.mk.injEq] at hpair
  obtain ⟨node, -, g', hgraph, rfl, rfl⟩ := hpair
  exact hgraph

end Flow

namespace Module

variable {m : Module}

theorem flowProblems_of_closed (hclosed : m.nodes.Closed) (hcfg : m.metadata.cfg = Flow.deriveAll m.nodes) :
    m.flowProblems = [] := by
  rw [flowProblems, flatMap_eq_nil_iff, hcfg]
  rintro ⟨function, g⟩ hmem
  rw [Std.ExtTreeMap.mem_toList_iff_getElem?_eq_some] at hmem
  obtain ⟨hfunction, body, hbody, rfl⟩ := Flow.functionGraph?_eq_some hclosed (Flow.getElem?_deriveAll hmem)
  exact graphProblems_eq_nil hfunction (Flow.bodyGraph_sound hclosed hbody)

/-- **Derived graphs have no problems**, if all references of the table are resolved. -/
theorem flowProblems_eq_nil (hresolved : Resolved m.kind?) (hcfg : m.metadata.cfg = Flow.deriveAll m.nodes) :
    m.flowProblems = [] := by
  refine flowProblems_of_closed (fun id kind hid r hr => ?_) hcfg
  obtain ⟨target, htarget, -⟩ := hresolved id kind hid r hr
  obtain ⟨node, hnode, -⟩ := NodeTable.kind?_eq_some.1 htarget
  exact IdMap.mem_iff.2 ⟨node, hnode⟩

end Module

end Retarget
