import Retarget.Proofs.Flow.Graph
import Retarget.Proofs.Optimize.Passes

/-!
# Dropped statements are not drawn

The statements that the elimination of dead code drops, and all that is nested in them, are in no block of the graph
of a function. They are drawn, but into blocks that nothing leads to from the entry.

* `Drafted.not_drawn`: what is kept of a draft holds no statements of the sort that its set is free of.
* `dropped_not_drawn`: dropped statements are of such a sort.
-/

namespace Retarget.Flow

open Relation Option DeadCode

variable {P X : NodeId → Prop} {A : Set Nat} {draft : Draft}

theorem Drafted.not_drawn {entry : Nat} (h : Drafted P X A draft) (hentry : entry ∈ A) :
    ∀ block ∈ (finish entry draft).blocks, ∀ s ∈ block.statements, ¬X s := by
  intro block hb s hs
  obtain ⟨i, old, number, hi, -, hold, rfl⟩ := h.fits.exists_kept hb
  refine ((h.block i old hold).statement s hs).2 ?_
  -- The blocks of the set lead to each other only.
  have hpath := mem_keptBlocks.1 hi
  clear hi hold hb
  induction hpath with
  | refl => exact hentry
  | tail _ hedge ih =>
    obtain ⟨block, hblock, hj⟩ := h.fits.edge_iff.1 hedge
    exact ((h.block _ block hblock).successor _ hj).2 ih

/-! ## Dropped statements -/

/-- The elimination of dead code drops the statement `x` from the list of the node `p`. -/
def Drops (b : Builder) (p x : NodeId) : Prop :=
  ∃ kind list live, b.kind? p = some kind ∧ statementList? kind = some list ∧
    liveStatements? b list = some live ∧ x ∈ list ∧ x ∉ live

variable {list : List NodeId} {x : NodeId} {b : Builder}

theorem late_of_splitAfter? {test : NodeId → Bool} {front tail : List NodeId}
    (h : splitAfter? test list = some (front, tail)) (hx : x ∈ tail) :
    Late (fun t => test t = true) list x := by
  induction list generalizing front with
  | nil => cases h
  | cons head more ih =>
    rw [splitAfter?] at h
    split at h
    next htest =>
      cases h
      exact .inl ⟨htest, hx⟩
    next =>
      obtain ⟨⟨front', tail'⟩, hmore, heq⟩ := map_eq_some_iff.1 h
      cases heq
      exact .inr (ih hmore)

theorem late_of_liveStatements? {live : List NodeId} (h : liveStatements? b list = some live) (hx : x ∈ list)
    (hdropped : x ∉ live) : Late (IsJump b.nodes) list x := by
  obtain ⟨⟨front, tail⟩, hsplit, h⟩ := bind_eq_some_iff.1 h
  dsimp only at h
  split at h
  next => cases h
  next =>
    cases h
    rw [splitAfter?_eq_some hsplit, List.mem_append] at hx
    have htail : x ∈ tail := hx.resolve_left fun hfront => hdropped (List.mem_append_left _ hfront)
    exact (late_of_splitAfter? hsplit htail).mono fun t => (any_eq_true _ _).1

theorem Drops.owns {p : NodeId} (h : Drops b p x) : Owns b.kind? p x ∧ ¬IsFunction b.kind? p := by
  obtain ⟨kind, list, live, hkind, hlist, -, hx, -⟩ := h
  refine ⟨⟨kind, hkind, ?_⟩, fun hfunction => ?_⟩
  · rw [Kind.children_eq]
    exact (statementList?_sublist hlist).subset hx
  · obtain ⟨kind', hkind', hfunction⟩ := hfunction
    cases hkind.symm.trans hkind'
    cases kind <;> cases hlist
    all_goals cases hfunction

section Dropped

variable {m : Module} {p f x y : NodeId}

/-- `x` is dropped, or it is inside of a statement that is, with no function between them. -/
def InDropped (b : Builder) (y : NodeId) : Prop := ∃ p x, Drops b p x ∧ Nested b.kind? x y

theorem InDropped.of_owner (hforest : IsForest b.kind?) (hnodup : ∀ node ∈ b.nodes.values, node.kind.children.Nodup)
    {kind : Kind} (hp : b.kind? p = some kind) (hy : y ∈ kind.childList) (h : InDropped b y) :
    InDropped b p ∨ ∃ list, statementList? kind = some list ∧ list.Nodup ∧ Late (IsJump b.nodes) list y := by
  have howns : Owns b.kind? p y := ⟨kind, hp, kind.children_eq ▸ hy⟩
  obtain ⟨q, x, hdrops, hnested⟩ := h
  obtain rfl | ⟨owner, hinside, howner, -⟩ := ReflTransGen.cases_tail hnested
  · obtain rfl : p = q := hforest.owner_unique howns hdrops.owns.1
    obtain ⟨kind', list, live, hkind', hlist, hlive, hx, hdropped⟩ := hdrops
    cases hp.symm.trans hkind'
    obtain ⟨owner, howner, rfl⟩ := NodeTable.kind?_eq_some.1 hp
    have hchildren := hnodup owner (IdMap.mem_values.2 ⟨_, howner⟩)
    rw [Kind.children_eq] at hchildren
    exact .inr
      ⟨list, hlist, hchildren.sublist (statementList?_sublist hlist), late_of_liveStatements? hlive hx hdropped⟩
  · rw [hforest.owner_unique howns howner]
    exact .inl ⟨q, x, hdrops, hinside⟩

theorem InDropped.not_of_function (hforest : IsForest b.kind?) (hf : IsFunction b.kind? f) (howns : Owns b.kind? f y) :
    ¬InDropped b y := by
  rintro ⟨q, x, hdrops, hnested⟩
  obtain rfl | ⟨owner, -, howner, hno⟩ := ReflTransGen.cases_tail hnested
  · rw [hforest.owner_unique howns hdrops.owns.1] at hf
    exact hdrops.owns.2 hf
  · rw [hforest.owner_unique howns howner] at hf
    exact hno hf

/-- **Dropped statements are not drawn.** In a valid module in which no node lists a child twice, what the elimination
of dead code drops from a list of statements, and what is nested in that, is in no block of the graph of any function:
neither in that of the function around the list nor in another. -/
theorem dropped_not_drawn (hvalid : m.isValid = true) (hnodup : ∀ node ∈ m.nodes.values, node.kind.children.Nodup)
    {graph : Graph} (hgraph : functionGraph? m.nodes f = some graph) (hdrops : Drops (.ofModule m) p x)
    (hnested : Nested m.kind? x y) : ∀ block ∈ graph.blocks, y ∉ block.statements := by
  obtain ⟨hsound, -, -⟩ := Module.isValid_iff.1 hvalid
  have hforest : IsForest (Builder.ofModule m).kind? := hsound.forest
  obtain ⟨node, hnode, hgraph⟩ := bind_eq_some_iff.1 hgraph
  obtain ⟨function, hfunction, hgraph⟩ := bind_eq_some_iff.1 hgraph
  cases hgraph
  have hkind : m.kind? f = some node.kind := NodeTable.kind?_eq_some.2 ⟨node, hnode, rfl⟩
  have hbody : ¬InDropped (.ofModule m) function.body :=
    InDropped.not_of_function hforest ⟨_, hkind, by rw [hfunction]; rfl⟩
      ⟨_, hkind, node.kind.children_eq ▸ Kind.body_mem_childList hfunction⟩
  obtain ⟨A, hfirst, hdraft⟩ := drafted_body (fun _ _ => trivial)
    (InDropped.of_owner hforest hnodup) trivial hbody
  intro block hb hy
  exact hdraft.not_drawn hfirst block hb y hy ⟨p, x, hdrops, hnested⟩

/-- The function `f() { while (null) { continue; if (null) { return; } } }`. -/
def stalled : Module :=
  .numbered [.null, .continueStmt, .null, .returnStmt none, .block [4], .ifStmt 3 5 none, .block [2, 6], .whileStmt 1 7,
    .block [8], .functionDecl ⟨some "f", [], none, 9, false⟩] [10]

theorem stalled_dropped : stalled.isValid = true ∧ (∀ node ∈ stalled.nodes.values, node.kind.children.Nodup) ∧
    Drops (.ofModule stalled) 7 6 ∧ Nested stalled.kind? 6 4 ∧
      ∃ graph, functionGraph? stalled.nodes 10 = some graph ∧ ∀ block ∈ graph.blocks, 4 ∉ block.statements := by
  have hvalid : stalled.isValid = true := by decide +kernel
  have hnodup : ∀ node ∈ stalled.nodes.values, node.kind.children.Nodup := by decide +kernel
  have hdrops : Drops (.ofModule stalled) 7 6 :=
    ⟨.block [2, 6], [2, 6], [2], by decide +kernel, rfl, by decide +kernel, by decide, by decide⟩
  have hif : stalled.kind? 6 = some (.ifStmt 3 5 none) := by decide +kernel
  have hblock : stalled.kind? 5 = some (.block [4]) := by decide +kernel
  have hnested : Nested stalled.kind? 6 4 := by
    refine .tail (.single ⟨⟨_, hif, by decide⟩, ?_⟩) ⟨⟨_, hblock, by decide⟩, ?_⟩ <;>
    · rintro ⟨kind, hkind, hfunction⟩
      simp_all [Kind.function?]
  have hgraph : functionGraph? stalled.nodes 10 = some (bodyGraph stalled.nodes 9) := rfl
  exact ⟨hvalid, hnodup, hdrops, hnested, _, hgraph, dropped_not_drawn hvalid hnodup hgraph hdrops hnested⟩

end Dropped

end Retarget.Flow
