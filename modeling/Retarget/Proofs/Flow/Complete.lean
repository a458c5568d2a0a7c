import Retarget.Proofs.Flow.Loop
import Retarget.Proofs.Flow.Switch

/-!
# Graphs cover all executions

Every way in which the statements of a function can run is a path of its control-flow graph.

* `drawStatement_simulates`: drawing a statement has a path for every run of it, by induction on its depth.
* `functionGraph?_covers`: the runs of a function are walks through its graph, from its entry on.
-/

namespace Retarget.Flow

open Draw List

variable {nodes : NodeTable} {draw : DrawStatement} {frames : List Frame} {d d₁ : Draft} {b n : Nat} {id : NodeId}
  {trace : List NodeId} {outcome : Outcome} {R : List NodeId → Outcome → Prop}

/-! ## Statements -/

theorem record_covers (hb : b < d.length)
    (hR : ∀ trace outcome, R trace outcome → trace = [id] ∧ outcome = .normal) :
    Covers frames (some b) d ((do record b id; return some b : Draw (Option Nat)) d) R := by
  refine .step fun _ d₁ h₁ => ?_
  obtain ⟨hlength, hstatements, -⟩ := record_eq h₁ hb
  refine ⟨(record_grows h₁ hb).mono fun i _ hi => congrArg some hi.symm, ?_, ?_⟩
  · rintro _ ⟨⟩
    exact ⟨hlength ▸ hb, .inl rfl⟩
  · rintro _ ⟨⟩ D hD trace outcome hrun
    obtain ⟨rfl, rfl⟩ := hR trace outcome hrun
    have hrecorded : statements d₁ b = statements d b ++ [id] := by simp [hstatements]
    refine ⟨_, rfl, ?_⟩
    simpa [size, hrecorded, pure_apply] using Goes.past (hrecorded ▸ hD.held b)

theorem drawJump_covers {target : Option Nat} (hb : b < d.length)
    (hR : ∀ trace outcome, R trace outcome → trace = [id] ∧ (outcome = .stopped ∨
      outcome = .broke ∧ target = Frame.breakTarget? frames ∨
      outcome = .continued ∧ target = Frame.continueTarget? frames)) :
    Covers frames (some b) d (drawJump target b id d) R := by
  refine .step fun _ d₁ h₁ => ?_
  obtain ⟨hlength₁, hstatements₁, -⟩ := record_eq h₁ hb
  -- The block ends with the jump, and there may be a way to the target.
  have hjump (d₂ : Draft) (hgrown : Grows ∅ d₁ d₂) (htarget : ∀ j ∈ target, Leads d₂ b j) :
      Covers frames (some b) d (none, d₂) R := by
    refine ⟨((record_grows h₁ hb).later hgrown).mono fun i _ hi => congrArg some hi.symm, nofun, ?_⟩
    rintro _ ⟨⟩ D hD trace outcome hrun
    have hsettled : statements D b = statements d b ++ [id] := by
      rw [(hgrown.earlier hD).same b (hlength₁ ▸ hb) (by simp [unsettled]), hstatements₁, if_pos rfl]
    have hpast : Goes D b (size d b) [id] b (size D b) := by
      simpa [size, hsettled] using Goes.past (hsettled ▸ prefix_refl _)
    have hleaves : Leaves D b (size d b) target [id] := by
      cases target with
      | none => exact ⟨b, hpast⟩
      | some j => exact hpast.trans (.edge (hD.leads (htarget j rfl)) .here)
    obtain ⟨rfl, rfl | ⟨rfl, rfl⟩ | ⟨rfl, rfl⟩⟩ := hR trace outcome hrun
    · exact ⟨b, hpast⟩
    · exact hleaves
    · exact hleaves
  cases target with
  | none => exact hjump d₁ .refl nofun
  | some j =>
    refine .step fun _ d₂ h₂ => hjump d₂ (edge_grows h₂ (hlength₁ ▸ hb)) ?_
    rintro _ ⟨⟩
    exact ((edge_eq h₂ (hlength₁ ▸ hb)).2.2 b j).2 (.inr ⟨rfl, rfl⟩)

/-- **Drawing a statement** has a path for every run of it, if drawing what is nested in it does. -/
theorem drawStatement_simulates {fuel : Nat} (hbuilt : Built nodes id)
    (hnested : ∀ c ∈ nested nodes id, Simulates nodes (drawStatement nodes fuel) c) :
    Simulates nodes (drawStatement nodes (fuel + 1)) id := by
  intro frames b d hb
  obtain ⟨hid, htry, -⟩ := hbuilt
  rename_i kind
  rw [nested, hid] at hnested
  rw [drawStatement, hid]
  cases kind with
  | block body =>
    refine (drawList_covers hnested ?_).conseq fun trace outcome hrun => hrun.byKind hid
    rintro _ ⟨⟩
    exact hb
  | ifStmt test consequent alternate =>
    obtain ⟨hconsequent, halternate⟩ := forall_mem_cons.1 hnested
    exact drawIf_covers hid hconsequent (by simpa using halternate) hb
  | whileStmt test body =>
    exact (drawWhile_covers (hnested body (by simp)) hb).conseq fun trace outcome hrun => hrun.byKind hid
  | forEach iterate binding iterable body =>
    exact (drawWhile_covers (hnested body (by simp)) hb).conseq fun trace outcome hrun => hrun.byKind hid
  | doWhile body test =>
    exact (drawDoWhile_covers (hnested body (by simp)) hb).conseq fun trace outcome hrun => hrun.byKind hid
  | forStmt init test step body =>
    exact (drawFor_covers (hnested body (by simp)) hb).conseq fun trace outcome hrun => hrun.byKind hid
  | switchStmt discriminant cases =>
    refine drawSwitch_covers hid (fun c hc s hs => hnested s ?_) hb
    exact mem_flatMap.2 ⟨c, hc, hs⟩
  | tryStmt block handler finalizer => exact absurd rfl (htry block handler finalizer)
  | returnStmt argument =>
    refine drawJump_covers hb fun trace outcome hrun => ?_
    obtain ⟨rfl, rfl⟩ := hrun.byKind hid
    exact ⟨rfl, .inl rfl⟩
  | throwStmt argument =>
    refine drawJump_covers hb fun trace outcome hrun => ?_
    obtain ⟨rfl, rfl⟩ := hrun.byKind hid
    exact ⟨rfl, .inl rfl⟩
  | breakStmt =>
    refine drawJump_covers hb fun trace outcome hrun => ?_
    obtain ⟨rfl, rfl⟩ := hrun.byKind hid
    exact ⟨rfl, .inr (.inl ⟨rfl, rfl⟩)⟩
  | continueStmt =>
    refine drawJump_covers hb fun trace outcome hrun => ?_
    obtain ⟨rfl, rfl⟩ := hrun.byKind hid
    exact ⟨rfl, .inr (.inr ⟨rfl, rfl⟩)⟩
  | _ => exact record_covers hb fun trace outcome hrun => hrun.of_plain hid rfl

/-! ## Walks -/

section Walks

variable {P : NodeId → Prop} {entry : Nat} (hfits : Fits P d)

include hfits

theorem Goes.walk {b' n' : Nat} (hb : b < d.length) (h : Goes d b n trace b' n') (hn' : n' = size d b') :
    Graph.Walk ⟨entry, d⟩ b ((statements d b).take n ++ trace) := by
  induction h with
  | here =>
    rw [hn', take_length, append_nil, statements_eq hb]
    exact .last ((hfits.block? _).trans (getElem?_eq_getElem hb))
  | @statement _ n id _ _ _ hid _ ih =>
    have hwalk := ih hb hn'
    rw [take_add_one, hid] at hwalk
    simpa using hwalk
  | @edge _ j _ _ _ hj _ ih =>
    obtain ⟨block, hblock, hj⟩ := hj
    obtain ⟨_, rfl⟩ := List.getElem?_eq_some_iff.1 hblock
    have hwalk := ih (hfits.successor_lt _ (getElem_mem hb) j hj) hn'
    rw [take_length, statements_eq hb]
    exact .step ((hfits.block? _).trans hblock) hj hwalk

theorem walk_finish {i number : Nat} (hentry : entry < d.length) (hi : i ∈ keptBlocks entry d)
    (hnumber : renumber? (keptBlocks entry d) i = some number) (h : Graph.Walk ⟨entry, d⟩ i trace) :
    (finish entry d).Walk number trace := by
  induction h generalizing number with
  | last h =>
    rw [hfits.block?] at h
    have hlast := Graph.Walk.last (hfits.block?_finish hentry hi hnumber h)
    exact hlast
  | @step i j block _ h hj _ ih =>
    rw [hfits.block?] at h
    have hkept : j ∈ keptBlocks entry d := mem_keptBlocks.2 ((mem_keptBlocks.1 hi).tail (hfits.edge_iff.2 ⟨_, h, hj⟩))
    obtain ⟨next, -, hnext, -⟩ := hfits.exists_renumbered hentry hkept
    have hj' : next ∈ (renumbered (keptBlocks entry d) number block).successors :=
      mem_filterMap.2 ⟨j, hj, hnext⟩
    have hstep := Graph.Walk.step (hfits.block?_finish hentry hi hnumber h) hj' (ih hkept hnext)
    exact hstep

end Walks

theorem Reaches.exists_goes {last : Option Nat}
    (h : Reaches d [] b n (last.map fun e => (e, size d e)) trace outcome) : ∃ i, Goes d b n trace i (size d i) := by
  cases outcome with
  | normal =>
    obtain ⟨p, hp, hgoes⟩ := h
    obtain ⟨e, -, rfl⟩ := Option.map_eq_some_iff.1 hp
    exact ⟨e, hgoes⟩
  | broke | continued | stopped => exact h

variable {body : NodeId}

theorem bodyGraph_walk (hbuilt : Built nodes body) (hrun : Recorded nodes (.statement body) trace outcome) :
    (bodyGraph nodes body).Walk (bodyGraph nodes body).entry trace := by
  obtain ⟨hfits, hentry⟩ := fits_body (fun _ _ => trivial) trivial
  have hsimulates : Simulates nodes (drawStatement nodes (nodes.size + 1)) body :=
    hbuilt.fuel_induction (Q := fun fuel => Simulates nodes (drawStatement nodes fuel))
      fun _ _ => drawStatement_simulates
  have hcovers := hsimulates [] 0 (newBlock []).2 Nat.one_pos
  obtain ⟨b', hgoes⟩ := (hcovers.reaches 0 rfl _ .refl trace outcome hrun).exists_goes
  have hself : 0 ∈ keptBlocks 0 (drawStatement nodes (nodes.size + 1) [] 0 body (newBlock []).2).2 :=
    mem_keptBlocks.2 .refl
  obtain ⟨first, -, hfirst, -⟩ := hfits.exists_renumbered hentry hself
  have hfinish := walk_finish hfits hentry hself hfirst (hgoes.walk hfits hentry rfl)
  rw [← finish_entry hfirst] at hfinish
  exact hfinish

/-- **A control-flow graph covers every execution**, but for the declarations in the heads of `for` loops: if the body
of a function is made of statements other than `try`, then the statements that are visited, for any branches, rounds and
cases that are chosen, are those of the blocks along some path of its graph that starts at its entry, once the
statements in the heads of `for` loops are left out. -/
theorem functionGraph?_covers {function : NodeId} {kind : Kind} {f : FunctionNode}
    (hfunction : nodes.kind? function = some kind) (hf : kind.function? = some f) (hbuilt : Built nodes f.body)
    (hrun : Execution nodes (.statement f.body) trace outcome) :
    ∃ g, functionGraph? nodes function = some g ∧ (∃ shown, Omits nodes trace shown ∧ g.Walk g.entry shown) ∧
      ((∀ id ∈ trace, ¬InHead nodes id) → g.Walk g.entry trace) := by
  obtain ⟨node, hnode, rfl⟩ := NodeTable.kind?_eq_some.1 hfunction
  obtain ⟨shown, hshown, homits⟩ := hrun.recorded
  have hwalk := bodyGraph_walk hbuilt hshown
  refine ⟨bodyGraph nodes f.body, ?_, ⟨shown, homits, hwalk⟩, fun hhead => homits.eq hhead ▸ hwalk⟩
  rw [functionGraph?, hnode]
  simp [hf]

/-- The function `f() { while (null) { switch (null) { case null: continue; default: break; } break; } return; }`. -/
def nestedJumps : Module :=
  .numbered [.null, .null, .null, .continueStmt, .switchCase (some 3) [4], .breakStmt, .switchCase none [6],
    .switchStmt 2 [5, 7], .breakStmt, .block [8, 9], .whileStmt 1 10, .returnStmt none, .block [11, 12],
    .functionDecl ⟨some "f", [], none, 13, false⟩] [14]

theorem nestedJumps_covered :
    ∃ g, functionGraph? nestedJumps.nodes 14 = some g ∧ g.Walk g.entry [11, 8, 4, 11, 8, 6, 9, 12] := by
  have hbuilt : Built nestedJumps.nodes 13 := by
    have hjump (id : NodeId) (kind : Kind) (h : nestedJumps.nodes.kind? id = some kind)
        (htry : ∀ block handler finalizer, kind ≠ .tryStmt block handler finalizer)
        (hnested : nested nestedJumps.nodes id = []) : Built nestedJumps.nodes id :=
      .intro h htry (hnested ▸ forall_mem_nil _)
    have hswitch : Built nestedJumps.nodes 8 := by
      refine .intro rfl nofun (show ∀ c ∈ [4, 6], _ from ?_)
      simpa using ⟨hjump 4 _ rfl nofun rfl, hjump 6 _ rfl nofun rfl⟩
    have hround : Built nestedJumps.nodes 10 := by
      refine .intro rfl nofun (show ∀ c ∈ [8, 9], _ from ?_)
      simpa using ⟨hswitch, hjump 9 _ rfl nofun rfl⟩
    have hloop : Built nestedJumps.nodes 11 := by
      refine .intro rfl nofun (show ∀ c ∈ [10], _ from ?_)
      simpa using hround
    refine .intro rfl nofun (show ∀ c ∈ [11, 12], _ from ?_)
    simpa using ⟨hloop, hjump 12 _ rfl nofun rfl⟩
  have hcases : nestedJumps.nodes.kind? 8 = some (.switchStmt 2 ([] ++ 5 :: [7])) := rfl
  have hdefault : nestedJumps.nodes.kind? 8 = some (.switchStmt 2 ([5] ++ 7 :: [])) := rfl
  have hcontinue : Execution nestedJumps.nodes (.list [4, 6]) [4] .continued := .leave (.continueStmt rfl) nofun
  have hbreak : Execution nestedJumps.nodes (.list [6]) [6] .broke := .leave (.breakStmt rfl) nofun
  have hcontinued : Execution nestedJumps.nodes (.statement 8) [8, 4] .continued := Run.switchStmt hcases hcontinue
  have hbroken : Execution nestedJumps.nodes (.statement 8) [8, 6] .normal := Run.switchStmt hdefault hbreak
  have hfirst : Execution nestedJumps.nodes (.statement 10) [8, 4] .continued := .block rfl (.leave hcontinued nofun)
  have hsecond : Execution nestedJumps.nodes (.statement 10) [8, 6, 9] .broke :=
    .block rfl (.next hbroken (.leave (.breakStmt rfl) nofun))
  have hloop : Execution nestedJumps.nodes (.statement 11) [11, 8, 4, 11, 8, 6, 9] .normal :=
    .whileStmt rfl (.enter (.again hfirst rfl (.enter (.broke hsecond))))
  have hrun : Execution nestedJumps.nodes (.statement 13) [11, 8, 4, 11, 8, 6, 9, 12] .stopped :=
    .block rfl (.next hloop (.leave (.returnStmt rfl) nofun))
  have hfunction : nestedJumps.nodes.kind? 14 = some (.functionDecl ⟨some "f", [], none, 13, false⟩) := rfl
  obtain ⟨g, hg, -, hwalk⟩ := functionGraph?_covers hfunction rfl hbuilt hrun
  refine ⟨g, hg, hwalk ?_⟩
  rintro id - ⟨loop, test, step, body, hloop⟩
  simpa using mem_of_kind?_numbered hloop

theorem Graph.Walk.exists_block {g : Graph} {i : Nat} (h : g.Walk i trace) (hid : id ∈ trace) :
    ∃ block ∈ g.blocks, id ∈ block.statements := by
  induction h with
  | last h => exact ⟨_, mem_of_find?_eq_some h, hid⟩
  | step h _ _ ih => exact (mem_append.1 hid).elim (fun hid => ⟨_, mem_of_find?_eq_some h, hid⟩) ih

/-- The function `f() { for (let i = 0; i < 1; i++) {} }`. -/
def countedLoop : Module :=
  .numbered [.number 0.0, .declarator "i" (some 1), .variableDecl .letKind [2], .identifier "i" (some 2), .number 1.0,
    .binary .lt 4 5, .identifier "i" (some 2), .update .increment false 7, .block [],
    .forStmt (some 3) (some 6) (some 8) 9, .block [10], .functionDecl ⟨some "f", [], none, 11, false⟩] [12]

/-- The declaration in the head of the loop is in no block. -/
theorem countedLoop_uncovered : Execution countedLoop.nodes (.statement 11) [3, 10] .normal ∧
    ∃ g, functionGraph? countedLoop.nodes 12 = some g ∧ ¬g.Walk g.entry [3, 10] := by
  have hgraph : (functionGraph? countedLoop.nodes 12).any (·.blocks.all (3 ∉ ·.statements)) = true := by decide +kernel
  obtain ⟨g, hg, hblocks⟩ := (Option.any_eq_true _ _).1 hgraph
  refine ⟨?_, g, hg, fun hwalk => ?_⟩
  · have hfor : countedLoop.nodes.kind? 10 = some (.forStmt (some 3) (some 6) (some 8) 9) := rfl
    have hloop : Execution countedLoop.nodes (.statement 10) [3, 10] .normal := Run.forStmt hfor .exit
    exact .block rfl (.next hloop .nil)
  · obtain ⟨block, hblock, hmem⟩ := hwalk.exists_block mem_cons_self
    exact absurd hmem (by simpa using all_eq_true.1 hblocks block hblock)

end Retarget.Flow
