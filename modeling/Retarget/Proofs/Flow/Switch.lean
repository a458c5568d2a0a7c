import Retarget.Proofs.Flow.Cover

/-!
# Switches

The cases of a switch are drawn one after the other, each in a block of its own.

* `Cascades`: from the block of every case there are paths for the runs of its statements and of those of the cases
  after it; so there are from the block that falls through to the first case. `drawCases_cascades` proves it by
  induction on the cases.
* `drawSwitch_covers`: a switch leads to each of its cases, and a break leads to the block after it.
-/

namespace Retarget.Flow

open Draw List

variable {nodes : NodeTable} {draw : DrawStatement} {frames : List Frame} {d d₁ d₂ d₃ D : Draft} {b low n : Nat}
  {fallthrough : Option Nat} {pairs : List (NodeId × Nat)} {id : NodeId} {trace : List NodeId} {outcome : Outcome}

abbrev RunCases (nodes : NodeTable) (pairs : List (NodeId × Nat)) : List NodeId → Outcome → Prop :=
  Recorded nodes (.list ((pairs.map (·.1)).flatMap (caseBody nodes)))

/-- The cases `pairs`, with their blocks, are drawn after the block `b` of a switch. The blocks from `low` on are those
of the cases. -/
structure Cascades (nodes : NodeTable) (frames : List Frame) (b low : Nat) (fallthrough : Option Nat)
    (pairs : List (NodeId × Nat)) (d : Draft) (result : Option Nat × Draft) : Prop where
  grown : Grows {i | i ∈ pairs.map (·.2)} d result.2
  fresh : ∀ e ∈ result.1, e < result.2.length ∧ (e ∈ fallthrough ∨ e ∈ pairs.map (·.2) ∨ d.length ≤ e)
  leads : ∀ p ∈ pairs, Leads result.2 b p.2
  reaches : ∀ D, Grows {i | i ∈ result.1 ∨ i < low} result.2 D →
    (∀ e ∈ fallthrough, ∀ trace outcome, RunCases nodes pairs trace outcome →
      Reaches D frames e (size d e) (result.1.map fun e => (e, size result.2 e)) trace outcome) ∧
    ∀ before p after, pairs = before ++ p :: after → ∀ trace outcome, RunCases nodes (p :: after) trace outcome →
      Reaches D frames p.2 0 (result.1.map fun e => (e, size result.2 e)) trace outcome

structure Awaits (low : Nat) (fallthrough : Option Nat) (pairs : List (NodeId × Nat)) (d : Draft) : Prop where
  nodup : (pairs.map (·.2)).Nodup
  blocks : ∀ i ∈ pairs.map (·.2), low ≤ i ∧ i < d.length ∧ statements d i = []
  falls : ∀ e ∈ fallthrough, low ≤ e ∧ e < d.length ∧ e ∉ pairs.map (·.2)

section Case

variable {c : NodeId} {cb : Nat} {last : Option Nat} {result : Option Nat × Draft}

theorem Awaits.rest (h : Awaits low fallthrough ((c, cb) :: pairs) d) (hlength : d₂.length = d.length)
    (hstatements : statements d₂ = statements d)
    (hcovers : Covers frames (some cb) d₂ (last, d₃) (Recorded nodes (.list (caseBody nodes c)))) :
    Awaits low last pairs d₃ := by
  have hle : d₂.length ≤ d₃.length := hcovers.grown.length_le
  obtain ⟨⟨hcb, hlt, -⟩, hblocks⟩ := forall_mem_cons.1 h.blocks
  obtain ⟨hnot, hnodup⟩ := nodup_cons.1 h.nodup
  refine ⟨hnodup, fun i hi => ?_, fun e he => ?_⟩
  · obtain ⟨hlow, hlt, hempty⟩ := hblocks i hi
    refine ⟨hlow, by omega, ?_⟩
    rw [hcovers.grown.same i (by omega) fun hmem => hnot (Option.some.inj hmem ▸ hi), hstatements, hempty]
  · obtain ⟨hlt', hmem | hfresh⟩ := hcovers.fresh e he
    · cases hmem
      exact ⟨hcb, hlt', hnot⟩
    · refine ⟨by omega, hlt', fun hmem => ?_⟩
      have := (hblocks e hmem).2.1
      omega

/-- What the first case adds to the cases after it. -/
theorem Cascades.cons {u u' : Unit} (hawaits : Awaits low fallthrough ((c, cb) :: pairs) d) (hb : b < low)
    (hlow : low ≤ d.length) (h₁ : edge b cb d = (u, d₁)) (h₂ : edgeFrom fallthrough cb d₁ = (u', d₂))
    (hcovers : Covers frames (some cb) d₂ (last, d₃) (Recorded nodes (.list (caseBody nodes c))))
    (hrest : Cascades nodes frames b low last pairs d₃ result) :
    Cascades nodes frames b low fallthrough ((c, cb) :: pairs) d result := by
  obtain ⟨hfirst, hblocks⟩ := forall_mem_cons.1 hawaits.blocks
  obtain ⟨hcb, hcblt, hempty⟩ : low ≤ cb ∧ cb < d.length ∧ statements d cb = [] := hfirst
  obtain ⟨hnot, -⟩ := nodup_cons.1 hawaits.nodup
  obtain ⟨hlength₁, hstatements₁, hleads₁⟩ := edge_eq h₁ (by omega)
  obtain ⟨hlength₂, hstatements₂, hleads₂⟩ := edgeFrom_eq h₂ fun e he => hlength₁ ▸ (hawaits.falls e he).2.1
  have hle : d₂.length ≤ d₃.length := hcovers.grown.length_le
  have hlast (e : Nat) (he : e ∈ last) : e = cb ∨ d.length ≤ e :=
    (hcovers.fresh e he).2.imp (fun hmem => (Option.some.inj hmem).symm) (by omega)
  have hgrown₂ : Grows ∅ d d₂ :=
    .of_eq (by omega) (hstatements₂.trans hstatements₁) fun hj => (hleads₂ _ _).2 (.inl ((hleads₁ _ _).2 (.inl hj)))
  have hgrown₃ := hgrown₂.earlier hcovers.grown
  have hgrown : Grows {i | i ∈ ((c, cb) :: pairs).map (·.2)} d result.2 := by
    refine hgrown₃.trans hrest.grown ?_
    rintro i - (hi | hi)
    · exact mem_cons.2 (.inl (Option.some.inj hi).symm)
    · exact mem_cons_of_mem _ hi
  have hlead {i : Nat} (hi : i = b ∨ i ∈ fallthrough) : Leads result.2 i cb := by
    refine hrest.grown.leads (hcovers.grown.leads ((hleads₂ i cb).2 ?_))
    obtain rfl | hi := hi
    · exact .inl ((hleads₁ i cb).2 (.inr ⟨rfl, rfl⟩))
    · exact .inr ⟨hi, rfl⟩
  have hfresh (e : Nat) (he : e ∈ result.1) : e ∈ ((c, cb) :: pairs).map (·.2) ∨ d.length ≤ e := by
    obtain hmem | hmem | hle' := (hrest.fresh e he).2
    · exact (hlast e hmem).imp_left fun heq => mem_cons.2 (.inl heq)
    · exact .inl (mem_cons_of_mem _ hmem)
    · exact .inr (by omega)
  refine ⟨hgrown, fun e he => ⟨(hrest.fresh e he).1, .inr (hfresh e he)⟩, ?_, fun D hD => ?_⟩
  · rintro p hp
    obtain rfl | hp := mem_cons.1 hp
    · exact hlead (.inl rfl)
    · exact hrest.leads p hp
  obtain ⟨hfalls, henters⟩ := hrest.reaches D hD
  have hD₃ : Grows (unsettled d₂.length cb last) d₃ D := by
    refine hrest.grown.trans hD ?_
    have hother (i : Nat) (hi : i ∈ pairs.map (·.2)) : i < d₂.length ∧ i ≠ cb := by
      refine ⟨by have := (hblocks i hi).2.1; omega, ?_⟩
      rintro rfl
      exact hnot hi
    rintro i hlt (hi | hi | hi)
    · exact .inr (hother i hi)
    · obtain hmem | hmem | hle' := (hrest.fresh i hi).2
      · exact .inl hmem
      · exact .inr (hother i hmem)
      · omega
    · exact .inr ⟨by omega, by omega⟩
  have hsize : size d₂ cb = 0 := by rw [size, hstatements₂, hstatements₁, hempty, length_nil]
  have hfirst := hcovers.reaches cb rfl D hD₃
  rw [hsize] at hfirst
  have hcase (trace : List NodeId) (outcome : Outcome) (hrun : RunCases nodes ((c, cb) :: pairs) trace outcome) :
      Reaches D frames cb 0 (result.1.map fun e => (e, size result.2 e)) trace outcome := by
    obtain ⟨t, t', rfl, hrun, hrun'⟩ | ⟨hrun, houtcome⟩ := Run.of_append hrun
    · obtain ⟨p, hp, hgoes⟩ := hfirst t .normal hrun
      obtain ⟨e, he, rfl⟩ := Option.map_eq_some_iff.1 hp
      exact (hfalls e he t' outcome hrun').prepend hgoes
    · exact (hfirst trace outcome hrun).of_ne houtcome
  refine ⟨fun e he trace outcome hrun => ?_, fun before p after h => ?_⟩
  · obtain ⟨hlow', hlt, hmem⟩ := hawaits.falls e he
    have hsame : statements D e = statements d e := by
      refine (hgrown.trans hD fun i _ hi => hi).same e hlt ?_
      rintro (hi | hi | hi)
      · exact hmem hi
      · obtain hi | hi := hfresh e hi
        · exact hmem hi
        · omega
      · omega
    exact (hcase trace outcome hrun).prepend (.across hsame (hD.leads (hlead (.inr he))))
  · cases before with
    | nil =>
      cases h
      exact hcase
    | cons q before =>
      cases h
      exact henters before p after rfl

end Case

theorem drawCases_cascades (hawaits : Awaits low fallthrough pairs d) (hb : b < low) (hlow : low ≤ d.length)
    (hdraw : ∀ p ∈ pairs, ∀ id ∈ caseBody nodes p.1, Simulates nodes draw id) :
    Cascades nodes frames b low fallthrough pairs d (drawCases draw nodes frames b fallthrough pairs d) := by
  induction pairs generalizing fallthrough d with
  | nil =>
    refine ⟨.refl, fun e he => ⟨(hawaits.falls e he).2.1, .inl he⟩, nofun,
      fun D _ => ⟨fun e he trace outcome hrun => ?_, ?_⟩⟩
    · cases hrun
      exact ⟨(e, size d e), Option.map_eq_some_iff.2 ⟨e, he, rfl⟩, .here⟩
    · intro before p after h
      exact absurd h (by simp)
  | cons p pairs ih =>
    obtain ⟨c, cb⟩ := p
    obtain ⟨hc, hcs⟩ := forall_mem_cons.1 hdraw
    have hcblt : cb < d.length := (hawaits.blocks cb mem_cons_self).2.1
    obtain ⟨u₁, d₁, h₁⟩ : ∃ u d₁, edge b cb d = (u, d₁) := ⟨_, _, rfl⟩
    obtain ⟨u₂, d₂, h₂⟩ : ∃ u d₂, edgeFrom fallthrough cb d₁ = (u, d₂) := ⟨_, _, rfl⟩
    obtain ⟨last, d₃, h₃⟩ : ∃ last d₃, drawList draw frames (some cb) (caseBody nodes c) d₂ = (last, d₃) :=
      ⟨_, _, rfl⟩
    have heq : drawCases draw nodes frames b fallthrough ((c, cb) :: pairs) d =
        drawCases draw nodes frames b last pairs d₃ := by
      rw [drawCases]
      simp only [bind_apply, h₁, h₂, h₃]
    obtain ⟨hlength₁, hstatements₁, -⟩ := edge_eq h₁ (by omega)
    obtain ⟨hlength₂, hstatements₂, -⟩ := edgeFrom_eq h₂ fun e he => hlength₁ ▸ (hawaits.falls e he).2.1
    have hcovers : Covers frames (some cb) d₂ (last, d₃) (Recorded nodes (.list (caseBody nodes c))) :=
      h₃ ▸ drawList_covers hc (by simp; omega)
    have hle : d₂.length ≤ d₃.length := hcovers.grown.length_le
    rw [heq]
    exact .cons hawaits hb hlow h₁ h₂ hcovers
      (ih (hawaits.rest (by omega) (hstatements₂.trans hstatements₁) hcovers) (by omega) hcs)

/-! ## Drawing a switch -/

theorem mapM_newBlock_eq {ids : List NodeId} {blocks : List Nat} (h : (ids.mapM fun _ => newBlock) d = (blocks, d₁)) :
    blocks = range' d.length ids.length ∧ d₁.length = d.length + ids.length ∧ statements d₁ = statements d ∧
      Leads d₁ = Leads d := by
  induction ids generalizing d blocks with
  | nil =>
    cases h
    simp
  | cons id ids ih =>
    obtain ⟨b, d₂, hnew⟩ : ∃ b d₂, newBlock d = (b, d₂) := ⟨_, _, rfl⟩
    obtain ⟨rest, d₃, hrest⟩ : ∃ rest d₃, (ids.mapM fun _ => newBlock) d₂ = (rest, d₃) := ⟨_, _, rfl⟩
    rw [mapM_cons, bind_apply, bind_apply, hnew, hrest] at h
    cases h
    obtain ⟨rfl, hlength, hstatements, hleads⟩ := newBlock_eq hnew
    obtain ⟨rfl, hlength', hstatements', hleads'⟩ := ih hrest
    refine ⟨?_, ?_, hstatements'.trans hstatements, hleads'.trans hleads⟩
    · rw [hlength, length_cons, range'_succ]
    · rw [length_cons]
      omega

theorem Reaches.leaveSwitch {exit : Nat} {goal : Option (Nat × Nat)}
    (h : Reaches D (.switch exit :: frames) b n goal trace outcome) (hgoal : ∀ q ∈ goal, Goes D q.1 q.2 [] exit 0) :
    Reaches D frames b n (some (exit, 0)) trace outcome.leaveSwitch := by
  have honward := h.onward (p := (exit, 0)) hgoal
  cases outcome with
  | normal | continued | stopped => exact honward
  | broke => exact ⟨_, rfl, honward⟩

theorem drawSwitch_covers {discriminant : NodeId} {cases : List NodeId}
    (hid : nodes.kind? id = some (.switchStmt discriminant cases))
    (hcases : ∀ c ∈ cases, ∀ s ∈ caseBody nodes c, Simulates nodes draw s) (hb : b < d.length) :
    Covers frames (some b) d (drawSwitch draw nodes frames b id cases d) (Recorded nodes (.statement id)) := by
  refine .step fun _ d₁ h₁ => .step fun exit d₂ h₂ => .step fun blocks d₃ h₃ => .step fun last d₄ h₄ =>
    .step fun _ d₅ h₅ => .step_if fun _ d₆ h₆ => ?_
  have hlength₁ := (record_eq h₁ hb).1
  obtain ⟨hexit, hlength₂, -⟩ := newBlock_eq h₂
  obtain ⟨rfl, hlength₃, hstatements₃, hleads₃⟩ := mapM_newBlock_eq h₃
  have hpairs : (cases.zip (range' d₂.length cases.length)).map (·.1) = cases := map_fst_zip (by simp)
  have hblocks : (cases.zip (range' d₂.length cases.length)).map (·.2) = range' d₂.length cases.length :=
    map_snd_zip (by simp)
  have hawaits : Awaits d₂.length none (cases.zip (range' d₂.length cases.length)) d₃ := by
    refine ⟨?_, fun i hi => ?_, nofun⟩
    · rw [hblocks]
      exact nodup_range'
    · rw [hblocks, mem_range'_1] at hi
      exact ⟨hi.1, by omega, hstatements₃ ▸ statements_eq_nil hi.1⟩
  have hcascades : Cascades nodes (.switch exit :: frames) b d₂.length none _ d₃ _ :=
    drawCases_cascades hawaits (by omega) (by omega) fun p hp => hcases p.1 (of_mem_zip hp).1
  rw [h₄] at hcascades
  have hlast (e : Nat) (he : e ∈ last) : d₂.length ≤ e := by
    obtain hmem | hmem | hle := (hcascades.fresh e he).2
    · exact absurd hmem nofun
    · exact (hawaits.blocks e hmem).1
    · omega
  have hle₄ : d₃.length ≤ d₄.length := hcascades.grown.length_le
  obtain ⟨hlength₅, hstatements₅, hleads₅⟩ := edgeFrom_eq h₅ fun e he => (hcascades.fresh e he).1
  obtain ⟨hgrown₆, hskip⟩ : Grows ∅ d₅ d₆ ∧ ((∀ c ∈ cases, (caseParts nodes c).1 = false) → Leads d₆ b exit) := by
    split at h₆
    next =>
      refine ⟨edge_grows h₆ (by omega), fun _ => ?_⟩
      exact ((edge_eq h₆ (by omega)).2.2 b exit).2 (.inr ⟨rfl, rfl⟩)
    next hdefault =>
      cases h₆
      exact ⟨.refl, fun hnone => absurd (by simpa using hnone) hdefault⟩
  have hgrown : Grows ∅ d₂ d₄ := by
    have hnew : Grows ∅ d₂ d₃ := .of_eq (by omega) hstatements₃ fun hj => hleads₃ ▸ hj
    refine (hnew.earlier hcascades.grown).mono fun i hlt hi => ?_
    exact absurd hlt (hawaits.blocks i hi).1.not_gt
  have hafter : Grows ∅ d₄ d₆ := (edgeFrom_grows h₅ fun e he => (hcascades.fresh e he).1).later hgrown₆
  have hall := hgrown.later hafter
  refine .headed hb h₁ h₂ hall fun D hD trace outcome hrun => ?_
  have hunsettled (i : Nat) (hi : i ∈ unsettled d.length b (some exit)) : i < d₂.length ∧ i ≠ b := by
    obtain hi | hi := hi
    · cases hi
      omega
    · omega
  have hsame : statements D b = statements d₂ b :=
    (hall.earlier hD).same b (by omega) fun hmem => (hunsettled b hmem).2 rfl
  obtain ⟨before, c, after, t, o, hsplit, rfl, rfl, hinner⟩ | ⟨hnone, rfl, rfl⟩ := hrun.byKind hid
  · have hD₄ : Grows (unsettled d.length b (some exit)) d₄ D := hafter.earlier hD
    obtain ⟨-, henters⟩ := hcascades.reaches D (hD₄.mono fun i _ hi => .inr (hunsettled i hi).1)
    obtain ⟨before', rest, hzip, -, hrest⟩ := map_eq_append_iff.1 (hpairs.trans hsplit)
    obtain ⟨p, after', rfl, rfl, rfl⟩ := map_eq_cons_iff.1 hrest
    refine ⟨t, rfl, ((henters before' p after' hzip t o hinner).leaveSwitch fun q hq => ?_).prepend (.across hsame ?_)⟩
    · obtain ⟨e, he, rfl⟩ := Option.map_eq_some_iff.1 hq
      refine .across (hD₄.same e (hcascades.fresh e he).1 fun hmem => ?_)
        (hD.leads (hgrown₆.leads ((hleads₅ e exit).2 (.inr ⟨he, rfl⟩))))
      exact absurd (hunsettled e hmem).1 (hlast e he).not_gt
    · exact hD.leads (hafter.leads (hcascades.leads p (by simp [hzip])))
  · exact ⟨[], rfl, _, rfl, .across hsame (hD.leads (hskip hnone))⟩

end Retarget.Flow
