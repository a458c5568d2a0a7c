import Retarget.Proofs.Flow.Graph
import Retarget.Proofs.Flow.Path

/-!
# Drawings that cover runs

* `Covers`: a drawing adds paths for all runs of what it draws, from the block where it starts to the block where
  control goes on, or to the targets of jumps. The paths are those of any draft that it grows to, as long as only the
  block where control goes on gets more statements.
* `drawList_covers`, `drawIf_covers`: lists and branches, from what is nested in them.
-/

namespace Retarget.Flow

open Draw List

variable {nodes : NodeTable} {draw : DrawStatement} {frames : List Frame} {d d₁ d₂ d₃ d₄ D : Draft} {b c j : Nat}
  {current last : Option Nat} {id body : NodeId} {trace : List NodeId} {outcome : Outcome}
  {R R' : List NodeId → Outcome → Prop} {result : Option Nat × Draft} {u u' : Unit}

/-- The blocks that can still get statements, after a drawing that started in the block `b` among `k` blocks: the one
where control goes on, and those that are not its own. -/
def unsettled (k b : Nat) (last : Option Nat) : Set Nat := {i | i ∈ last ∨ i < k ∧ i ≠ b}

/-- A drawing that starts in the block `current` has a path for every run of `R`. It draws in that block and in new
ones, and control goes on in one of these. -/
structure Covers (frames : List Frame) (current : Option Nat) (d : Draft) (result : Option Nat × Draft)
    (R : List NodeId → Outcome → Prop) : Prop where
  grown : Grows {i | i ∈ current} d result.2
  fresh : ∀ e ∈ result.1, e < result.2.length ∧ (e ∈ current ∨ d.length ≤ e)
  reaches : ∀ b ∈ current, ∀ D, Grows (unsettled d.length b result.1) result.2 D → ∀ trace outcome, R trace outcome →
    Reaches D frames b (size d b) (result.1.map fun e => (e, size result.2 e)) trace outcome

def Simulates (nodes : NodeTable) (draw : DrawStatement) (id : NodeId) : Prop :=
  ∀ frames b d, b < d.length → Covers frames (some b) d (draw frames b id d) (Recorded nodes (.statement id))

/-! ## Lists -/

namespace Covers

theorem conseq (h : Covers frames current d result R') (hR : ∀ trace outcome, R trace outcome → R' trace outcome) :
    Covers frames current d result R :=
  ⟨h.grown, h.fresh, fun b hb D hD trace outcome hrun => h.reaches b hb D hD trace outcome (hR trace outcome hrun)⟩

theorem step {α : Type} {x : Draw α} {f : α → Draw (Option Nat)}
    (h : ∀ a d₂, x d₁ = (a, d₂) → Covers frames current d (f a d₂) R) : Covers frames current d ((x >>= f) d₁) R :=
  h _ _ rfl

theorem step_if {p : Bool} {x : Draw Unit} {f : Draw (Option Nat)}
    (h : ∀ u d₂, (if p = true then x else pure ()) d₁ = (u, d₂) → Covers frames current d (f d₂) R) :
    Covers frames current d ((if p = true then x >>= fun _ => f else f) d₁) R := by
  cases p with
  | true => exact h _ _ rfl
  | false => exact h _ _ rfl

theorem seq (h : Covers frames (some b) d (last, d₁) R) (h' : Covers frames last d₁ result R') :
    Covers frames (some b) d result fun trace outcome =>
      (∃ t t', trace = t ++ t' ∧ R t .normal ∧ R' t' outcome) ∨ R trace outcome ∧ outcome ≠ .normal := by
  have hle : d.length ≤ d₁.length := h.grown.length_le
  have hlast (e : Nat) (he : e ∈ last) : e ∈ some b ∨ d.length ≤ e := (h.fresh e he).2
  refine ⟨h.grown.trans h'.grown ?_, fun e he => ?_, ?_⟩
  · rintro i hlt (hi | hi)
    · exact hi
    · exact (hlast i hi).resolve_right hlt.not_ge
  · obtain ⟨hlt, hmem | hle'⟩ := h'.fresh e he
    · exact ⟨hlt, hlast e hmem⟩
    · exact ⟨hlt, .inr (hle.trans hle')⟩
  · rintro _ ⟨⟩ D hD trace outcome hrun
    have hfirst := h.reaches b rfl D <| h'.grown.trans hD ?_
    · obtain ⟨t, t', rfl, hrun, hrun'⟩ | ⟨hrun, houtcome⟩ := hrun
      · obtain ⟨p, hp, hgoes⟩ := hfirst t .normal hrun
        obtain ⟨e, he, rfl⟩ := Option.map_eq_some_iff.1 hp
        have hD' : Grows (unsettled d₁.length e result.1) result.2 D := by
          refine hD.mono fun i _ hi => hi.imp_right fun ⟨hlt, hne⟩ => ⟨hlt.trans_le hle, ?_⟩
          rintro rfl
          obtain hmem | hle' := hlast i he
          · exact hne (Option.some.inj hmem).symm
          · omega
        exact (h'.reaches e he D hD' t' outcome hrun').prepend hgoes
      · exact (hfirst trace outcome hrun).of_ne houtcome
    · rintro i hlt (hi | hi | hi)
      · exact .inl hi
      · exact (h'.fresh i hi).2.imp_right fun hle' => absurd hlt hle'.not_gt
      · exact .inr hi

end Covers

theorem drawList_covers {ids : List NodeId} (hdraw : ∀ id ∈ ids, Simulates nodes draw id)
    (hcurrent : ∀ b ∈ current, b < d.length) :
    Covers frames current d (drawList draw frames current ids d) (Recorded nodes (.list ids)) := by
  induction ids generalizing current d with
  | nil =>
    refine ⟨.refl, fun e he => ⟨hcurrent e he, .inl he⟩, fun b hb D _ trace outcome hrun => ?_⟩
    cases hrun
    exact ⟨(b, size d b), by simp [drawList, pure_apply, Option.mem_def.1 hb], .here⟩
  | cons id ids ih =>
    obtain ⟨hid, hids⟩ := forall_mem_cons.1 hdraw
    have hsome (b : Nat) (d : Draft) (hb : b < d.length) :
        Covers frames (some b) d (drawList draw frames (some b) (id :: ids) d)
          (Recorded nodes (.list (id :: ids))) := by
      have hfirst := hid frames b d hb
      have hrest := ih hids fun e he => (hfirst.fresh e he).1
      refine (hfirst.seq hrest).conseq fun trace outcome hrun => ?_
      cases hrun with
      | next h hrest => exact .inl ⟨_, _, rfl, h, hrest⟩
      | leave h houtcome => exact .inr ⟨h, houtcome⟩
    cases current with
    | some b => exact hsome b d (hcurrent b rfl)
    | none =>
      -- After a jump there is a new block, which nothing leads to.
      have hnew : Grows ∅ d (newBlock d).2 := newBlock_grows rfl
      have h := hsome d.length (newBlock d).2 (by simp [newBlock])
      refine ⟨hnew.trans h.grown ?_, fun e he => ⟨(h.fresh e he).1, .inr ?_⟩, by simp⟩
      · rintro i hlt (hi | hi)
        · exact absurd hi (Set.notMem_empty i)
        · cases hi
          exact absurd hlt (lt_irrefl _)
      · obtain hmem | hle := (h.fresh e he).2
        · cases hmem
          exact le_rfl
        · exact hnew.length_le.trans hle

/-! ## Branches -/

/-- A statement drawn into the block `c`, from which control goes on to the block `j`. -/
theorem Simulates.onward (hbody : Simulates nodes draw body) (hc : c < d.length)
    (hdraw : draw frames c body d = (last, d₁)) (hedge : edgeFrom last j d₁ = (u, d₂)) :
    Grows {c} d d₂ ∧ ∀ {D touched}, Grows touched d₂ D → (∀ i ∈ touched, i < d.length ∧ i ≠ c) → ∀ trace outcome,
      Recorded nodes (.statement body) trace outcome → Reaches D frames c (size d c) (some (j, 0)) trace outcome := by
  have hcovers := hbody frames c d hc
  rw [hdraw] at hcovers
  obtain ⟨-, hstatements, hleads⟩ := edgeFrom_eq hedge fun e he => (hcovers.fresh e he).1
  have hgrown : Grows ∅ d₁ d₂ := edgeFrom_grows hedge fun e he => (hcovers.fresh e he).1
  refine ⟨(hcovers.grown.later hgrown).mono fun i _ hi => (Option.some.inj hi).symm,
    fun {D touched} hD htouched trace outcome hrun => ?_⟩
  have hD' : Grows touched d₁ D := hgrown.earlier hD
  refine (hcovers.reaches c rfl D (hD'.mono fun i _ hi => .inr (htouched i hi)) trace outcome hrun).onward ?_
  rintro q hq
  obtain ⟨e, he, rfl⟩ := Option.map_eq_some_iff.1 hq
  refine .across (hD'.same e (hcovers.fresh e he).1 fun hmem => ?_) (hD.leads ((hleads e j).2 (.inr ⟨he, rfl⟩)))
  obtain ⟨hlt, hne⟩ := htouched e hmem
  obtain heq | hle := (hcovers.fresh e he).2
  · exact hne (Option.some.inj heq).symm
  · omega

/-- A new block, to which the block `b` leads, with a statement from which control goes on to the block `j`. -/
theorem Simulates.branch (hbody : Simulates nodes draw body) (hb : b < d.length) (h₁ : newBlock d = (c, d₁))
    (h₂ : edge b c d₁ = (u, d₂)) (h₃ : draw frames c body d₂ = (last, d₃)) (h₄ : edgeFrom last j d₃ = (u', d₄)) :
    Grows ∅ d d₄ ∧ ∀ {D touched}, Grows touched d₄ D → (∀ i ∈ touched, i < d.length ∧ i ≠ b) → ∀ trace outcome,
      Recorded nodes (.statement body) trace outcome → Reaches D frames b (size d b) (some (j, 0)) trace outcome := by
  obtain ⟨rfl, hlength₁, hstatements₁, -⟩ := newBlock_eq h₁
  obtain ⟨hlength₂, hstatements₂, hleads₂⟩ := edge_eq h₂ (by omega)
  obtain ⟨hgrown, hreaches⟩ := hbody.onward (by omega) h₃ h₄
  have hbefore : Grows ∅ d d₂ := (newBlock_grows h₁).later (edge_grows h₂ (by omega))
  have hall : Grows ∅ d d₄ := hbefore.fresh hgrown le_rfl
  refine ⟨hall, fun {D touched} hD htouched trace outcome hrun => ?_⟩
  have hleads : Leads D b d.length := hD.leads (hgrown.leads ((hleads₂ b _).2 (.inr ⟨rfl, rfl⟩)))
  have henter : Goes D b (size d b) [] d.length 0 :=
    .across ((hall.earlier hD).same b hb fun hmem => (htouched b hmem).2 rfl) hleads
  have hsize : size d₂ d.length = 0 := by simp [size, hstatements₂, hstatements₁, statements_eq_nil]
  rw [hsize] at hreaches
  refine (hreaches hD (fun i hi => ?_) trace outcome hrun).prepend henter
  have := htouched i hi
  omega

/-- A statement that is recorded in the block `b`, before control goes on to the new block `j` in one way or another. -/
theorem Covers.headed (hb : b < d.length) (h₁ : record b id d = (u, d₁)) (h₂ : newBlock d₁ = (j, d₂))
    (hgrown : Grows ∅ d₂ d₃)
    (hruns : ∀ D, Grows (unsettled d.length b (some j)) d₃ D → ∀ trace outcome, R trace outcome →
      ∃ t, trace = id :: t ∧ Reaches D frames b (size d₂ b) (some (j, 0)) t outcome) :
    Covers frames (some b) d (some j, d₃) R := by
  obtain ⟨hlength₁, hstatements₁, -⟩ := record_eq h₁ hb
  obtain ⟨rfl, hlength₂, hstatements₂, -⟩ := newBlock_eq h₂
  have hle₃ := hgrown.length_le
  have hall : Grows {b} d d₃ := ((record_grows h₁ hb).later (newBlock_grows h₂)).later hgrown
  refine ⟨hall.mono fun i _ hi => congrArg some hi.symm, ?_, ?_⟩
  · rintro _ ⟨⟩
    exact ⟨show d₁.length < d₃.length by omega, .inr hlength₁.ge⟩
  · rintro _ ⟨⟩ D hD trace outcome hrun
    obtain ⟨t, rfl, hreaches⟩ := hruns D hD trace outcome hrun
    have hstatements : statements d₂ b = statements d b ++ [id] := by simp [hstatements₂, hstatements₁]
    have hpast : Goes D b (size d b) [id] b (size d b + 1) := .past (hstatements ▸ (hgrown.held b).trans (hD.held b))
    have hempty : size d₃ d₁.length = 0 := by
      rw [size, hgrown.same _ (by omega) (Set.notMem_empty _), hstatements₂, statements_eq_nil le_rfl]
      rfl
    rw [show size d₂ b = size d b + 1 by simp [size, hstatements]] at hreaches
    simpa [hempty] using hreaches.prepend hpast

theorem drawIf_covers {test consequent : NodeId} {alternate : Option NodeId}
    (hid : nodes.kind? id = some (.ifStmt test consequent alternate)) (hconsequent : Simulates nodes draw consequent)
    (halternate : ∀ a ∈ alternate, Simulates nodes draw a) (hb : b < d.length) :
    Covers frames (some b) d (drawIf draw frames b id consequent alternate d) (Recorded nodes (.statement id)) := by
  refine .step fun _ d₁ h₁ => .step fun join d₂ h₂ => .step fun thenBlock d₃ h₃ => .step fun _ d₄ h₄ =>
    .step fun last d₅ h₅ => .step fun _ d₆ h₆ => ?_
  have hlength₁ := (record_eq h₁ hb).1
  obtain ⟨hjoin, hlength₂, -⟩ := newBlock_eq h₂
  obtain ⟨hgrown₆, hthen⟩ := hconsequent.branch (by omega) h₃ h₄ h₅ h₆
  have hle₆ := hgrown₆.length_le
  -- What is not settled is neither the block of the test nor drawn after it.
  have hunsettled (i : Nat) (hi : i ∈ unsettled d.length b (some join)) : i < d₂.length ∧ i ≠ b := by
    obtain hi | hi := hi
    · cases hi
      omega
    · omega
  cases alternate with
  | none =>
    refine .step fun _ d₇ h₇ => ?_
    obtain ⟨-, hstatements₇, hleads₇⟩ := edge_eq h₇ (by omega)
    have hgrown₇ : Grows ∅ d₆ d₇ := edge_grows h₇ (by omega)
    have hall := hgrown₆.later hgrown₇
    refine .headed hb h₁ h₂ hall fun D hD trace outcome hrun => ?_
    obtain ⟨t, rfl, hinner⟩ | ⟨_, _, ⟨⟩, -⟩ | ⟨-, rfl, rfl⟩ := hrun.byKind hid
    · exact ⟨t, rfl, hthen (hgrown₇.earlier hD) hunsettled t outcome hinner⟩
    · refine ⟨[], rfl, _, rfl, .across ((hall.earlier hD).same b (by omega) fun hmem => (hunsettled b hmem).2 rfl) ?_⟩
      exact hD.leads ((hleads₇ b join).2 (.inr ⟨rfl, rfl⟩))
  | some alternate =>
    refine .step fun elseBlock d₇ h₇ => .step fun _ d₈ h₈ => .step fun last' d₉ h₉ => .step fun _ d₁₀ h₁₀ => ?_
    obtain ⟨hgrown₁₀, helse⟩ := (halternate _ rfl).branch (by omega) h₇ h₈ h₉ h₁₀
    have hsize : size d₆ b = size d₂ b := congrArg length (hgrown₆.same b (by omega) (Set.notMem_empty b))
    refine .headed hb h₁ h₂ (hgrown₆.later hgrown₁₀) fun D hD trace outcome hrun => ?_
    obtain ⟨t, rfl, hinner⟩ | ⟨_, t, ⟨⟩, rfl, hinner⟩ | ⟨hnone, -⟩ := hrun.byKind hid
    · exact ⟨t, rfl, hthen (hgrown₁₀.earlier hD) hunsettled t outcome hinner⟩
    · refine ⟨t, rfl, hsize ▸ helse hD (fun i hi => ?_) t outcome hinner⟩
      have := hunsettled i hi
      omega
    · exact absurd hnone nofun

end Retarget.Flow
