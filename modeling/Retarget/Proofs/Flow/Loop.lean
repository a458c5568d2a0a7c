import Retarget.Proofs.Flow.Cover

/-!
# Loops

The rounds of a loop are paths through its blocks.

* `Loop.Closed`: the blocks lead to each other as the rounds do. `Loop.Closed.reaches`, by induction on the rounds,
  gives the paths from those of the body.
* `drawWhile_covers`, `drawDoWhile_covers`, `drawFor_covers`: the loops of the language.
-/

namespace Retarget.Flow

open Draw List

variable {nodes : NodeTable} {draw : DrawStatement} {frames : List Frame} {d d₁ d₂ d₃ d₄ D : Draft} {b : Nat}
  {last : Option Nat} {id body : NodeId} {tested atTest : Bool} {trace : List NodeId} {outcome : Outcome} {u : Unit}

/-- The blocks of a loop: where it is tested, where the end of a round leads, where control goes on after the loop,
and where its body starts. -/
structure Loop where
  head : Nat
  next : Nat
  exit : Nat
  entry : Nat

namespace Loop

variable {l : Loop}

structure Closed (l : Loop) (id : NodeId) (tested : Bool) (d : Draft) : Prop where
  head : statements d l.head = [id]
  enter : Leads d l.head l.entry
  leave : tested = true → Leads d l.head l.exit
  next : Goes d l.next 0 [] l.head 0

namespace Closed

variable (h : l.Closed id tested D)
include h

theorem test : Goes D l.head 0 [id] l.head (size D l.head) := by
  rw [size, h.head]
  exact .statement (by simp [h.head]) .here

/-- **The rounds of a loop**, when the runs of its body are paths from its entry. -/
theorem reaches (hbody : ∀ t o, Recorded nodes (.statement body) t o →
      Reaches D (.loop l.exit l.next :: frames) l.entry 0 (some (l.next, 0)) t o)
    (hrun : Recorded nodes (.rounds id body tested atTest) trace outcome) :
    Reaches D frames (bif atTest then l.head else l.entry) 0 (some (l.exit, 0)) trace outcome := by
  generalize hcode : Code.rounds id body tested atTest = code at hrun
  -- The loop is fixed, and whether a round starts at the test is not.
  induction hrun generalizing atTest with
  | exit =>
    cases hcode
    exact ⟨_, rfl, h.test.trans (.edge (h.leave rfl) .here)⟩
  | pause =>
    cases hcode
    exact ⟨l.head, h.test⟩
  | enter _ ih =>
    cases hcode
    exact (ih rfl).prepend (h.test.trans (.edge h.enter .here))
  | @again _ _ _ t _ o _ hround houtcome _ _ ih =>
    cases hcode
    have hnext : Goes D l.entry 0 t l.next 0 := by
      have hreaches := hbody t o hround
      cases o with
      | normal =>
        obtain ⟨_, ⟨⟩, hgoes⟩ := hreaches
        exact hgoes
      | continued => exact hreaches
      | broke | stopped => exact nomatch houtcome
    exact (ih rfl).prepend (append_nil t ▸ hnext.trans h.next)
  | @broke _ _ _ t hround _ =>
    cases hcode
    exact ⟨_, rfl, hbody t .broke hround⟩
  | @stop _ _ _ t hround _ =>
    cases hcode
    exact hbody t .stopped hround
  | _ => exact nomatch hcode

end Closed

/-- The blocks of a loop have been made, and the block `b` leads to the first of them. -/
structure Made (l : Loop) (id : NodeId) (atTest : Bool) (b : Nat) (d d' : Draft) : Prop where
  start : Leads d' b (bif atTest then l.head else l.entry)
  fresh : d.length ≤ l.head ∧ d.length ≤ l.next ∧ d.length ≤ l.exit ∧ d.length ≤ l.entry
  lt : l.head < d'.length ∧ l.next < d'.length ∧ l.exit < d'.length ∧ l.entry < d'.length
  ne : l.exit ≠ l.head ∧ l.exit ≠ l.next ∧ l.entry ≠ l.head ∧ l.entry ≠ l.next ∧ l.exit ≠ l.entry
  recorded : ∀ i, statements d' i = if i = l.head then [id] else statements d i
  leads : ∀ {i j}, Leads d i j → Leads d' i j

theorem Made.grown (h : l.Made id atTest b d d₁) : Grows ∅ d d₁ := by
  refine ⟨(h.fresh.1.trans_lt h.lt.1).le, h.leads, fun i => ?_, fun i hi _ => ?_⟩
  · rw [h.recorded]
    split
    next heq => simp [statements_eq_nil (heq ▸ h.fresh.1)]
    next => exact prefix_refl _
  · rw [h.recorded, if_neg (hi.trans_le h.fresh.1).ne]

theorem Made.covers (h : l.Made id atTest b d d₁) (hb : b < d.length) (hbody : Simulates nodes draw body)
    (hdraw : draw (.loop l.exit l.next :: frames) l.entry body d₁ = (last, d₂))
    (hedge : edgeFrom last l.next d₂ = (u, d₃)) (hgrown : Grows ∅ d₃ d₄) (henter : Leads d₄ l.head l.entry)
    (hleave : tested = true → Leads d₄ l.head l.exit) (hnext : l.next ≠ l.head → Leads d₄ l.next l.head) :
    Covers frames (some b) d (some l.exit, d₄) (Recorded nodes (.rounds id body tested atTest)) := by
  obtain ⟨hhead, hnext', hexit, hentry⟩ := h.fresh
  obtain ⟨hltHead, hltNext, hltExit, hltEntry⟩ := h.lt
  obtain ⟨hexitHead, hexitNext, hentryHead, hentryNext, hne⟩ := h.ne
  obtain ⟨hgrown₃, hreaches⟩ := hbody.onward hltEntry hdraw hedge
  have hgrown₄ : Grows {l.entry} d₁ d₄ := hgrown₃.later hgrown
  have hle := hgrown₄.length_le
  have hall : Grows ∅ d d₄ := h.grown.fresh hgrown₄ hentry
  -- What is recorded in the blocks of the loop when the body has been drawn, and what is settled then.
  have hempty {i : Nat} (hi : d.length ≤ i) (hlt : i < d₁.length) (hne : i ≠ l.entry) :
      statements d₄ i = if i = l.head then [id] else [] := by
    rw [hgrown₄.same i hlt hne, h.recorded, statements_eq_nil hi]
  have hunsettled (i : Nat) (hi : i ∈ unsettled d.length b (some l.exit)) : i = l.exit ∨ i < d.length ∧ i ≠ b :=
    hi.imp_left fun h => (Option.some.inj h).symm
  refine ⟨hall.mono fun _ _ => False.elim, ?_, ?_⟩
  · rintro _ ⟨⟩
    exact ⟨hltExit.trans_le hle, .inr hexit⟩
  rintro _ ⟨⟩ D hD trace outcome hrun
  have hsame {i : Nat} (hlt : i < d₄.length) (hi : i ≠ l.exit) (hbefore : i < d.length → i = b) :
      statements D i = statements d₄ i := by
    refine hD.same i hlt fun hmem => ?_
    grind
  have hclosed : l.Closed id tested D := by
    refine ⟨?_, hD.leads henter, fun htested => hD.leads (hleave htested), ?_⟩
    · rw [hsame (by omega) hexitHead.symm (by omega), hempty hhead hltHead hentryHead.symm, if_pos rfl]
    · by_cases heq : l.next = l.head
      · rw [heq]
        exact .here
      · have hgoes := Goes.across (hsame (by omega) hexitNext.symm (by omega)) (hD.leads (hnext heq))
        rwa [size, hempty hnext' hltNext hentryNext.symm, if_neg heq] at hgoes
  have hsize : size d₁ l.entry = 0 := by
    rw [size, h.recorded, if_neg hentryHead, statements_eq_nil hentry, length_nil]
  have hsize' : size d₄ l.exit = 0 := by rw [size, hempty hexit hltExit hne, if_neg hexitHead, length_nil]
  have hround := hreaches (hgrown.earlier hD) (fun i hi => by have := hunsettled i hi; omega)
  rw [hsize] at hround
  have hstart : Goes D b (size d b) [] (bif atTest then l.head else l.entry) 0 := by
    refine .across ?_ (hD.leads (hgrown₄.leads h.start))
    rw [hsame (hb.trans_le hall.length_le) (by omega) fun _ => rfl, hall.same b hb (Set.notMem_empty b)]
  simpa [hsize'] using (hclosed.reaches hround hrun).prepend hstart

end Loop

/-! ## Drawing loops -/

section

variable (hbody : Simulates nodes draw body) (hb : b < d.length)
include hbody hb

theorem drawWhile_covers :
    Covers frames (some b) d (drawWhile draw frames b id body d) (Recorded nodes (.rounds id body true true)) := by
  refine .step fun head d₁ h₁ => .step fun _ d₂ h₂ => .step fun _ d₃ h₃ => .step fun exit d₄ h₄ =>
    .step fun entry d₅ h₅ => .step fun _ d₆ h₆ => .step fun _ d₇ h₇ => .step fun last d₈ h₈ => .step fun _ d₉ h₉ => ?_
  obtain ⟨hhead, hlength₁, hstatements₁, hleads₁⟩ := newBlock_eq h₁
  obtain ⟨hlength₂, hstatements₂, hleads₂⟩ := edge_eq h₂ (by omega)
  obtain ⟨hlength₃, hstatements₃, hleads₃⟩ := record_eq h₃ (by omega)
  obtain ⟨hexit, hlength₄, hstatements₄, hleads₄⟩ := newBlock_eq h₄
  obtain ⟨hentry, hlength₅, hstatements₅, hleads₅⟩ := newBlock_eq h₅
  obtain ⟨hlength₆, hstatements₆, hleads₆⟩ := edge_eq h₆ (by omega)
  obtain ⟨hlength₇, hstatements₇, hleads₇⟩ := edge_eq h₇ (by omega)
  have hleads (i k : Nat) : Leads d₇ i k ↔
      ((Leads d i k ∨ i = b ∧ k = head) ∨ i = head ∧ k = entry) ∨ i = head ∧ k = exit := by
    rw [hleads₇, hleads₆, hleads₅, hleads₄, hleads₃, hleads₂, hleads₁]
  have hmade : Loop.Made ⟨head, head, exit, entry⟩ id true b d d₇ := by
    refine ⟨(hleads _ _).2 (by simp), ?_, ?_, ?_, fun i => ?_, fun hj => (hleads _ _).2 (by simp [hj])⟩
    case refine_4 =>
      rw [hstatements₇, hstatements₆, hstatements₅, hstatements₄, hstatements₃, hstatements₂, hstatements₁,
        statements_eq_nil hhead.ge]
      rfl
    all_goals
      dsimp only
      omega
  have hgrown := (hbody.onward hmade.lt.2.2.2 h₈ h₉).1
  exact hmade.covers hb hbody h₈ h₉ .refl (hgrown.leads ((hleads _ _).2 (by simp)))
    (fun _ => hgrown.leads ((hleads _ _).2 (by simp))) (absurd rfl)

theorem drawDoWhile_covers :
    Covers frames (some b) d (drawDoWhile draw frames b id body d) (Recorded nodes (.rounds id body true false)) := by
  refine .step fun entry d₁ h₁ => .step fun _ d₂ h₂ => .step fun head d₃ h₃ => .step fun _ d₄ h₄ =>
    .step fun exit d₅ h₅ => .step fun last d₆ h₆ => .step fun _ d₇ h₇ => .step fun _ d₈ h₈ => .step fun _ d₉ h₉ => ?_
  obtain ⟨hentry, hlength₁, hstatements₁, hleads₁⟩ := newBlock_eq h₁
  obtain ⟨hlength₂, hstatements₂, hleads₂⟩ := edge_eq h₂ (by omega)
  obtain ⟨hhead, hlength₃, hstatements₃, hleads₃⟩ := newBlock_eq h₃
  obtain ⟨hlength₄, hstatements₄, hleads₄⟩ := record_eq h₄ (by omega)
  obtain ⟨hexit, hlength₅, hstatements₅, hleads₅⟩ := newBlock_eq h₅
  have hleads (i k : Nat) : Leads d₅ i k ↔ Leads d i k ∨ i = b ∧ k = entry := by
    rw [hleads₅, hleads₄, hleads₃, hleads₂, hleads₁]
  have hmade : Loop.Made ⟨head, head, exit, entry⟩ id false b d d₅ := by
    refine ⟨(hleads _ _).2 (by simp), ?_, ?_, ?_, fun i => ?_, fun hj => (hleads _ _).2 (by simp [hj])⟩
    case refine_4 =>
      rw [hstatements₅, hstatements₄, hstatements₃, hstatements₂, hstatements₁, statements_eq_nil (by omega)]
      rfl
    all_goals
      dsimp only
      omega
  have hle := (hbody.onward hmade.lt.2.2.2 h₆ h₇).1.length_le
  obtain ⟨hlength₈, -, hleads₈⟩ := edge_eq h₈ (by omega)
  have hgrown₉ : Grows ∅ d₈ d₉ := edge_grows h₉ (by omega)
  obtain ⟨-, -, hleads₉⟩ := edge_eq h₉ (by omega)
  exact hmade.covers hb hbody h₆ h₇ ((edge_grows h₈ (by omega)).later hgrown₉)
    (hgrown₉.leads ((hleads₈ _ _).2 (by simp))) (fun _ => (hleads₉ _ _).2 (by simp)) (absurd rfl)

theorem drawFor_covers : Covers frames (some b) d (drawFor draw frames b id tested body d)
    (Recorded nodes (.rounds id body tested true)) := by
  refine .step fun head d₁ h₁ => .step fun _ d₂ h₂ => .step fun _ d₃ h₃ => .step fun exit d₄ h₄ =>
    .step fun next d₅ h₅ => .step fun entry d₆ h₆ => .step fun _ d₇ h₇ => .step_if fun _ d₈ h₈ =>
    .step fun last d₉ h₉ => .step fun _ d₁₀ h₁₀ => .step fun _ d₁₁ h₁₁ => ?_
  obtain ⟨hhead, hlength₁, hstatements₁, hleads₁⟩ := newBlock_eq h₁
  obtain ⟨hlength₂, hstatements₂, hleads₂⟩ := edge_eq h₂ (by omega)
  obtain ⟨hlength₃, hstatements₃, hleads₃⟩ := record_eq h₃ (by omega)
  obtain ⟨hexit, hlength₄, hstatements₄, hleads₄⟩ := newBlock_eq h₄
  obtain ⟨hnext, hlength₅, hstatements₅, hleads₅⟩ := newBlock_eq h₅
  obtain ⟨hentry, hlength₆, hstatements₆, hleads₆⟩ := newBlock_eq h₆
  obtain ⟨hlength₇, hstatements₇, hleads₇⟩ := edge_eq h₇ (by omega)
  obtain ⟨hlength₈, hstatements₈, hleads₈⟩ : d₈.length = d₇.length ∧ statements d₈ = statements d₇ ∧
      ∀ i k, Leads d₈ i k ↔ Leads d₇ i k ∨ i = head ∧ k = exit ∧ tested = true := by
    cases tested with
    | true => simpa using edge_eq h₈ (by omega)
    | false =>
      cases h₈
      simp
  have hleads (i k : Nat) : Leads d₈ i k ↔
      ((Leads d i k ∨ i = b ∧ k = head) ∨ i = head ∧ k = entry) ∨ i = head ∧ k = exit ∧ tested = true := by
    rw [hleads₈, hleads₇, hleads₆, hleads₅, hleads₄, hleads₃, hleads₂, hleads₁]
  have hmade : Loop.Made ⟨head, next, exit, entry⟩ id true b d d₈ := by
    refine ⟨(hleads _ _).2 (by simp), ?_, ?_, ?_, fun i => ?_, fun hj => (hleads _ _).2 (by simp [hj])⟩
    case refine_4 =>
      rw [hstatements₈, hstatements₇, hstatements₆, hstatements₅, hstatements₄, hstatements₃, hstatements₂,
        hstatements₁, statements_eq_nil hhead.ge]
      rfl
    all_goals
      dsimp only
      omega
  have hgrown := (hbody.onward hmade.lt.2.2.2 h₉ h₁₀).1
  have hle := hgrown.length_le
  have hgrown₁₁ : Grows ∅ d₁₀ d₁₁ := edge_grows h₁₁ (by omega)
  obtain ⟨-, -, hleads₁₁⟩ := edge_eq h₁₁ (by omega)
  exact hmade.covers hb hbody h₉ h₁₀ hgrown₁₁ (hgrown₁₁.leads (hgrown.leads ((hleads _ _).2 (by simp))))
    (fun htested => hgrown₁₁.leads (hgrown.leads ((hleads _ _).2 (by simp [htested]))))
    fun _ => (hleads₁₁ _ _).2 (by simp)

end

end Retarget.Flow
