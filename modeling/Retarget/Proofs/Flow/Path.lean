import Mathlib.Data.List.Infix
import Mathlib.Data.Set.Insert
import Retarget.Proofs.Flow.Execution

/-!
# Paths through a draft

A place in a draft is a block with the number of its statements that have run.

* `statements` and `Leads`: what the blocks hold, and where they lead. `newBlock_eq` and its like say what each step of
  a drawing does to both.
* `Grows touched d d'`: nothing is lost, and blocks that existed before get no statements unless they are `touched`.
* `Goes d b n trace b' n'`: from one place to another, visiting the statements of `trace`. Control leaves a block only
  at its end.
* `Reaches`: where a path ends, for each outcome of a run.
-/

namespace Retarget.Flow

open Draw List

def statements (d : Draft) (b : Nat) : List NodeId := (d[b]?.map (·.statements)).getD []

abbrev size (d : Draft) (b : Nat) : Nat := (statements d b).length

/-- The block `b` leads to the block `j`. -/
def Leads (d : Draft) (b j : Nat) : Prop := ∃ block, d[b]? = some block ∧ j ∈ block.successors

inductive Goes (d : Draft) : Nat → Nat → List NodeId → Nat → Nat → Prop
  | here {b n} : Goes d b n [] b n
  | statement {b n id trace b' n'} (hid : (statements d b)[n]? = some id) (hrest : Goes d b (n + 1) trace b' n') :
    Goes d b n (id :: trace) b' n'
  | edge {b j trace b' n'} (hj : Leads d b j) (hrest : Goes d j 0 trace b' n') : Goes d b (size d b) trace b' n'

variable {d d₁ : Draft} {b b' i j n n' : Nat} {id : NodeId} {trace trace' : List NodeId} {last : Option Nat} {u : Unit}

namespace Goes

theorem trans {b'' n'' : Nat} (h : Goes d b n trace b' n') (h' : Goes d b' n' trace' b'' n'') :
    Goes d b n (trace ++ trace') b'' n'' := by
  induction h with
  | here => exact h'
  | statement hid _ ih => exact .statement hid (ih h')
  | edge hj _ ih => exact .edge hj (ih h')

/-- Past the statement `id`, which was recorded at this place. -/
theorem past {held : List NodeId} (h : held ++ [id] <+: statements d b) :
    Goes d b held.length [id] b (held.length + 1) := by
  obtain ⟨more, hmore⟩ := h
  exact .statement (by simp [← hmore]) .here

/-- From the end of a block to one that it leads to. -/
theorem across (hstatements : statements d₁ b = statements d b) (hj : Leads d₁ b j) : Goes d₁ b (size d b) [] j 0 := by
  rw [size, ← hstatements]
  exact .edge hj .here

end Goes

theorem statements_eq_nil (h : d.length ≤ i) : statements d i = [] := by
  rw [statements, getElem?_eq_none h]
  rfl

theorem statements_eq (h : b < d.length) : statements d b = d[b].statements := by
  rw [statements, getElem?_eq_getElem h]
  rfl

/-! ## Growing drafts -/

structure Grows (touched : Set Nat) (d d' : Draft) : Prop where
  length_le : d.length ≤ d'.length
  leads : ∀ {i j}, Leads d i j → Leads d' i j
  held : ∀ i, statements d i <+: statements d' i
  same : ∀ i < d.length, i ∉ touched → statements d' i = statements d i

variable {touched touched' : Set Nat} {d₂ : Draft}

namespace Grows

theorem refl : Grows touched d d := ⟨le_rfl, id, fun _ => prefix_refl _, fun _ _ _ => rfl⟩

/-- Without new statements. -/
theorem of_eq (hlength : d.length ≤ d₁.length) (hstatements : statements d₁ = statements d)
    (hleads : ∀ {i j}, Leads d i j → Leads d₁ i j) : Grows touched d d₁ :=
  ⟨hlength, hleads, fun _ => by rw [hstatements], fun _ _ _ => by rw [hstatements]⟩

theorem mono (h : Grows touched d d₁) (htouched : ∀ i < d.length, i ∈ touched → i ∈ touched') : Grows touched' d d₁ :=
  ⟨h.length_le, h.leads, h.held, fun i hi hnot => h.same i hi fun hmem => hnot (htouched i hi hmem)⟩

theorem trans {touched'' : Set Nat} (h : Grows touched d d₁) (h' : Grows touched' d₁ d₂)
    (htouched : ∀ i < d.length, i ∈ touched ∨ i ∈ touched' → i ∈ touched'') : Grows touched'' d d₂ := by
  refine ⟨h.length_le.trans h'.length_le, fun hj => h'.leads (h.leads hj), fun i => (h.held i).trans (h'.held i),
    fun i hi hnot => ?_⟩
  rw [h'.same i (hi.trans_le h.length_le) fun hmem => hnot (htouched i hi (.inr hmem)),
    h.same i hi fun hmem => hnot (htouched i hi (.inl hmem))]

theorem later (h : Grows touched d d₁) (h' : Grows ∅ d₁ d₂) : Grows touched d d₂ :=
  h.trans h' fun i _ hi => hi.resolve_right (Set.notMem_empty i)

theorem earlier (h : Grows ∅ d d₁) (h' : Grows touched d₁ d₂) : Grows touched d d₂ :=
  h.trans h' fun i _ hi => hi.resolve_left (Set.notMem_empty i)

/-- Only a new block gets statements. -/
theorem fresh (h : Grows ∅ d d₁) (h' : Grows {b} d₁ d₂) (hb : d.length ≤ b) : Grows ∅ d d₂ :=
  (h.earlier h').mono fun _ hlt hi => absurd hlt (hi ▸ hb).not_gt

end Grows

/-! ## The steps of a drawing -/

theorem bind_apply {α β : Type} {x : Draw α} {f : α → Draw β} : (x >>= f) d = f (x d).1 (x d).2 := rfl

theorem pure_apply {α : Type} {a : α} : (pure a : Draw α) d = (a, d) := rfl

theorem newBlock_eq (h : newBlock d = (b, d₁)) : b = d.length ∧ d₁.length = d.length + 1 ∧
    statements d₁ = statements d ∧ Leads d₁ = Leads d := by
  cases h
  refine ⟨rfl, by simp, funext fun i => ?_, funext fun i => funext fun j => ?_⟩
  · rcases lt_trichotomy i d.length with hi | rfl | hi
    · simp [statements, getElem?_append_left hi]
    · simp [statements]
    · simp [statements, getElem?_eq_none hi.le, getElem?_append_right hi.le, Nat.sub_ne_zero_of_lt hi]
  · rcases lt_trichotomy i d.length with hi | rfl | hi
    · simp [Leads, getElem?_append_left hi]
    · simp [Leads]
    · simp [Leads, getElem?_eq_none hi.le, getElem?_append_right hi.le, Nat.sub_ne_zero_of_lt hi]

theorem newBlock_grows (h : newBlock d = (b, d₁)) : Grows touched d d₁ := by
  obtain ⟨-, hlength, hstatements, hleads⟩ := newBlock_eq h
  exact .of_eq (by omega) hstatements fun hj => hleads ▸ hj

theorem record_eq (h : record b id d = (u, d₁)) (hb : b < d.length) : d₁.length = d.length ∧
    (∀ i, statements d₁ i = if i = b then statements d b ++ [id] else statements d i) ∧ Leads d₁ = Leads d := by
  cases h
  refine ⟨length_modify .., fun i => ?_, funext fun i => funext fun j => ?_⟩
  · by_cases hi : b = i
    · subst hi
      simp [statements, hb]
    · simp [statements, hi, Ne.symm hi]
  · by_cases hi : b = i
    · subst hi
      simp [Leads, hb]
    · simp [Leads, hi]

theorem record_grows (h : record b id d = (u, d₁)) (hb : b < d.length) : Grows {b} d d₁ := by
  obtain ⟨hlength, hstatements, hleads⟩ := record_eq h hb
  refine ⟨hlength.ge, fun hj => hleads ▸ hj, fun i => ?_, fun i _ hi => (hstatements i).trans (if_neg hi)⟩
  rw [hstatements]
  split
  next heq => exact heq ▸ prefix_append _ _
  next => exact prefix_refl _

theorem edge_eq (h : edge b j d = (u, d₁)) (hb : b < d.length) : d₁.length = d.length ∧ statements d₁ = statements d ∧
    ∀ i k, Leads d₁ i k ↔ Leads d i k ∨ i = b ∧ k = j := by
  cases h
  refine ⟨length_modify .., funext fun i => ?_, fun i k => ?_⟩
  · by_cases hi : b = i
    · subst hi
      by_cases hj : j ∈ d[b].successors <;> simp [statements, hb, hj]
    · simp [statements, hi]
  · by_cases hi : b = i
    · subst hi
      by_cases hj : j ∈ d[b].successors
      · have hk : k = j → k ∈ d[b].successors := fun heq => heq ▸ hj
        simpa [Leads, hb, hj] using hk
      · simp [Leads, hb, hj]
    · simp [Leads, hi, Ne.symm hi]

theorem edgeFrom_eq (h : edgeFrom last j d = (u, d₁)) (hlast : ∀ e ∈ last, e < d.length) : d₁.length = d.length ∧
    statements d₁ = statements d ∧ ∀ i k, Leads d₁ i k ↔ Leads d i k ∨ i ∈ last ∧ k = j := by
  cases last with
  | none =>
    cases h
    simp
  | some e =>
    obtain ⟨hlength, hstatements, hleads⟩ := edge_eq h (hlast e rfl)
    refine ⟨hlength, hstatements, fun i k => ?_⟩
    rw [hleads, Option.mem_some_iff, eq_comm]

theorem edgeFrom_grows (h : edgeFrom last j d = (u, d₁)) (hlast : ∀ e ∈ last, e < d.length) : Grows touched d d₁ := by
  obtain ⟨hlength, hstatements, hleads⟩ := edgeFrom_eq h hlast
  exact .of_eq hlength.ge hstatements fun hj => (hleads _ _).2 (.inl hj)

theorem edge_grows (h : edge b j d = (u, d₁)) (hb : b < d.length) : Grows touched d d₁ := by
  have h' : edgeFrom (some b) j d = (u, d₁) := h
  exact edgeFrom_grows h' (by simpa using hb)

/-! ## Where runs end -/

/-- A path that visits `trace` ends at the start of the target of a jump or, without a target, at the end of some
block. -/
def Leaves (d : Draft) (b n : Nat) (target : Option Nat) (trace : List NodeId) : Prop :=
  match target with
  | some j => Goes d b n trace j 0
  | none => ∃ i, Goes d b n trace i (size d i)

/-- A path that visits `trace` ends where it should for an outcome: at the goal, if control goes on. -/
def Reaches (d : Draft) (frames : List Frame) (b n : Nat) (goal : Option (Nat × Nat)) (trace : List NodeId) :
    Outcome → Prop
  | .normal => ∃ p ∈ goal, Goes d b n trace p.1 p.2
  | .broke => Leaves d b n (Frame.breakTarget? frames) trace
  | .continued => Leaves d b n (Frame.continueTarget? frames) trace
  | .stopped => Leaves d b n none trace

variable {frames : List Frame} {goal goal' : Option (Nat × Nat)} {target : Option Nat} {outcome : Outcome}

theorem Leaves.prepend (h : Leaves d b' n' target trace') (hgoes : Goes d b n trace b' n') :
    Leaves d b n target (trace ++ trace') := by
  cases target with
  | some j => exact hgoes.trans h
  | none => exact h.imp fun _ => hgoes.trans

namespace Reaches

theorem prepend (h : Reaches d frames b' n' goal trace' outcome) (hgoes : Goes d b n trace b' n') :
    Reaches d frames b n goal (trace ++ trace') outcome := by
  cases outcome with
  | normal => exact h.imp fun _ hp => ⟨hp.1, hgoes.trans hp.2⟩
  | broke | continued => exact Leaves.prepend h hgoes
  | stopped =>
    have hleaves : Leaves d b' n' none trace' := h
    exact hleaves.prepend hgoes

/-- Where control goes on does not matter to a run that ends with a jump. -/
theorem of_ne (h : Reaches d frames b n goal trace outcome) (houtcome : outcome ≠ .normal) :
    Reaches d frames b n goal' trace outcome := by
  cases outcome with
  | normal => exact absurd rfl houtcome
  | broke | continued | stopped => exact h

/-- From the goal, control goes on to another place. -/
theorem onward {p : Nat × Nat} (h : Reaches d frames b n goal trace outcome)
    (hgoal : ∀ q ∈ goal, Goes d q.1 q.2 [] p.1 p.2) : Reaches d frames b n (some p) trace outcome := by
  cases outcome with
  | normal =>
    obtain ⟨q, hq, hgoes⟩ := h
    exact ⟨p, rfl, append_nil trace ▸ hgoes.trans (hgoal q hq)⟩
  | broke | continued | stopped => exact h

end Reaches

end Retarget.Flow
