import Retarget.Proofs.Numeric.Structured
import Retarget.Proofs.Wasm.Evaluation

/-!
# Code that follows a course

Code and a course of the slots do the same: where the course ends, the code ends with the outcome of that end, and where
the code ends, the course does.

* `Follows b scope n ins code X R`: on the operands `ins` and with `n` scratch locals, the code follows the course `R`,
  whose ends show as the outcomes and operands that `X` allows.
* `Follows.andThen`: code after code follows one course after the other.
* `Follows.block`, `Follows.loop`, `Follows.ifElse`: what the blocks around code make of its branches.
-/

namespace Retarget.Wasm

open Numeric List Option

variable {b : Binary} {i : Instr} {code code' : Code} {s s' : State} {o : Outcome} {outer : List Value}
  {l g : List Float}

/-! ## Instructions that change the course of the code -/

theorem runs_append_iff : Runs b (code ++ code') s o s' ↔
    ∃ o₁ s₁, Runs b code s o₁ s₁ ∧ if o₁ = .next then Runs b code' s₁ o s' else o = o₁ ∧ s' = s₁ := by
  induction code generalizing s with
  | nil =>
    refine ⟨fun h => ⟨.next, s, .nil, h⟩, ?_⟩
    rintro ⟨o₁, s₁, hnil, h⟩
    obtain ⟨rfl, rfl⟩ := hnil.unique .nil
    exact h
  | cons i rest ih =>
    rw [cons_append, runs_cons_iff]
    constructor
    · rintro ⟨o₁, s₁, hi, h⟩
      by_cases hnext : o₁ = .next
      · rw [if_pos hnext] at h
        obtain ⟨o₂, s₂, hrest, h⟩ := ih.1 h
        exact ⟨o₂, s₂, runs_cons_iff.2 ⟨o₁, s₁, hi, by rwa [if_pos hnext]⟩, h⟩
      · rw [if_neg hnext] at h
        exact ⟨o₁, s₁, runs_cons_iff.2 ⟨o₁, s₁, hi, by simp [hnext]⟩, by rwa [if_neg hnext]⟩
    · rintro ⟨o₂, s₂, hruns, h⟩
      obtain ⟨o₁, s₁, hi, hrest⟩ := runs_cons_iff.1 hruns
      refine ⟨o₁, s₁, hi, ?_⟩
      by_cases hnext : o₁ = .next
      · rw [if_pos hnext] at hrest ⊢
        exact ih.2 ⟨o₂, s₂, hrest, h⟩
      · rw [if_neg hnext] at hrest ⊢
        obtain ⟨rfl, rfl⟩ := hrest
        rwa [if_neg hnext] at h

theorem runs_singleton_iff : Runs b [i] s o s' ↔ InstrRuns b i s o s' := by
  rw [runs_cons_iff]
  constructor
  · rintro ⟨o₁, s₁, hi, h⟩
    split at h
    next hnext =>
      obtain ⟨rfl, rfl⟩ := h.unique .nil
      rwa [hnext] at hi
    next => rwa [h.1, h.2]
  · intro h
    refine ⟨o, s', h, ?_⟩
    split
    next hnext => exact hnext ▸ .nil
    next => exact ⟨rfl, rfl⟩

/-- The outcome and the operands of code when the block around it is left. -/
def Outcome.pass (stack : List Value) : Outcome → Outcome × List Value
  | .branch 0 => (.next, [])
  | .branch (depth + 1) => (.branch depth, stack)
  | o => (o, stack)

theorem Outcome.leave_zero :
    o.leave 0 outer s = ((o.pass s.stack).1, { s with stack := (o.pass s.stack).2 ++ outer }) := by
  cases o with
  | branch depth => cases depth <;> simp [leave, pass]
  | next | ret => rfl

theorem instrRuns_block_iff : InstrRuns b (.block code) ⟨outer, l, g⟩ o s' ↔
    ∃ o₁ s₁, Runs b code ⟨[], l, g⟩ o₁ s₁ ∧ o = (o₁.pass s₁.stack).1 ∧
      s' = { s₁ with stack := (o₁.pass s₁.stack).2 ++ outer } := by
  simp only [InstrRuns, Runs, Instr.runWith, map_eq_some_iff, Prod.exists, Outcome.leave_zero, Prod.mk.injEq]
  constructor
  · rintro ⟨fuel, o₁, s₁, h, rfl, rfl⟩
    exact ⟨o₁, s₁, ⟨fuel, h⟩, rfl, rfl⟩
  · rintro ⟨o₁, s₁, ⟨fuel, h⟩, rfl, rfl⟩
    exact ⟨fuel, o₁, s₁, h, rfl, rfl⟩

variable {x : Bool} {depth : Nat}

theorem instrRuns_ifElse_iff :
    InstrRuns b (.ifElse false code code') ⟨.truth x :: outer, l, g⟩ o s' ↔
      InstrRuns b (.block (if x then code else code')) ⟨outer, l, g⟩ o s' := by
  cases x <;> exact Iff.rfl

theorem instrRuns_ifThen_iff :
    InstrRuns b (.ifThen code) ⟨.truth x :: outer, l, g⟩ o s' ↔
      InstrRuns b (.block (if x then code else [])) ⟨outer, l, g⟩ o s' := by
  cases x with
  | true => exact Iff.rfl
  | false =>
    rw [instrRuns_block_iff]
    constructor
    · rintro ⟨fuel, h⟩
      cases h
      exact ⟨.next, ⟨[], l, g⟩, .nil, rfl, rfl⟩
    · rintro ⟨o₁, s₁, h, rfl, rfl⟩
      obtain ⟨rfl, rfl⟩ := h.unique .nil
      exact ⟨0, rfl⟩

theorem instrRuns_br_iff : InstrRuns b (.br depth) s o s' ↔ o = .branch depth ∧ s' = s := by
  simp [InstrRuns, Instr.runWith, eq_comm]

theorem instrRuns_ret_iff : InstrRuns b .ret s o s' ↔ o = .ret ∧ s' = s := by
  simp [InstrRuns, Instr.runWith, eq_comm]

theorem instrRuns_brIf_iff : InstrRuns b (.brIf depth) ⟨.truth x :: outer, l, g⟩ o s' ↔
    o = (if x then .branch depth else .next) ∧ s' = ⟨outer, l, g⟩ := by
  cases x <;> simp [InstrRuns, Instr.runWith, Value.truth, eq_comm]

/-- A round of a loop, and then the loop again if the round branches to it. -/
theorem instrRuns_loop_iff : InstrRuns b (.loop code) ⟨outer, l, g⟩ o s' ↔
    ∃ o₁ s₁, Runs b code ⟨[], l, g⟩ o₁ s₁ ∧
      if o₁ = .branch 0 then Runs b [.loop code] { s₁ with stack := outer } o s'
      else o = (o₁.pass s₁.stack).1 ∧ s' = { s₁ with stack := (o₁.pass s₁.stack).2 ++ outer } := by
  constructor
  · rintro ⟨fuel, h⟩
    obtain ⟨⟨o₁, s₁⟩, hround, h⟩ := bind_eq_some_iff.1 h
    refine ⟨o₁, s₁, ⟨fuel, hround⟩, ?_⟩
    split at h
    next hagain =>
      rw [if_pos hagain]
      exact ⟨fuel, h⟩
    next hagain =>
      rw [if_neg hagain]
      rw [Outcome.leave_zero, some.injEq, Prod.mk.injEq] at h
      exact ⟨h.1.symm, h.2.symm⟩
  · rintro ⟨o₁, s₁, ⟨fuel, hround⟩, h⟩
    split at h
    next hagain =>
      obtain ⟨fuel', h⟩ := h
      refine ⟨max fuel fuel', bind_eq_some_iff.2 ⟨(o₁, s₁), exec_mono (Nat.le_max_left ..) hround, ?_⟩⟩
      rw [if_pos hagain]
      exact exec_mono (Nat.le_max_right ..) h
    next hagain =>
      obtain ⟨rfl, rfl⟩ := h
      refine ⟨fuel, bind_eq_some_iff.2 ⟨(o₁, s₁), hround, ?_⟩⟩
      rw [if_neg hagain, Outcome.leave_zero]

/-! ## Code and courses -/

/-- The outcomes and operands that an end can show as. -/
abbrev Shows (α : Type) := α → Outcome → List Value → Prop

/-- The code follows the course `R`, whose ends show as `X` says. -/
def Follows {α : Type} (b : Binary) (scope : NumericScope) (n : Nat) (ins : List Value) (code : Code) (X : Shows α)
    (R : Course α) : Prop :=
  ∀ (σ : Store) (scratch : List Float) (below : List Value), σ.Fits scope → n ≤ scratch.length →
    (∀ a σ', R σ a σ' → σ'.Fits scope ∧ ∃ o outs scratch', X a o outs ∧ scratch'.length = scratch.length ∧
      Runs b code ⟨ins ++ below, σ.locals ++ scratch, σ.globals⟩ o
        ⟨outs ++ below, σ'.locals ++ scratch', σ'.globals⟩) ∧
    ∀ o s', Runs b code ⟨ins ++ below, σ.locals ++ scratch, σ.globals⟩ o s' → ∃ a σ', R σ a σ'

/-- The code has run to its end and left the given operands. -/
def Shows.next {α : Type} (outs : α → List Value) : Shows α := fun a o stack => o = .next ∧ stack = outs a

namespace Follows

variable {α β : Type} {scope : NumericScope} {n k : Nat} {ins : List Value} {X X' : Shows α} {Y : Shows β}
  {R R' : Course α}

theorem mono (h : Follows b scope n ins code X R) (hnk : n ≤ k) (hX : ∀ a o outs, X a o outs → X' a o outs) :
    Follows b scope k ins code X' R := by
  intro σ scratch below hσ hk
  obtain ⟨hsound, hcomplete⟩ := h σ scratch below hσ (Nat.le_trans hnk hk)
  refine ⟨fun a σ' hR => ?_, hcomplete⟩
  obtain ⟨hfits, o, outs, scratch', hshows, hrest⟩ := hsound a σ' hR
  exact ⟨hfits, o, outs, scratch', hX a o outs hshows, hrest⟩

theorem weaken (h : Follows b scope n ins code X R) (hnk : n ≤ k) : Follows b scope k ins code X R :=
  h.mono hnk fun _ _ _ => id

variable {S : α → Course β}

/-- **One course after the other.** The first code either leads away, as its end says, or hands its operands over. -/
theorem andThen {leaves : α → Option β} (outs : α → List Value) (h : Follows b scope n ins code X R)
    (h' : ∀ a, leaves a = none → Follows b scope n (outs a) code' Y (S a))
    (hon : ∀ a o stack, leaves a = none → X a o stack → o = .next ∧ stack = outs a)
    (haway : ∀ a o stack c, leaves a = some c → X a o stack → o ≠ .next ∧ Y c o stack) :
    Follows b scope n ins (code ++ code') Y (R.andThen leaves S) := by
  intro σ scratch below hσ hn
  obtain ⟨hsound, hcomplete⟩ := h σ scratch below hσ hn
  refine ⟨?_, fun o s' hruns => ?_⟩
  · rintro c σ' ⟨a, σ₁, hR, hrest⟩
    obtain ⟨hfits, o, stack, scratch₁, hshows, hlength, hruns⟩ := hsound a σ₁ hR
    split at hrest
    next c' hleaves =>
      obtain ⟨rfl, rfl⟩ := hrest
      obtain ⟨hne, hY⟩ := haway a o stack c hleaves hshows
      exact ⟨hfits, o, stack, scratch₁, hY, hlength, runs_append_iff.2 ⟨o, _, hruns, by simp [hne]⟩⟩
    next hleaves =>
      obtain ⟨rfl, rfl⟩ := hon a o stack hleaves hshows
      obtain ⟨hsound', -⟩ := h' a hleaves σ₁ scratch₁ below hfits (hlength ▸ hn)
      obtain ⟨hfits', o', stack', scratch', hY, hlength', hruns'⟩ := hsound' c σ' hrest
      exact ⟨hfits', o', stack', scratch', hY, hlength'.trans hlength, hruns.append hruns'⟩
  · obtain ⟨o₁, s₁, hfirst, hrest⟩ := runs_append_iff.1 hruns
    obtain ⟨a, σ₁, hR⟩ := hcomplete o₁ s₁ hfirst
    cases hleaves : leaves a with
    | some c => exact ⟨c, σ₁, a, σ₁, hR, by simp [hleaves]⟩
    | none =>
      obtain ⟨hfits, o₂, stack, scratch₁, hshows, hlength, hruns₂⟩ := hsound a σ₁ hR
      obtain ⟨rfl, rfl⟩ := hon a o₂ stack hleaves hshows
      obtain ⟨rfl, rfl⟩ := hfirst.unique hruns₂
      obtain ⟨c, σ', hS⟩ := (h' a hleaves σ₁ scratch₁ below hfits (hlength ▸ hn)).2 o s' hrest
      exact ⟨c, σ', a, σ₁, hR, by simpa [hleaves] using hS⟩

/-- One course after the other, where the first never leads away. -/
theorem bind {outs : α → List Value} (h : Follows b scope n ins code (.next outs) R)
    (h' : ∀ a, Follows b scope n (outs a) code' Y (S a)) :
    Follows b scope n ins (code ++ code') Y (R.andThen goesOn S) :=
  h.andThen outs (fun a _ => h' a) (fun _ _ _ _ => id) fun _ _ _ _ h => by cases h

theorem of_finish {a : α} {outs : List Value} (hX : X a o outs)
    (h : ∀ below l g, Runs b code ⟨ins ++ below, l, g⟩ o ⟨outs ++ below, l, g⟩) :
    Follows b scope n ins code X (.finish a) := by
  intro σ scratch below hσ hn
  refine ⟨?_, fun _ _ _ => ⟨a, σ, rfl, rfl⟩⟩
  rintro _ _ ⟨rfl, rfl⟩
  exact ⟨hσ, o, outs, scratch, hX, rfl, h below _ _⟩

theorem of_turns (m : Nat) (h : ∀ σ : Store, σ.Fits scope → ∃ a σ' outs, (∀ a' σ'', R σ a' σ'' ↔ a' = a ∧ σ'' = σ') ∧
    X a .next outs ∧ σ'.Fits scope ∧ Turns m n code ins σ outs σ') : Follows b scope n ins code X R := by
  intro σ scratch below hσ hn
  obtain ⟨a, σ', outs, hR, hX, hfits, -, hturns⟩ := h σ hσ
  refine ⟨fun a' σ'' hR' => ?_, fun _ _ _ => ⟨a, σ', (hR a σ').2 ⟨rfl, rfl⟩⟩⟩
  obtain ⟨rfl, rfl⟩ := (hR a' σ'').1 hR'
  obtain ⟨scratch', hlength, -, hruns⟩ := hturns b scratch below hn
  exact ⟨hfits, .next, outs, scratch', hX, hlength, hruns⟩

/-- A branch out of a block takes one block less outside. -/
theorem block (h : Follows b scope n [] code X R)
    (hX : ∀ a o stack, X a o stack → X' a (o.pass stack).1 (o.pass stack).2) :
    Follows b scope n [] [.block code] X' R := by
  intro σ scratch below hσ hn
  obtain ⟨hsound, hcomplete⟩ := h σ scratch [] hσ hn
  refine ⟨fun a σ' hR => ?_, fun o s' hruns => ?_⟩
  · obtain ⟨hfits, o, stack, scratch', hshows, hlength, hruns⟩ := hsound a σ' hR
    rw [append_nil, append_nil] at hruns
    exact ⟨hfits, _, _, scratch', hX a o stack hshows, hlength,
      runs_singleton_iff.2 (instrRuns_block_iff.2 ⟨o, _, hruns, rfl, rfl⟩)⟩
  · obtain ⟨o₁, s₁, hruns, -⟩ := instrRuns_block_iff.1 (runs_singleton_iff.1 hruns)
    exact hcomplete o₁ s₁ hruns

/-- **A loop follows its rounds**, if those that do not end it are the ones that branch to it. -/
theorem loop {X : Shows (Option α)} {R : Course (Option α)} (h : Follows b scope n [] code X R)
    (hagain : ∀ o stack, X none o stack → o = .branch 0)
    (hX : ∀ a o stack, X (some a) o stack → o ≠ .branch 0 ∧ X' a (o.pass stack).1 (o.pass stack).2) :
    Follows b scope n [] [.loop code] X' (Course.Iterates R) := by
  intro σ scratch below hσ hn
  refine ⟨fun a σ' hR => ?_, ?_⟩
  · induction hR generalizing scratch with
    | @stop σ a σ' hR =>
      obtain ⟨hfits, o, stack, scratch', hshows, hlength, hruns⟩ := (h σ scratch [] hσ hn).1 _ _ hR
      obtain ⟨hne, hX⟩ := hX a o stack hshows
      exact ⟨hfits, _, _, scratch', hX, hlength,
        runs_singleton_iff.2 (instrRuns_loop_iff.2 ⟨o, _, hruns, by simp [hne]⟩)⟩
    | @next σ σ₁ a σ' hR _ ih =>
      obtain ⟨hfits, o, stack, scratch₁, hshows, hlength, hruns⟩ := (h σ scratch [] hσ hn).1 _ _ hR
      obtain rfl := hagain o stack hshows
      obtain ⟨hfits', o', stack', scratch', hX, hlength', hruns'⟩ := ih scratch₁ hfits (hlength ▸ hn)
      refine ⟨hfits', o', stack', scratch', hX, hlength'.trans hlength, ?_⟩
      exact runs_singleton_iff.2 (instrRuns_loop_iff.2 ⟨_, _, hruns, by rwa [if_pos rfl]⟩)
  · -- The steps that the machine takes go down with every round.
    rintro o s' ⟨fuel, hexec⟩
    induction fuel generalizing σ scratch o s' with
    | zero => cases hexec
    | succ fuel ih =>
      obtain ⟨⟨o₀, s₀⟩, hinstr, -⟩ := bind_eq_some_iff.1 hexec
      obtain ⟨⟨o₁, s₁⟩, hround, hrest⟩ := bind_eq_some_iff.1 hinstr
      obtain ⟨hsound, hcomplete⟩ := h σ scratch [] hσ hn
      obtain ⟨end?, σ₁, hR⟩ := hcomplete o₁ s₁ ⟨fuel, hround⟩
      cases end? with
      | some a => exact ⟨a, σ₁, .stop hR⟩
      | none =>
        obtain ⟨hfits, o, stack, scratch₁, hshows, hlength, hruns⟩ := hsound none σ₁ hR
        obtain rfl := hagain o stack hshows
        obtain ⟨rfl, rfl⟩ := Runs.unique ⟨fuel, hround⟩ hruns
        obtain ⟨a, σ', hiterates⟩ := ih σ₁ scratch₁ hfits (hlength ▸ hn) o₀ s₀ hrest
        exact ⟨a, σ', .next hR hiterates⟩

/-- Code that takes the truth of its test off the stack and then does what a block does. -/
theorem of_block (h : Follows b scope n [] [.block code] X R)
    (hi : ∀ outer l g o s', InstrRuns b i ⟨.truth x :: outer, l, g⟩ o s' ↔
      InstrRuns b (.block code) ⟨outer, l, g⟩ o s') : Follows b scope n [.truth x] [i] X R := by
  intro σ scratch below hσ hn
  simpa only [nil_append, singleton_append, runs_singleton_iff, hi] using h σ scratch below hσ hn

end Follows

end Retarget.Wasm
