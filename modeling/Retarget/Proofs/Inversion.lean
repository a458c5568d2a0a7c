import Mathlib.Order.Basic
import Retarget.Target.Gather

/-!
# Inversion of computations

A computation that succeeds has gone through all of its steps. The lemmas here say so for the monads in which
code is generated and programs are lowered: a successful `bind` gives the result of its first half and a
successful run of its second half, and the basic operations give the one result that they can have. Rewriting
with them turns the equation of a successful run into the equations of its steps.
-/

namespace Retarget

open Except

universe u

variable {ε σ ρ : Type u} {α β : Type u}

/-! ## Computations that can fail -/

variable {x : Except ε α} {s' : σ} {as : List α} {f : σ → σ} {v : PUnit}

theorem Except.bind_eq_ok {f : α → Except ε β} {b : β} : (x >>= f) = .ok b ↔ ∃ a, x = .ok a ∧ f a = .ok b := by
  cases x with
  | error e => exact ⟨nofun, fun ⟨_, h, _⟩ => nomatch h⟩
  | ok a => exact ⟨fun h => ⟨a, rfl, h⟩, fun ⟨_, h, hf⟩ => by cases h; exact hf⟩

theorem Except.exists_of_any {p : α → Bool} (h : x.toOption.any p = true) : ∃ a, x = .ok a ∧ p a = true := by
  cases x with
  | error e => cases h
  | ok a => exact ⟨a, rfl, h⟩

theorem Except.exists_of_isOk (h : x.isOk = true) : ∃ a, x = .ok a := by
  cases x with
  | error e => cases h
  | ok a => exact ⟨a, rfl⟩

theorem Except.map_eq_ok {f : α → β} {b : β} : x.map f = .ok b ↔ ∃ a, x = .ok a ∧ f a = b := by
  cases x <;> simp [Except.map]

theorem Except.mapError_eq_ok {ε' : Type u} {f : ε → ε'} {a : α} : x.mapError f = .ok a ↔ x = .ok a := by
  cases x <;> simp [Except.mapError]

theorem gatherSteps_induction {step : σ → α → Except ε σ} {P : σ → Prop}
    (hstep : ∀ s a s', P s → step s a = .ok s' → P s') {s : σ} (hs : P s) (h : gatherSteps step s as = .ok s') :
    P s' := by
  induction as generalizing s with
  | nil => exact ok.inj h ▸ hs
  | cons a as ih =>
    rw [gatherSteps] at h
    split at h
    case h_1 t ht => exact ih (hstep s a t hs ht) h
    case h_2 => split at h <;> cases h

/-! ## Computations with a state -/

namespace Stateful

variable {s t : σ} {a b : α}

theorem bind_ok {x : StateT σ (Except ε) α} {f : α → StateT σ (Except ε) β} {b : β} :
    (x >>= f) s = .ok (b, t) ↔ ∃ a u, x s = .ok (a, u) ∧ f a u = .ok (b, t) := by
  refine Except.bind_eq_ok.trans ?_
  exact ⟨fun ⟨p, hx, hf⟩ => ⟨p.1, p.2, hx, hf⟩, fun ⟨a, u, hx, hf⟩ => ⟨(a, u), hx, hf⟩⟩

theorem pure_ok : (pure a : StateT σ (Except ε) α) s = .ok (b, t) ↔ a = b ∧ s = t := by
  change ok (a, s) = .ok (b, t) ↔ _
  rw [ok.injEq, Prod.mk.injEq]

theorem get_ok {v : σ} : (get : StateT σ (Except ε) σ) s = .ok (v, t) ↔ s = v ∧ s = t := by
  change ok (s, s) = .ok (v, t) ↔ _
  rw [ok.injEq, Prod.mk.injEq]

theorem modify_ok : (modify f : StateT σ (Except ε) PUnit) s = .ok (v, t) ↔ f s = t := by
  change ok (PUnit.unit, f s) = .ok (v, t) ↔ _
  simp

end Stateful

/-! ## Computations with a state and surroundings -/

namespace Surrounded

variable {r : ρ} {s t : σ} {a b : α}

theorem bind_ok {x : ReaderT ρ (StateT σ (Except ε)) α} {f : α → ReaderT ρ (StateT σ (Except ε)) β} {b : β} :
    (x >>= f) r s = .ok (b, t) ↔ ∃ a u, x r s = .ok (a, u) ∧ f a r u = .ok (b, t) :=
  Stateful.bind_ok (f := fun a => f a r)

theorem pure_ok : (pure a : ReaderT ρ (StateT σ (Except ε)) α) r s = .ok (b, t) ↔ a = b ∧ s = t :=
  Stateful.pure_ok

variable {e : ε}

theorem throw_ok : ¬(throw e : ReaderT ρ (StateT σ (Except ε)) α) r s = .ok (b, t) := nofun

theorem read_ok {v : ρ} : (read : ReaderT ρ (StateT σ (Except ε)) ρ) r s = .ok (v, t) ↔ r = v ∧ s = t :=
  Stateful.pure_ok

theorem get_ok {v : σ} : (get : ReaderT ρ (StateT σ (Except ε)) σ) r s = .ok (v, t) ↔ s = v ∧ s = t :=
  Stateful.get_ok

theorem set_ok : (set s' : ReaderT ρ (StateT σ (Except ε)) PUnit) r s = .ok (v, t) ↔ s' = t := by
  change ok (PUnit.unit, s') = .ok (v, t) ↔ _
  simp

theorem modify_ok : (modify f : ReaderT ρ (StateT σ (Except ε)) PUnit) r s = .ok (v, t) ↔ f s = t :=
  Stateful.modify_ok

theorem lift_ok : (liftM x : ReaderT ρ (StateT σ (Except ε)) α) r s = .ok (b, t) ↔ x = .ok b ∧ s = t := by
  change (x >>= fun a => ok (a, s)) = .ok (b, t) ↔ _
  rw [Except.bind_eq_ok]
  constructor
  · rintro ⟨a, hx, h⟩
    cases h
    exact ⟨hx, rfl⟩
  · rintro ⟨hx, rfl⟩
    exact ⟨b, hx, rfl⟩

/-- Whatever a computation gives satisfies `post`, with the state then. -/
def Ensures (x : ReaderT ρ (StateT σ (Except ε)) α) (r : ρ) (s : σ) (post : α → σ → Prop) : Prop :=
  ∀ t a, x r s = .ok (a, t) → post a t

namespace Ensures

variable {x : ReaderT ρ (StateT σ (Except ε)) α} {f : α → ReaderT ρ (StateT σ (Except ε)) β} {post : α → σ → Prop}
  {post' : β → σ → Prop}

theorem pure (h : post a s) : Ensures (pure a : ReaderT ρ (StateT σ (Except ε)) α) r s post := by
  intro t b hrun
  obtain ⟨rfl, rfl⟩ := pure_ok.1 hrun
  exact h

theorem bind (hx : Ensures x r s post) (hf : ∀ a t, post a t → Ensures (f a) r t post') :
    Ensures (x >>= f) r s post' := by
  intro t b hrun
  obtain ⟨a, u, ha, hb⟩ := bind_ok.1 hrun
  exact hf a u (hx u a ha) t b hb

/-- A step that leaves the state as it is. -/
theorem bind_keep {post : α → Prop} (hx : Ensures x r s fun a t => post a ∧ s = t)
    (hf : ∀ a, post a → Ensures (f a) r s post') : Ensures (x >>= f) r s post' :=
  hx.bind fun a _ h => h.2 ▸ hf a h.1

theorem throw : Ensures (throw e : ReaderT ρ (StateT σ (Except ε)) α) r s post :=
  fun _ _ hrun => absurd hrun throw_ok

theorem throw_bind : Ensures ((MonadExcept.throw e : ReaderT ρ (StateT σ (Except ε)) α) >>= f) r s post' := by
  intro t b hrun
  obtain ⟨a, u, ha, -⟩ := bind_ok.1 hrun
  exact absurd ha throw_ok

theorem mono {other : α → σ → Prop} (hx : Ensures x r s post) (h : ∀ a t, post a t → other a t) : Ensures x r s other :=
  fun t a hrun => h a t (hx t a hrun)

theorem read_bind {f : ρ → ReaderT ρ (StateT σ (Except ε)) β} (h : Ensures (f r) r s post') :
    Ensures (read >>= f) r s post' := h

theorem mapM {P : List α → σ → List β → σ → Prop} (nil : ∀ s, P [] s [] s)
    (cons : ∀ a as s, Ensures (f a) r s fun b u => ∀ bs t, P as u bs t → P (a :: as) s (b :: bs) t) :
    Ensures (as.mapM f) r s (P as s) := by
  induction as generalizing s with
  | nil => exact pure (nil s)
  | cons a as ih =>
    rw [List.mapM_cons]
    exact (cons a as s).bind fun b u hb => ih.bind fun bs t hbs => pure (hb bs t hbs)

end Ensures

/-- A computation gives a result that satisfies `post`, with the state then. -/
def Produces (x : ReaderT ρ (StateT σ (Except ε)) α) (r : ρ) (s : σ) (post : α → σ → Prop) : Prop :=
  ∃ a t, x r s = .ok (a, t) ∧ post a t

namespace Produces

variable {x : ReaderT ρ (StateT σ (Except ε)) α} {f : α → ReaderT ρ (StateT σ (Except ε)) β} {post : α → σ → Prop}
  {post' : β → σ → Prop}

theorem pure (h : post a s) : Produces (pure a : ReaderT ρ (StateT σ (Except ε)) α) r s post := ⟨a, s, rfl, h⟩

theorem known (hx : x r s = .ok (a, t)) (hf : Produces (f a) r t post') : Produces (x >>= f) r s post' := by
  obtain ⟨b, u, hb, hpost⟩ := hf
  exact ⟨b, u, bind_ok.2 ⟨a, t, hx, hb⟩, hpost⟩

theorem bind (hx : Produces x r s post) (hf : ∀ a t, post a t → Produces (f a) r t post') :
    Produces (x >>= f) r s post' := by
  obtain ⟨a, t, hx, hpost⟩ := hx
  exact known hx (hf a t hpost)

end Produces

end Surrounded

end Retarget
