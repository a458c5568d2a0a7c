import Retarget.Lower.Monad
import Retarget.Proofs.Lower.Grown
import Retarget.Target.Module

/-!
# Places of jumps

Where `break`, `continue`, `return` and `await` may stand, while the program that they are part of is made.

* `Kind.allowedAt c` and `Kind.inside c`: what may stand where the context is `c`, and the context inside of a node
  there.
* `Housed g kind x`: there is a node above `x` that a jump of this kind can refer to.
* `Tame P g g'`: of the jumps that are new in `g'`, those that are not housed are outside of functions and allowed in
  one of the contexts `P`. New functions hold new nodes only.
* `Tame.close`: a node on top of all that is new houses the jumps that were made in the context inside of it.
-/

namespace Retarget

open Relation Option

/-! ## Contexts -/

namespace FunctionContext

def loop (c : FunctionContext) : FunctionContext := { c with loopDepth := c.loopDepth + 1 }

def switch (c : FunctionContext) : FunctionContext := { c with switchDepth := c.switchDepth + 1 }

def function (isAsync : Bool) : FunctionContext := { inFunction := true, isAsync := isAsync }

end FunctionContext

namespace Kind

def isSwitch : Kind → Bool
  | switchStmt .. => true
  | _ => false

/-- The context inside of a node that is where the context is `c`. -/
def inside (kind : Kind) (c : FunctionContext) : FunctionContext :=
  match kind.function? with
  | some f => .function f.isAsync
  | none => if kind.isLoop then c.loop else if kind.isSwitch then c.switch else c

/-- Whether a node of this kind may stand where the context is `c`. -/
def allowedAt (c : FunctionContext) : Kind → Bool
  | breakStmt => c.loopDepth != 0 || c.switchDepth != 0
  | continueStmt => c.loopDepth != 0
  | returnStmt _ => c.inFunction
  | awaitExpr _ => c.isAsync
  | _ => true

variable {kind k : Kind} {c : FunctionContext}

theorem inside_cases :
    (∃ f, kind.function? = some f ∧ kind.isLoop = false ∧ kind.isSwitch = false ∧ kind.inside c = .function f.isAsync) ∨
      (kind.function? = none ∧ kind.isLoop = true ∧ kind.isSwitch = false ∧ kind.inside c = c.loop) ∨
      (kind.function? = none ∧ kind.isLoop = false ∧ kind.isSwitch = true ∧ kind.inside c = c.switch) ∨
      (kind.function? = none ∧ kind.isLoop = false ∧ kind.isSwitch = false ∧ kind.inside c = c) := by
  cases kind with
  | functionDecl f | functionExpr f | arrow f => exact .inl ⟨f, rfl, rfl, rfl, rfl⟩
  | whileStmt | doWhile | forStmt | forEach => exact .inr (.inl ⟨rfl, rfl, rfl, rfl⟩)
  | switchStmt => exact .inr (.inr (.inl ⟨rfl, rfl, rfl, rfl⟩))
  | _ => exact .inr (.inr (.inr ⟨rfl, rfl, rfl, rfl⟩))

theorem allowedAt_of_calm (h : kind.allowedAt {} = true) : kind.allowedAt c = true := by
  cases kind <;> first | rfl | cases h

theorem allowedAt_of_isBare (h : kind.isBare = true) : kind.allowedAt {} = true := by
  cases kind <;> first | rfl | cases h

/-- What is allowed inside of a node refers to the node, or it is allowed where the node is. -/
theorem allowedAt_inside (h : k.allowedAt (kind.inside c) = true) :
    k.allowedAt (kind.inside {}) = true ∨ (kind.function? = none ∧ k.allowedAt c = true) := by
  cases hf : kind.function? with
  | some f =>
    simp only [inside, hf] at h ⊢
    exact .inl h
  | none =>
    simp only [inside, hf] at h ⊢
    cases k with
    | returnStmt | awaitExpr =>
      refine .inr ⟨trivial, ?_⟩
      split_ifs at h <;> exact h
    | breakStmt | continueStmt =>
      split_ifs at h ⊢ <;>
        simp_all [allowedAt, FunctionContext.loop, FunctionContext.switch]
    | _ => exact .inl rfl

end Kind

/-! ## Housed jumps -/

variable {g g' : NodeId → Option Kind} {b b' b₀ : Builder} {F R : Multiset NodeId} {P P' : Set FunctionContext}
  {c : FunctionContext} {kind k : Kind} {p x y : NodeId}

/-- Above a node `x` of this kind is a node that it can refer to, if it has to refer to one. -/
def Housed (g : NodeId → Option Kind) (kind : Kind) (x : NodeId) : Prop :=
  kind.allowedAt {} = true ∨ ∃ p outer c, g p = some outer ∧ c ∈ outer.children ∧ Nested g c x ∧
    kind.allowedAt (outer.inside {}) = true

def OutsideFunctions (g : NodeId → Option Kind) (x : NodeId) : Prop := ∀ f, IsFunction g f → ¬Contains g f x

theorem OutsideFunctions.nested (h : OutsideFunctions g x) (hc : Contains g y x) : Nested g y x := by
  induction hc using ReflTransGen.head_induction_on with
  | refl => exact .refl
  | head howns hc ih => exact .head ⟨howns, fun hf => h _ hf (.head howns hc)⟩ ih

section

variable (hmono : ∀ {x k}, g x = some k → g' x = some k)
include hmono

theorem Nested.mono (h : Nested g y x) : Nested g' y x := by
  induction h with
  | refl => exact .refl
  | tail _ hc ih =>
    obtain ⟨⟨outer, houter, hc⟩, hf⟩ := hc
    refine ih.tail ⟨⟨outer, hmono houter, hc⟩, fun ⟨k, hk, hfun⟩ => hf ⟨outer, houter, ?_⟩⟩
    rwa [some.inj ((hmono houter).symm.trans hk)]

theorem Housed.mono (h : Housed g kind x) : Housed g' kind x := by
  obtain hcalm | ⟨p, outer, c, hp, hc, hnested, hallowed⟩ := h
  · exact .inl hcalm
  · exact .inr ⟨p, outer, c, hmono hp, hc, hnested.mono hmono, hallowed⟩

end

/-! ## What is new -/

/-- What is new in `g'`: functions over new nodes, and jumps that are housed or allowed in one of the contexts `P`. -/
structure Tame (P : Set FunctionContext) (g g' : NodeId → Option Kind) : Prop where
  apart : ∀ {f x}, g f = none → IsFunction g' f → Contains g' f x → g x = none
  jumps : ∀ {x k}, g x = none → g' x = some k →
    Housed g' k x ∨ (OutsideFunctions g' x ∧ ∃ c ∈ P, k.allowedAt c = true)

namespace Tame

theorem of_eq (h : g' = g) : Tame P g g' := by
  subst h
  refine ⟨fun hf ⟨k, hk, _⟩ _ => ?_, fun hx hk => ?_⟩
  · cases hf.symm.trans hk
  · cases hx.symm.trans hk

theorem mono (hP : P ⊆ P') (h : Tame P g g') : Tame P' g g' :=
  ⟨h.apart, fun hx hk => (h.jumps hx hk).imp_right fun ⟨hout, c, hc, hallowed⟩ => ⟨hout, c, hP hc, hallowed⟩⟩

/-- **One step after the other.** What is below an old node stays as it is. -/
theorem trans (hgrown : Grown b R) (hmono₀ : ∀ {x k}, g x = some k → b.kind? x = some k)
    (hmono : ∀ {x k}, b.kind? x = some k → b'.kind? x = some k) (h : Tame P g b.kind?)
    (h' : Tame P b.kind? b'.kind?) : Tame P g b'.kind? := by
  have hnew : ∀ {x}, b.kind? x = none → g x = none := fun hx => eq_none_iff_forall_ne_some.2 fun k hk => by
    cases hx.symm.trans (hmono₀ hk)
  have hold : ∀ {f x k}, b.kind? f = some k → IsFunction b'.kind? f → Contains b'.kind? f x →
      IsFunction b.kind? f ∧ Contains b.kind? f x := by
    intro f x k hk ⟨k', hk', hfun⟩ hx
    refine ⟨⟨k, hk, ?_⟩, (contains_old hgrown hmono hk hx).1⟩
    rwa [some.inj ((hmono hk).symm.trans hk')]
  refine ⟨fun {f x} hf hfun hx => ?_, fun {x k} hx hk => ?_⟩
  · cases hb : b.kind? f with
    | none => exact hnew (h'.apart hb hfun hx)
    | some kf =>
      obtain ⟨hfun, hx⟩ := hold hb hfun hx
      exact h.apart hf hfun hx
  · cases hb : b.kind? x with
    | none => exact h'.jumps hb hk
    | some kx =>
      obtain rfl := some.inj ((hmono hb).symm.trans hk)
      refine (h.jumps hx hb).imp (·.mono hmono) (And.imp_left fun hout f hfun hf => ?_)
      cases hbf : b.kind? f with
      | none => cases hb.symm.trans (h'.apart hbf hfun hf)
      | some kf =>
        obtain ⟨hfun, hf⟩ := hold hbf hfun hf
        exact hout f hfun hf

theorem outside_adjoin (ha : Adjoins g p kind) (hf : kind.function? = none) (h : OutsideFunctions g x) :
    OutsideFunctions (adjoin g p kind) x := by
  rintro f ⟨k, hk, hfun⟩ hx
  by_cases hfp : f = p
  · subst hfp
    rw [adjoin_self] at hk
    cases hk
    simp [hf] at hfun
  · rw [adjoin_of_ne hfp] at hk
    exact h f ⟨k, hk, hfun⟩ ((ha.contains_iff hfp).1 hx)

/-- **A node that is no function** is allowed where the context allows it. -/
theorem store (ha : Adjoins g p kind) (hf : kind.function? = none) (hallowed : kind.allowedAt c = true) :
    Tame {c} g (adjoin g p kind) := by
  have hself : ∀ {x k}, g x = none → adjoin g p kind x = some k → x = p ∧ k = kind := by
    intro x k hx hk
    by_cases hxp : x = p
    · subst hxp
      rw [adjoin_self] at hk
      exact ⟨rfl, (some.inj hk).symm⟩
    · rw [adjoin_of_ne hxp, hx] at hk
      cases hk
  refine ⟨fun hx ⟨k, hk, hfun⟩ _ => ?_, fun hx hk => .inr ⟨?_, c, rfl, ?_⟩⟩
  · obtain ⟨-, rfl⟩ := hself hx hk
    simp [hf] at hfun
  · obtain ⟨rfl, rfl⟩ := hself hx hk
    refine outside_adjoin ha hf fun f ⟨kf, hkf, _⟩ hc => ?_
    rcases ReflTransGen.cases_tail hc with rfl | ⟨q, -, hq⟩
    · cases hx.symm.trans hkf
    · exact ha.root q hq
  · obtain ⟨-, rfl⟩ := hself hx hk
    exact hallowed

end Tame

/-- A node of this kind, put where the context is `c`, settles jumps that were made in the contexts `P`: they refer to
it, or they stay allowed in one of the contexts `P'`. -/
structure Kind.Settles (kind : Kind) (c : FunctionContext) (P P' : Set FunctionContext) : Prop where
  calm : kind.allowedAt {} = true
  here : kind.function? = none → c ∈ P'
  made : ∀ c' ∈ P, c' = kind.inside c ∨ (kind.function? = none ∧ c' ∈ P')

namespace Kind.Settles

theorem plain (hf : kind.function? = none) (hcalm : kind.allowedAt {} = true) (hc : c ∈ P) : kind.Settles c P P :=
  ⟨hcalm, fun _ => hc, fun _ hc' => .inr ⟨hf, hc'⟩⟩

theorem inner (hcalm : kind.allowedAt {} = true) : kind.Settles c {kind.inside c} {c} :=
  ⟨hcalm, fun _ => rfl, fun _ => .inl⟩

theorem function {f : FunctionNode} (hf : kind.function? = some f) : kind.Settles c {.function f.isAsync} {c} := by
  have hinside : kind.inside c = .function f.isAsync := by rw [inside, hf]
  rw [← hinside]
  refine .inner ?_
  cases kind <;> first | rfl | cases hf

theorem around (hf : kind.function? = none) (hcalm : kind.allowedAt {} = true) :
    kind.Settles c {c, kind.inside c} {c} := by
  refine ⟨hcalm, fun _ => rfl, ?_⟩
  rintro c' (hc' | hc')
  · exact .inr ⟨hf, hc'⟩
  · exact .inl hc'

end Kind.Settles

/-- **A node on top of all that is new** settles the jumps in it. -/
theorem Tame.close (h₀ : Grown b₀ F) (hmono : ∀ {x k}, b₀.kind? x = some k → b.kind? x = some k)
    (ht : Tame P b₀.kind? b.kind?) (hs : Stores b b' p kind) (h : Grown b (kind.children + R))
    (hF : ∀ x ∈ F, x ∈ (kind.children : Multiset NodeId) + R) (hR : ∀ x ∈ R, x ∈ F ∨ Barren b.kind? x)
    (hold : ∀ c ∈ kind.children, c ∈ F → kind.function? = none) (hsettles : kind.Settles c P P') :
    Tame P' b₀.kind? b'.kind? := by
  have ha := hs.adjoins h
  rw [hs.kind_eq]
  refine ⟨fun {f x} hf hfun hx => ?_, fun {x k} hx hk => ?_⟩
  · by_cases hfp : f = p
    · subst hfp
      rcases ha.contains_self_iff.1 hx with rfl | ⟨y, hy, hyx⟩
      · exact hf
      -- An old node below the function would be below one of the roots that were there before.
      by_contra hstored
      obtain ⟨k, hk⟩ := ne_none_iff_exists'.1 hstored
      obtain ⟨r, hr, hrx⟩ := h₀.cover hk
      obtain rfl := h.eq_of_contains (Multiset.mem_add.2 (.inl hy)) (hF r hr) hyx (contains_mono hmono hrx)
      obtain ⟨kf, hkf, hfun⟩ := hfun
      rw [adjoin_self] at hkf
      cases hkf
      simp [hold y hy hr] at hfun
    · obtain ⟨kf, hkf, hfun⟩ := hfun
      rw [adjoin_of_ne hfp] at hkf
      exact ht.apart hf ⟨kf, hkf, hfun⟩ ((ha.contains_iff hfp).1 hx)
  · by_cases hxp : x = p
    · subst hxp
      rw [adjoin_self] at hk
      cases hk
      exact .inl (.inl hsettles.calm)
    rw [adjoin_of_ne hxp] at hk
    rcases ht.jumps hx hk with hhoused | ⟨hout, c', hc', hallowed⟩
    · exact .inl (hhoused.mono ha.eq_of_some)
    have hstays : ∀ c'' ∈ P', kind.function? = none → k.allowedAt c'' = true →
        OutsideFunctions (adjoin b.kind? p kind) x ∧ ∃ c ∈ P', k.allowedAt c = true := fun c'' hc'' hf hallowed =>
      ⟨outside_adjoin ha hf hout, c'', hc'', hallowed⟩
    rcases hsettles.made c' hc' with rfl | ⟨hf, hc'⟩
    · rcases Kind.allowedAt_inside hallowed with hhouses | ⟨hf, hallowed⟩
      · refine .inl ?_
        obtain ⟨r, hr, hrx⟩ := h.cover hk
        rcases Multiset.mem_add.1 hr with hr | hr
        · exact .inr ⟨p, kind, r, adjoin_self _ _ _, hr, (hout.nested hrx).mono ha.eq_of_some, hhouses⟩
        · rcases hR r hr with hr | hbarren
          · obtain ⟨⟨kr, hkr⟩, -⟩ := h₀.held r hr
            obtain ⟨-, kx, hkx⟩ := contains_old h₀ hmono hkr hrx
            cases hx.symm.trans hkx
          · exact .inl (Kind.allowedAt_of_isBare (hbarren x k hrx hk))
      · exact .inr (hstays c (hsettles.here hf) hf hallowed)
    · exact .inr (hstays c' hc' hf hallowed)

end Retarget
