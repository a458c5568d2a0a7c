import Mathlib.Logic.Function.Basic
import Retarget.Proofs.Scope

/-!
# A node on top of a forest

A program is built from the leaves up: a new node takes roots of the forest as its children and becomes a root
itself.

* `Adjoins g p kind`: `p` is new and its children are roots. `Adjoins.isForest`: the result is a forest again.
* `ScopeOwner.of_adjoin`: the new node changes no scope owner; it can only become one.
* `Closes g p d`: by its owner `p` the declaration `d` gets a scope, or one that is closed for good. The cases
  of a switch share the scope of the names declared in one of them as long as the switch is not there.
  `Adjoins.closes_cases` says which declarations the new node closes.
-/

namespace Retarget

open Relation ReflTransGen

/-! ## Kinds that carry names -/

namespace Kind

/-- Kinds whose nodes declare names that belong to the node above them. -/
def carriesNames : Kind → Bool
  | parameter _ | rest _ | declarator .. | variableDecl .. | functionDecl _ | classDecl _ | switchCase .. => true
  | _ => false

def scopesItself : Kind → Bool
  | functionExpr _ | classExpr _ => true
  | _ => false

end Kind

variable {g : NodeId → Option Kind} {kind : Kind} {c d f i o p q x y : NodeId}

/-- `c` is a case of a switch. -/
def IsCase (g : NodeId → Option Kind) (c : NodeId) : Prop := ∃ test consequent, g c = some (.switchCase test consequent)

/-- `p` is the scope owner of the name that `d` declares, or the owner of the case that is. -/
def Closes (g : NodeId → Option Kind) (p d : NodeId) : Prop :=
  (ScopeOwner g d p ∧ ¬IsCase g p) ∨ ∃ c, Owns g p c ∧ IsCase g c ∧ ScopeOwner g d c

variable {g' : NodeId → Option Kind}

theorem Owns.mono (hmono : ∀ {x k}, g x = some k → g' x = some k) (h : Owns g p c) : Owns g' p c := by
  obtain ⟨k, hk, hc⟩ := h
  exact ⟨k, hmono hk, hc⟩

theorem contains_mono (hmono : ∀ {x k}, g x = some k → g' x = some k) (h : Contains g x y) : Contains g' x y := by
  induction h with
  | refl => exact .refl
  | tail _ hb ih => exact ih.tail (hb.mono hmono)

theorem Owns.contains (h : Owns g p c) : Contains g p c := .single h

theorem NearestFunction.contains (h : NearestFunction g f x) : Contains g f x := by
  induction h with
  | here h _ => exact h.contains
  | above h _ _ ih => exact ih.tail h

theorem ScopeOwner.contains (h : ScopeOwner g d o) : Contains g o d := by
  cases h with
  | functionExpr | classExpr => exact .refl
  | parameter _ hp | loop _ hp | statement _ _ hp => exact hp.contains
  | restParameter _ hr _ hp => exact hp.contains.tail hr
  | var _ hv _ hf => exact hf.contains.tail hv
  | lexical _ hv _ _ hp => exact hp.contains.tail hv

theorem ScopeOwner.isSome (h : ScopeOwner g d o) : (g d).isSome = true := by
  cases h <;> simp_all

/-- The nodes of `g`, and a node of the given kind under the id `p`. -/
def adjoin (g : NodeId → Option Kind) (p : NodeId) (kind : Kind) : NodeId → Option Kind :=
  Function.update g p (some kind)

@[simp]
theorem adjoin_self (g : NodeId → Option Kind) (p : NodeId) (kind : Kind) : adjoin g p kind p = some kind :=
  Function.update_self ..

theorem adjoin_of_ne (h : x ≠ p) : adjoin g p kind x = g x := Function.update_of_ne h ..

/-- `p` is a new node, and its children are roots of the forest. -/
structure Adjoins (g : NodeId → Option Kind) (p : NodeId) (kind : Kind) : Prop where
  new : g p = none
  root : ∀ q, ¬Owns g q p
  ne : p ∉ kind.children
  child_root : ∀ c ∈ kind.children, ∀ q, ¬Owns g q c

namespace Adjoins

variable (h : Adjoins g p kind) {k : Kind}

include h

theorem eq_of_some (hx : g x = some k) : adjoin g p kind x = some k := by
  rw [adjoin_of_ne, hx]
  rintro rfl
  exact absurd (h.new.symm.trans hx) nofun

theorem eq_of_owns (hx : Owns g x c) (hk : adjoin g p kind x = some k) : g x = some k := by
  obtain ⟨k', hk', -⟩ := hx
  rwa [hk', ← h.eq_of_some hk']

theorem owns_iff : Owns (adjoin g p kind) q c ↔ (q = p ∧ c ∈ kind.children) ∨ Owns g q c := by
  by_cases hq : q = p
  · subst hq
    simp [Owns, h.new]
  · simp [Owns, adjoin_of_ne hq, hq]

theorem root_adjoin (q : NodeId) : ¬Owns (adjoin g p kind) q p := fun hq =>
  (h.owns_iff.1 hq).elim (fun hc => h.ne hc.2) (h.root q)

theorem contains (hx : Contains g x y) : Contains (adjoin g p kind) x y := contains_mono h.eq_of_some hx

theorem eq_of_contains (hx : Contains (adjoin g p kind) x p) : x = p := by
  rcases cases_tail hx with rfl | ⟨q, -, hq⟩
  · rfl
  · exact absurd hq (h.root_adjoin q)

theorem contains_iff (hx : x ≠ p) : Contains (adjoin g p kind) x y ↔ Contains g x y := by
  refine ⟨fun hy => ?_, h.contains⟩
  induction hy with
  | refl => exact .refl
  | @tail a b ha hb ih =>
    rcases h.owns_iff.1 hb with ⟨rfl, -⟩ | hb
    · exact absurd (h.eq_of_contains ha) hx
    · exact ih.tail hb

theorem contains_self_iff : Contains (adjoin g p kind) p y ↔ y = p ∨ ∃ c ∈ kind.children, Contains g c y := by
  constructor
  · intro hy
    rcases cases_head hy with rfl | ⟨c, hc, hy⟩
    · exact .inl rfl
    · rcases h.owns_iff.1 hc with ⟨-, hchild⟩ | ⟨k, hk, -⟩
      · refine .inr ⟨c, hchild, (h.contains_iff ?_).1 hy⟩
        rintro rfl
        exact h.ne hchild
      · exact absurd (h.new.symm.trans hk) nofun
  · rintro (rfl | ⟨c, hc, hy⟩)
    · exact .refl
    · exact .head (h.owns_iff.2 (.inl ⟨rfl, hc⟩)) (h.contains hy)

/-- **A new root leaves a forest a forest.** -/
theorem isForest (hforest : IsForest g) : IsForest (adjoin g p kind) := by
  refine ⟨fun {a b c} ha hb => ?_, fun x hx => ?_⟩
  · rcases h.owns_iff.1 ha with ⟨hap, hc⟩ | hold <;> rcases h.owns_iff.1 hb with ⟨hbp, hc'⟩ | hold'
    · rw [hap, hbp]
    · exact absurd hold' (h.child_root c hc b)
    · exact absurd hold (h.child_root c hc' a)
    · exact hforest.owner_unique hold hold'
  · obtain ⟨y, hxy, hyx⟩ := TransGen.head'_iff.1 hx
    have hyp : y ≠ p := by
      rintro rfl
      exact h.root_adjoin x hxy
    have hyx' := (h.contains_iff hyp).1 hyx
    rcases h.owns_iff.1 hxy with ⟨rfl, -⟩ | hold
    · exact hyp (h.eq_of_contains hyx)
    · exact hforest.not_contains_of_owns hold hyx'

/-! ### Scopes -/

theorem nearestFunction (hf : NearestFunction (adjoin g p kind) f x) :
    NearestFunction g f x ∨ (f = p ∧ kind.function?.isSome = true) := by
  induction hf with
  | @here x hx hf =>
    obtain ⟨k, hk, hfun⟩ := hf
    rcases h.owns_iff.1 hx with ⟨rfl, -⟩ | hold
    · rw [adjoin_self] at hk
      cases hk
      exact .inr ⟨rfl, hfun⟩
    · exact .inl (.here hold ⟨k, h.eq_of_owns hold hk, hfun⟩)
  | @above x q hx hq _ ih =>
    rcases h.owns_iff.1 hx with ⟨rfl, -⟩ | hold
    · -- The new node has no owner, so that no function is above it.
      rename_i hf
      cases hf with
      | here hp | above hp => exact absurd hp (h.root_adjoin _)
    · refine ih.imp_left (.above hold fun ⟨k, hk, hfun⟩ => hq ⟨k, h.eq_of_some hk, hfun⟩)

end Adjoins

/-- **A new root gets no old name out of its scope**: a name has the scope owner that it had, or it gets the
new node as its scope owner. -/
theorem ScopeOwner.of_adjoin (h : Adjoins g p kind) (ho : ScopeOwner (adjoin g p kind) d o) :
    (d ≠ p ∧ ScopeOwner g d o) ∨ o = p := by
  by_cases hd : d = p
  · subst hd
    refine .inr ?_
    cases ho with
    | functionExpr | classExpr => rfl
    | parameter _ hp | loop _ hp | statement _ _ hp => exact absurd hp (h.root_adjoin _)
    | restParameter _ hr => exact absurd hr (h.root_adjoin _)
    | var _ hv | lexical _ hv => exact absurd hv (h.root_adjoin _)
  by_cases hop : o = p
  · exact .inr hop
  have howns : ∀ {x y}, Owns (adjoin g p kind) x y → x ≠ p → Owns g x y := fun hxy hx =>
    (h.owns_iff.1 hxy).resolve_left fun hp => hx hp.1
  refine .inl ⟨hd, ?_⟩
  cases ho with
  | functionExpr hk => exact .functionExpr ((adjoin_of_ne hd).symm.trans hk)
  | classExpr hk => exact .classExpr ((adjoin_of_ne hd).symm.trans hk)
  | parameter hk hp hrest =>
    refine .parameter ((adjoin_of_ne hd).symm.trans hk) (howns hp hop) fun a ha => hrest a ?_
    rwa [adjoin_of_ne hop]
  | loop hk hp hdecl =>
    refine .loop ((adjoin_of_ne hd).symm.trans hk) (howns hp hop) fun k ds ha => hdecl k ds ?_
    rwa [adjoin_of_ne hop]
  | statement hk hkind hp => exact .statement ((adjoin_of_ne hd).symm.trans hk) hkind (howns hp hop)
  | @restParameter name r a _ hk hr hrest hp =>
    have hrp : r ≠ p := by
      rintro rfl
      exact h.root_adjoin _ hp
    exact .restParameter ((adjoin_of_ne hd).symm.trans hk) (howns hr hrp) ((adjoin_of_ne hrp).symm.trans hrest)
      (howns hp hop)
  | @lexical name init v k ds _ hk hv hdecl hne hp =>
    have hvp : v ≠ p := by
      rintro rfl
      exact h.root_adjoin _ hp
    exact .lexical ((adjoin_of_ne hd).symm.trans hk) (howns hv hvp) ((adjoin_of_ne hvp).symm.trans hdecl) hne
      (howns hp hop)
  | @var name init v ds _ hk hv hvar hf =>
    have hvp : v ≠ p := by
      rintro rfl
      cases hf with
      | here hp | above hp => exact h.root_adjoin _ hp
    refine .var ((adjoin_of_ne hd).symm.trans hk) (howns hv hvp) ((adjoin_of_ne hvp).symm.trans hvar) ?_
    exact (h.nearestFunction hf).resolve_right fun hp => hop hp.1

namespace Adjoins

variable (h : Adjoins g p kind)
include h

theorem scopeOwner_self (hd : ScopeOwner (adjoin g p kind) d p)
    (hbinding : ∀ k, adjoin g p kind d = some k → k.isBinding = true) :
    (d = p ∧ kind.scopesItself = true) ∨ ∃ c ∈ kind.children, Contains g c d ∧
      (kind.function?.isSome = true ∨ ∃ k, g c = some k ∧ k.carriesNames = true) := by
  have hchild : ∀ {c}, Owns (adjoin g p kind) p c → c ∈ kind.children ∧ c ≠ p := by
    intro c hc
    have hmem : c ∈ kind.children := (Retarget.owns_iff (adjoin_self g p kind)).1 hc
    exact ⟨hmem, fun hcp => h.ne (hcp ▸ hmem)⟩
  have hcarries : ∀ {c k}, Owns (adjoin g p kind) p c → adjoin g p kind c = some k → k.carriesNames = true →
      Contains (adjoin g p kind) c d → ∃ c ∈ kind.children, Contains g c d ∧
        (kind.function?.isSome = true ∨ ∃ k, g c = some k ∧ k.carriesNames = true) := by
    intro c k hc hk hcarries hcd
    obtain ⟨hmem, hcp⟩ := hchild hc
    exact ⟨c, hmem, (h.contains_iff hcp).1 hcd, .inr ⟨k, (adjoin_of_ne hcp).symm.trans hk, hcarries⟩⟩
  cases hd with
  | functionExpr hk | classExpr hk =>
    rw [adjoin_self] at hk
    cases hk
    exact .inl ⟨rfl, rfl⟩
  | parameter hk hp | loop hk hp => exact .inr (hcarries hp hk rfl .refl)
  | @statement k _ hk hkind hp =>
    refine .inr (hcarries hp hk ?_ .refl)
    cases k <;> simp_all [Kind.isStatement, Kind.isBinding, Kind.carriesNames]
  | restParameter hk hr hrest hp => exact .inr (hcarries hp hrest rfl hr.contains)
  | lexical hk hv hdecl _ hp => exact .inr (hcarries hp hdecl rfl hv.contains)
  | var hk hv hvar hf =>
    obtain ⟨k, hk, hfun⟩ := hf.isFunction
    rw [adjoin_self] at hk
    cases hk
    rcases h.contains_self_iff.1 (hf.contains.tail hv) with rfl | ⟨c, hc, hcd⟩
    · exact absurd hv (h.root_adjoin _)
    · exact .inr ⟨c, hc, hcd, .inl hfun⟩

theorem not_scopeOwner (hbinding : kind.isBinding = true) (hscope : kind.scopesItself = false) :
    ¬ScopeOwner (adjoin g p kind) p o := by
  intro ho
  obtain rfl := (ho.of_adjoin h).resolve_left fun hold => hold.1 rfl
  have hself : ∀ k, adjoin g o kind o = some k → k.isBinding = true := by
    intro k hk
    rw [adjoin_self] at hk
    cases hk
    exact hbinding
  rcases h.scopeOwner_self ho hself with ⟨-, hself⟩ | ⟨c, hc, hco, -⟩
  · exact absurd hself (by simp [hscope])
  · rcases cases_tail hco with rfl | ⟨q, -, hq⟩
    · exact h.ne hc
    · exact h.root q hq

/-- **The names that a new node closes**: its own name, what its children carry, and all variables below it if
it is a function. -/
theorem closes_cases (hd : Closes (adjoin g p kind) p d)
    (hbinding : ∀ k, adjoin g p kind d = some k → k.isBinding = true) :
    (d = p ∧ kind.scopesItself = true) ∨ ∃ c ∈ kind.children, Contains g c d ∧
      (kind.function?.isSome = true ∨ ∃ k, g c = some k ∧ k.carriesNames = true) := by
  rcases hd with ⟨hd, -⟩ | ⟨c, hc, ⟨test, consequent, hcase⟩, hd⟩
  · exact h.scopeOwner_self hd hbinding
  · have hmem : c ∈ kind.children := (Retarget.owns_iff (adjoin_self g p kind)).1 hc
    have hcp : c ≠ p := fun hcp => h.ne (hcp ▸ hmem)
    refine .inr ⟨c, hmem, (h.contains_iff hcp).1 hd.contains, .inr ⟨_, (adjoin_of_ne hcp).symm.trans hcase, rfl⟩⟩

end Adjoins

end Retarget
