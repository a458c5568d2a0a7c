import Retarget.Proofs.Lower.Adjoin

/-!
# What hangs below the statements

* `Module.treeProblems_exact`: the check of ownership finds nothing if and only if no node has two owners, none owns
  itself at any distance, and the top-level statements are different and have no owner. The search for circles that
  it rests on is exact for all recorded owners, whether they run in a circle that the search starts in or in another.
* `Module.Reachable m x`: the node `x` is a top-level statement or below one.
* `Module.reachable_or_orphaned`: in a valid module, the declaration of a name that can be reached can be reached as
  well, or it hangs below a node that is neither owned nor a statement of the module. Such a declaration has no scope
  that could be left, so that its name counts as visible everywhere.
-/

namespace Retarget

open Relation List

variable {m : Module} {name : String} {d i o x : NodeId}

theorem Module.numbered_keysMatch (kinds : List Kind) (body : List NodeId) :
    (Module.numbered kinds body).nodes.KeysMatch := by
  intro id node h
  obtain ⟨k, hk, heq⟩ := mem_mapIdx.1 (IdMap.mem_of_getElem?_ofList h)
  cases heq
  rfl

/-! ## Ownership -/

namespace Module

/-- **The check of ownership is exact**, and so is the search for circles. -/
theorem treeProblems_exact (m : Module) (hkeys : m.nodes.KeysMatch) :
    (m.treeProblems m.parents = [] ↔
      (∀ p q c, Owns m.kind? p c → Owns m.kind? q c → p = q) ∧ (∀ x, ¬Encloses m.kind? x x) ∧
        (∀ s ∈ m.body, ∀ p, ¬Owns m.kind? p s) ∧ m.body.Nodup) ∧
      ∀ (r : Parents) (id : NodeId), r.inCycle id = true ↔ TransGen r.Owner id id := by
  refine ⟨(treeProblems_eq_nil hkeys).trans ⟨?_, ?_⟩, fun r id => Parents.inCycle_iff⟩
  · rintro ⟨hforest, hroots, hnodup⟩
    exact ⟨fun p q c => hforest.owner_unique, hforest.acyclic, hroots, hnodup⟩
  · rintro ⟨hunique, hacyclic, hroots, hnodup⟩
    exact ⟨⟨hunique _ _ _, hacyclic⟩, hroots, hnodup⟩

/-- Two blocks inside each other, and a statement that leads into them. -/
def ring : Module := .numbered [.block [2], .block [1], .block [1]] [3]

theorem ring_treeProblems : ring.nodes.KeysMatch ∧ ring.treeProblems ring.parents ≠ [] ∧
    TransGen ring.parents.Owner 1 1 ∧ ¬TransGen ring.parents.Owner 3 3 := by
  have hkeys : ring.nodes.KeysMatch := numbered_keysMatch _ _
  obtain ⟨htree, hcycle⟩ := treeProblems_exact ring hkeys
  have hinside : ring.parents.inCycle 1 = true := by decide +kernel
  have hbefore : ring.parents.inCycle 3 = false := by decide +kernel
  refine ⟨hkeys, fun hnone => ?_, (hcycle _ _).1 hinside, fun h => ?_⟩
  · have howns : ∀ p, ring.kind? p = some (.block [1]) → Owns ring.kind? p 1 := fun p hp =>
      ⟨_, hp, mem_singleton_self 1⟩
    have hsame : (2 : NodeId) = 3 :=
      (htree.1 hnone).1 2 3 1 (howns 2 (by decide +kernel)) (howns 3 (by decide +kernel))
    cases hsame
  · rw [(hcycle _ _).2 h] at hbefore
    cases hbefore

/-! ## Reachable declarations -/

/-- The node `x` is a top-level statement or below one. -/
def Reachable (m : Module) (x : NodeId) : Prop := ∃ s ∈ m.body, Contains m.kind? s x

namespace Sound

variable (h : m.Sound)
include h

theorem exists_top : ∃ top, Contains m.kind? top x ∧ ∀ p, ¬Owns m.kind? p top := by
  have hrow := Parents.isRow_ancestors h.acyclic_owner x
  generalize m.parents.ancestors x = row at hrow
  induction hrow with
  | @nil low hlow => exact ⟨low, .refl, (Parents.parent?_eq_none h.keys).1 hlow⟩
  | cons howner _ ih =>
    obtain ⟨top, htop, hroot⟩ := ih
    exact ⟨top, htop.tail (h.parent?_eq_some.1 howner), hroot⟩

theorem reachable_of_contains (hi : m.Reachable i) (ho : Contains m.kind? o i) : m.Reachable o := by
  obtain ⟨s, hs, hsi⟩ := hi
  rcases h.forest.contains_total hsi ho with hso | hos
  · exact ⟨s, hs, hso⟩
  · rcases ReflTransGen.cases_tail hos with rfl | ⟨p, -, hp⟩
    · exact ⟨s, hs, .refl⟩
    · exact absurd hp (h.roots s hs p)

end Sound

/-- **Declarations can be reached from their uses**, except for those below an orphan. -/
theorem reachable_or_orphaned (hvalid : m.isValid = true) (hi : m.Reachable i)
    (hik : m.kind? i = some (.identifier name (some d))) :
    m.Reachable d ∨
      (∀ o, ¬ScopeOwner m.kind? d o) ∧
        ∃ top, Contains m.kind? top d ∧ (∀ p, ¬Owns m.kind? p top) ∧ top ∉ m.body := by
  obtain ⟨hsound, hscope, -⟩ := isValid_iff.1 hvalid
  have hvisible : Visible m.kind? d i := by
    by_contra hnot
    have hmem : Problem.outOfScope i name d ∈ m.scopeProblems m.parents :=
      hsound.mem_scopeProblems.2 ⟨i, name, d, hik, .inl ⟨rfl, hnot⟩⟩
    rw [hscope] at hmem
    exact not_mem_nil hmem
  by_cases howner : ∃ o, ScopeOwner m.kind? d o
  · obtain ⟨o, ho⟩ := howner
    obtain ⟨s, hs, hso⟩ := hsound.reachable_of_contains hi (hvisible o ho)
    exact .inl ⟨s, hs, hso.trans ho.contains⟩
  · obtain ⟨top, htop, hroot⟩ := hsound.exists_top
    by_cases hbody : top ∈ m.body
    · exact .inl ⟨top, hbody, htop⟩
    · exact .inr ⟨fun o ho => howner ⟨o, ho⟩, top, htop, hroot, hbody⟩

def orphan : Module := .numbered [.declarator "a" none, .identifier "a" (some 1), .exprStmt 2] [3]

theorem orphan_declaration : orphan.isValid = true ∧ orphan.Reachable 2 ∧
    orphan.kind? 2 = some (.identifier "a" (some 1)) ∧ ¬orphan.Reachable 1 ∧
      ∃ top, Contains orphan.kind? top 1 ∧ (∀ p, ¬Owns orphan.kind? p top) ∧ top ∉ orphan.body := by
  have hvalid : orphan.isValid = true := by decide +kernel
  have hkind : orphan.kind? 2 = some (.identifier "a" (some 1)) := by decide +kernel
  have hstmt : orphan.kind? 3 = some (.exprStmt 2) := by decide +kernel
  have huse : orphan.Reachable 2 := ⟨3, mem_singleton_self 3, .single ⟨_, hstmt, mem_singleton_self 2⟩⟩
  have hdeclaration : ¬orphan.Reachable 1 := by
    rintro ⟨s, hs, hcontains⟩
    obtain rfl : s = 3 := mem_singleton.1 hs
    have hnone : orphan.parents.parent? 1 = none := by decide +kernel
    have hroot := (Parents.parent?_eq_none (numbered_keysMatch _ _)).1 hnone
    rcases ReflTransGen.cases_tail hcontains with h | ⟨p, -, hp⟩
    · cases h
    · exact hroot p hp
  exact ⟨hvalid, huse, hkind, hdeclaration, ((reachable_or_orphaned hvalid huse hkind).resolve_left hdeclaration).2⟩

end Module

end Retarget
