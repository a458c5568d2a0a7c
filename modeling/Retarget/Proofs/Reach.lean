import Mathlib.Logic.Relation
import Mathlib.Data.List.Basic
import Retarget.Reach

/-!
# Reachability

* `Reach.mem_within`: a search that runs for more rounds than there are nodes with successors finds exactly
  what can be reached from its roots.
-/

namespace Retarget

open Relation List

namespace Reach

variable {next : Nat → List Nat} {roots frontier ids : List Nat} {seen : IdSet} {rounds x : Nat} {limit : Nat}

theorem mem_addNew : (x ∈ (addNew ids seen).2 ↔ x ∈ seen ∨ x ∈ ids) ∧
    (x ∈ (addNew ids seen).1 ↔ x ∈ ids ∧ x ∉ seen) := by
  suffices h : ∀ (fresh : List Nat) (seen : IdSet),
      let found := ids.foldl
        (fun found id => if id ∈ found.2 then found else (found.1 ++ [id], found.2.insert id)) (fresh, seen)
      (x ∈ found.2 ↔ x ∈ seen ∨ x ∈ ids) ∧ (x ∈ found.1 ↔ x ∈ fresh ∨ x ∈ ids ∧ x ∉ seen) by
    exact (h [] seen).imp_right fun h => h.trans (by simp)
  induction ids with
  | nil => simp
  | cons id ids ih =>
    intro fresh seen
    dsimp only at ih ⊢
    rw [foldl_cons]
    by_cases hid : id ∈ seen
    · rw [if_pos hid, (ih fresh seen).1, (ih fresh seen).2]
      by_cases hx : x = id <;> simp [hid, hx]
    · simp only [hid, if_false, ih, Std.ExtTreeSet.mem_insert, mem_cons, mem_append, Nat.compare_eq_eq]
      by_cases hx : x = id
      · simp [hx, hid]
      · simp [hx, Ne.symm hx]

theorem mem_addNew_seen : x ∈ (addNew ids seen).2 ↔ x ∈ seen ∨ x ∈ ids := mem_addNew.1

theorem mem_addNew_fresh : x ∈ (addNew ids seen).1 ↔ x ∈ ids ∧ x ∉ seen := mem_addNew.2

theorem search_nil : search next rounds [] seen = seen := by cases rounds <;> rfl

theorem search_cons (h : frontier ≠ []) :
    search next (rounds + 1) frontier seen =
      search next rounds (addNew (frontier.flatMap next) seen).1 (addNew (frontier.flatMap next) seen).2 := by
  cases frontier with
  | nil => exact absurd rfl h
  | cons head tail => rfl

theorem search_sound {S : Nat → Prop} (hseen : ∀ y ∈ seen, S y) (hfrontier : ∀ y ∈ frontier, S y)
    (hclosed : ∀ y, S y → ∀ z ∈ next y, S z) (hx : x ∈ search next rounds frontier seen) : S x := by
  induction rounds generalizing frontier seen with
  | zero => exact hseen x hx
  | succ rounds ih =>
    by_cases hnil : frontier = []
    · rw [hnil] at hx
      exact hseen x hx
    have hnew : ∀ y ∈ frontier.flatMap next, S y := by
      intro y hy
      obtain ⟨z, hz, hyz⟩ := mem_flatMap.1 hy
      exact hclosed z (hfrontier z hz) y hyz
    rw [search_cons hnil] at hx
    refine ih (fun y hy => ?_) (fun y hy => hnew y (mem_addNew_fresh.1 hy).1) hx
    exact (mem_addNew_seen.1 hy).elim (hseen y) (hnew y)

theorem subset_search (hx : x ∈ seen) : x ∈ search next rounds frontier seen := by
  induction rounds generalizing frontier seen with
  | zero => exact hx
  | succ rounds ih =>
    by_cases hnil : frontier = []
    · rwa [hnil]
    · rw [search_cons hnil]
      exact ih (mem_addNew_seen.2 (.inl hx))

/-- Every round that finds something new has gone on from a node with successors, and `passed` has one of each
round. As there are at most `limit` of these, the last round finds nothing new. -/
theorem search_closed (passed : List Nat) (hlimit : ∀ l : List Nat, l.Nodup → (∀ y ∈ l, next y ≠ []) → l.length ≤ limit)
    (hnodup : passed.Nodup) (hpassed : ∀ y ∈ passed, next y ≠ [] ∧ y ∈ seen ∧ y ∉ frontier)
    (hrounds : limit < rounds + passed.length) (hfrontier : ∀ y ∈ frontier, y ∈ seen)
    (hclosed : ∀ y ∈ seen, y ∉ frontier → ∀ z ∈ next y, z ∈ seen)
    (hx : x ∈ search next rounds frontier seen) (y : Nat) (hy : y ∈ next x) : y ∈ search next rounds frontier seen := by
  induction rounds generalizing frontier seen passed with
  | zero =>
    have := hlimit passed hnodup fun y hy => (hpassed y hy).1
    omega
  | succ rounds ih =>
    by_cases hnil : frontier = []
    · subst hnil
      exact hclosed x hx (by simp) y hy
    rw [search_cons hnil] at hx ⊢
    have hnew : ∀ z, z ∈ (addNew (frontier.flatMap next) seen).2 →
        z ∉ (addNew (frontier.flatMap next) seen).1 → ∀ w ∈ next z,
          w ∈ (addNew (frontier.flatMap next) seen).2 := by
      intro z hz hzf w hw
      rw [mem_addNew_seen] at hz ⊢
      rw [mem_addNew_fresh] at hzf
      have hz : z ∈ seen := hz.elim id fun hz => by_contra fun hno => hzf ⟨hz, hno⟩
      by_cases hzf : z ∈ frontier
      · exact .inr (mem_flatMap.2 ⟨z, hzf, hw⟩)
      · exact .inl (hclosed z hz hzf w hw)
    by_cases hfresh : (addNew (frontier.flatMap next) seen).1 = []
    · rw [hfresh, search_nil] at hx ⊢
      exact hnew x hx (by simp [hfresh]) y hy
    · obtain ⟨w, hw⟩ := exists_mem_of_ne_nil _ hfresh
      obtain ⟨z, hz, hzw⟩ := mem_flatMap.1 (mem_addNew_fresh.1 hw).1
      refine ih (z :: passed) ?_ ?_ ?_ ?_ hnew hx
      · exact nodup_cons.2 ⟨fun hmem => (hpassed z hmem).2.2 hz, hnodup⟩
      · refine forall_mem_cons.2 ⟨⟨ne_nil_of_mem hzw, mem_addNew_seen.2 (.inl (hfrontier z hz)),
          fun hmem => (mem_addNew_fresh.1 hmem).2 (hfrontier z hz)⟩, fun u hu => ?_⟩
        obtain ⟨hne, hseen, -⟩ := hpassed u hu
        exact ⟨hne, mem_addNew_seen.2 (.inl hseen), fun hmem => (mem_addNew_fresh.1 hmem).2 hseen⟩
      · rw [length_cons]
        omega
      · intro u hu
        exact mem_addNew_seen.2 (.inr (mem_addNew_fresh.1 hu).1)

/-- **A long enough search is exact.** -/
theorem mem_within (hlimit : ∀ l : List Nat, l.Nodup → (∀ y ∈ l, next y ≠ []) → l.length ≤ limit)
    (hrounds : limit < rounds) :
    x ∈ within rounds next roots ↔ ∃ r ∈ roots, ReflTransGen (fun a b => b ∈ next a) r x := by
  have hroots : ∀ y, y ∈ (addNew roots ∅).2 ↔ y ∈ roots := fun y => by simp [mem_addNew_seen]
  have hfresh : ∀ y, y ∈ (addNew roots ∅).1 ↔ y ∈ roots := fun y => by simp [mem_addNew_fresh]
  constructor
  · refine search_sound (S := fun y => ∃ r ∈ roots, ReflTransGen (fun a b => b ∈ next a) r y) ?_ ?_ ?_
    · exact fun y hy => ⟨y, (hroots y).1 hy, .refl⟩
    · exact fun y hy => ⟨y, (hfresh y).1 hy, .refl⟩
    · rintro y ⟨r, hr, hry⟩ z hz
      exact ⟨r, hr, hry.tail hz⟩
  · rintro ⟨r, hr, hrx⟩
    induction hrx with
    | refl => exact subset_search ((hroots r).2 hr)
    | tail _ hz ih =>
      refine search_closed [] hlimit nodup_nil (by simp) hrounds ?_ ?_ ih _ hz
      · exact fun y hy => (hroots y).2 ((hfresh y).1 hy)
      · exact fun y hy => absurd ((hfresh y).2 ((hroots y).1 hy))

end Reach

end Retarget
