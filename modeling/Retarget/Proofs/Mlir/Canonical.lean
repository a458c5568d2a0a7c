import Mathlib.Data.List.Forall2
import Retarget.Mlir.Canonical
import Retarget.Proofs.Mlir.Scope

/-!
# Canonical forms are well-scoped

Each pass keeps a program well-scoped.

* `Op.foldList_foldsTo`: folding keeps all results and can only drop operands.
* `Op.mergeList_merged`: after merging, what stands for a result can be seen wherever the result could be.
* `Op.sweepList_swept`: removing drops only results that nobody uses.
* `canonical_wellScoped`: the canonical form of a well-scoped program is well-scoped.
-/

namespace Retarget.Mlir

open List Std.ExtTreeMap

namespace Op

variable {visible shown : List Value} {head : Head} {regions : List (List Op)} {ops more : List Op}

/-! ## Folding -/

structure FoldsTo (ops folded : List Op) : Prop where
  results_eq : listResults folded = listResults ops
  listScoped : ∀ visible, ListScoped visible ops → ListScoped visible folded

variable {known : Constants} {folded : List (List Op)} {available : Available} {replaced : Replaced}
  {used : Std.ExtTreeSet Value}

theorem foldRegions_foldsTo (h : ∀ region ∈ regions, ∀ known, FoldsTo region (foldList known region).1) :
    List.Forall₂ FoldsTo regions (foldRegions known regions).1 := by
  induction regions generalizing known with
  | nil => exact .nil
  | cons region regions ih =>
    have hregion := h region mem_cons_self known
    exact .cons hregion (ih fun other hother => h other (mem_cons_of_mem _ hother))

theorem results_eq_of_foldsTo (h : List.Forall₂ FoldsTo regions folded) :
    folded.flatMap listResults = regions.flatMap listResults := by
  induction h with
  | nil => rfl
  | cons hregion _ ih => rw [flatMap_cons, flatMap_cons, hregion.results_eq, ih]

theorem listScoped_of_foldsTo (h : List.Forall₂ FoldsTo regions folded)
    (hscoped : ∀ region ∈ regions, ListScoped visible region) : ∀ region ∈ folded, ListScoped visible region := by
  induction h with
  | nil => simp
  | cons hregion _ ih =>
    simp only [mem_cons, forall_eq_or_imp] at hscoped ⊢
    exact ⟨hregion.listScoped _ hscoped.1, ih hscoped.2⟩

theorem foldList_cons :
    ∃ folded inside later,
    (foldList known (mk head regions :: more)).1 =
      mk folded (foldRegions inside regions).1 :: (foldList later more).1 ∧
      folded.result = head.result ∧ folded.operands ⊆ head.operands ∧ (regions = [] ∨ folded = head) := by
  have hfold : (head.fold known).result = head.result ∧ (head.fold known).operands ⊆ head.operands := by
    unfold Head.fold
    split <;> simp [Head.constant]
  refine ⟨if regions.isEmpty then head.fold known else head, _, _, rfl, ?_⟩
  cases regions with
  | nil => exact ⟨hfold.1, hfold.2, .inl rfl⟩
  | cons region regions => exact ⟨rfl, List.Subset.refl _, .inr rfl⟩

theorem foldList_foldsTo : FoldsTo ops (foldList known ops).1 := by
  induction ops using list_induction generalizing known with
  | nil => exact ⟨rfl, fun _ h => h⟩
  | cons head regions more hregions hmore =>
    obtain ⟨folded, inside, later, heq, hresult, hoperands, hhead⟩ :=
      foldList_cons
    have hinside : List.Forall₂ FoldsTo regions (foldRegions inside regions).1 :=
      foldRegions_foldsTo fun region h _ => hregions region h
    have hrest : FoldsTo more (foldList later more).1 := hmore
    rw [heq]
    constructor
    case results_eq =>
      rw [listResults_cons, listResults_cons, hresult, results_eq_of_foldsTo hinside, hrest.results_eq]
    case listScoped =>
      intro visible h
      obtain ⟨huses, hscoped, hlater⟩ := listScoped_cons.1 h
      refine listScoped_cons.2 ⟨List.Subset.trans hoperands huses, ?_, hresult ▸ hrest.listScoped _ hlater⟩
      rcases hhead with rfl | rfl
      · simp [foldRegions]
      · exact listScoped_of_foldsTo hinside hscoped

/-! ## Merging -/

theorem mergeable?_eq_some {result : Value} :
    head.mergeable? = some result ↔ head.opcode.isMergeable ∧ head.result = some result := by
  unfold Head.mergeable?
  simp_all

/-- What is known before operations with the results `later` are merged, where `visible` could be seen before
merging and `shown` can be seen after it: what stands for a result can be seen wherever the result could be. -/
structure Merging (visible shown : List Value) (available : Available) (replaced : Replaced)
    (later : List Value) : Prop where
  nodup : later.Nodup
  unseen : ∀ v ∈ later, v ∉ visible
  unreplaced : ∀ v ∈ later, replaced[v]? = none
  stands : ∀ v ∈ visible, replaced.getD v v ∈ shown
  available_mem : ∀ (key : String) (v : Value), available[key]? = some v → v ∈ shown

structure Merged (shown : List Value) (replaced : Replaced) (ops merged : List Op) (replaced' : Replaced) : Prop where
  listScoped : ListScoped shown merged
  results_sublist : (listResults merged).Sublist (listResults ops)
  replaced_eq : ∀ v, v ∉ listResults ops → replaced'[v]? = replaced[v]?

namespace Merging

variable {available : Available} {replaced replaced' : Replaced} {later rest : List Value} {result v : Value}
  {key : String}

section

variable (h : Merging visible shown available replaced later)
include h

theorem operands_subset (hoperands : head.operands ⊆ visible) : (head.replace replaced).operands ⊆ shown := by
  intro v hv
  obtain ⟨w, hw, rfl⟩ := mem_map.1 hv
  exact h.stands w (hoperands hw)

theorem sublist (hrest : rest.Sublist later) : Merging visible shown available replaced rest :=
  { h with
    nodup := hrest.nodup h.nodup
    unseen := fun v hv => h.unseen v (hrest.subset hv)
    unreplaced := fun v hv => h.unreplaced v (hrest.subset hv) }

theorem congr
    (hvisible : ∀ v ∈ visible, replaced'[v]? = replaced[v]?) (hlater : ∀ v ∈ later, replaced'[v]? = replaced[v]?) :
    Merging visible shown available replaced' later :=
  { h with
    unreplaced := fun v hv => (hlater v hv).trans (h.unreplaced v hv)
    stands := fun v hv => by
      rw [getD_eq_getD_getElem?, hvisible v hv, ← getD_eq_getD_getElem?]
      exact h.stands v hv }

theorem inside (hrest : rest.Sublist later) :
    Merging (head.inside visible) (head.inside shown) (if head.opcode.isIsolated then ∅ else available) replaced
      rest := by
  unfold Head.inside
  split
  · refine { h.sublist hrest with unseen := by simp, stands := by simp, available_mem := fun key v hv => ?_ }
    cases hv
  · exact h.sublist hrest

end

theorem keep {result : Option Value} (h : Merging visible shown available replaced (result.toList ++ rest)) :
    Merging (result.toList ++ visible) (result.toList ++ shown) available replaced rest := by
  have hnodup := nodup_append.1 h.nodup
  constructor
  case nodup => exact hnodup.2.1
  case unseen =>
    intro v hv hmem
    rcases mem_append.1 hmem with hmem | hmem
    · exact hnodup.2.2 v hmem v hv rfl
    · exact h.unseen v (mem_append_right _ hv) hmem
  case unreplaced => exact fun v hv => h.unreplaced v (mem_append_right _ hv)
  case stands =>
    intro v hv
    rcases mem_append.1 hv with hv | hv
    · rw [getD_eq_getD_getElem?, h.unreplaced v (mem_append_left _ hv)]
      exact mem_append_left _ hv
    · exact mem_append_right _ (h.stands v hv)
  case available_mem => exact fun key v hv => mem_append_right _ (h.available_mem key v hv)

/-- What is replaced inside of an operation is seen neither by it nor by those that follow. -/
theorem untouched {result : Option Value}
    (h : Merging visible shown available replaced (result.toList ++ later ++ rest))
    (heq : ∀ v, v ∉ later → replaced'[v]? = replaced[v]?) :
    (∀ v ∈ result.toList ++ visible, replaced'[v]? = replaced[v]?) ∧ ∀ v ∈ rest, replaced'[v]? = replaced[v]? := by
  have hnodup := nodup_append.1 h.nodup
  refine ⟨fun v hv => heq v fun hmem => ?_, fun v hv => heq v fun hmem => ?_⟩
  · rcases mem_append.1 hv with hv | hv
    · exact (nodup_append.1 hnodup.1).2.2 v hv v hmem rfl
    · exact h.unseen v (mem_append_left _ (mem_append_right _ hmem)) hv
  · exact hnodup.2.2 v (mem_append_right _ hmem) v hv rfl

theorem remember (h : Merging visible shown available replaced later) (hresult : result ∈ shown) :
    Merging visible shown (available.insert key result) replaced later := by
  refine { h with available_mem := fun other v hv => ?_ }
  rw [Std.ExtTreeMap.getElem?_insert] at hv
  split at hv
  · exact Option.some.inj hv ▸ hresult
  · exact h.available_mem other v hv

theorem drop (h : Merging visible shown available replaced (result :: rest)) (hearlier : v ∈ shown) :
    Merging (result :: visible) shown available (replaced.insert result v) rest := by
  obtain ⟨hnew, hnodup⟩ := nodup_cons.1 h.nodup
  constructor
  case nodup => exact hnodup
  case unseen =>
    intro w hw hmem
    rcases mem_cons.1 hmem with rfl | hmem
    · exact hnew hw
    · exact h.unseen w (mem_cons_of_mem _ hw) hmem
  case unreplaced =>
    intro w hw
    have hne : result ≠ w := fun heq => hnew (heq ▸ hw)
    rw [Std.ExtTreeMap.getElem?_insert, if_neg (by simpa using hne)]
    exact h.unreplaced w (mem_cons_of_mem _ hw)
  case stands =>
    intro w hw
    rw [getD_insert]
    split
    · exact hearlier
    · rcases mem_cons.1 hw with rfl | hw
      · simp_all
      · exact h.stands w hw
  case available_mem => exact h.available_mem

end Merging

def MergesWell (ops : List Op) : Prop :=
  ∀ visible shown available replaced, ListScoped visible ops →
    Merging visible shown available replaced (listResults ops) →
      Merged shown replaced ops (mergeList available replaced ops).1 (mergeList available replaced ops).2

theorem mergeRegions_merged (hregions : ∀ region ∈ regions, MergesWell region)
    (hscoped : ∀ region ∈ regions, ListScoped visible region)
    (h : Merging visible shown available replaced (regions.flatMap listResults)) :
    (∀ region ∈ (mergeRegions available replaced regions).1, ListScoped shown region) ∧
      ((mergeRegions available replaced regions).1.flatMap listResults).Sublist (regions.flatMap listResults) ∧
      ∀ v, v ∉ regions.flatMap listResults → (mergeRegions available replaced regions).2[v]? = replaced[v]? := by
  induction regions generalizing replaced with
  | nil => simp [mergeRegions]
  | cons region regions ih =>
    simp only [mem_cons, forall_eq_or_imp] at hregions hscoped
    rw [flatMap_cons] at h ⊢
    have hnodup := nodup_append.1 h.nodup
    have hfirst := hregions.1 _ _ _ _ hscoped.1 (h.sublist (sublist_append_left _ _))
    have hrest : Merging visible shown available (mergeList available replaced region).2
        (regions.flatMap listResults) := by
      refine (h.sublist (sublist_append_right _ _)).congr (fun v hv => ?_) fun v hv => ?_
      · exact hfirst.replaced_eq v fun hmem => h.unseen v (mem_append_left _ hmem) hv
      · exact hfirst.replaced_eq v fun hmem => hnodup.2.2 v hmem v hv rfl
    obtain ⟨hlater, hsublist, heq⟩ := ih hregions.2 hscoped.2 hrest
    rw [mergeRegions]
    refine ⟨?_, hfirst.results_sublist.append hsublist, fun v hv => ?_⟩
    · simpa using ⟨hfirst.listScoped, hlater⟩
    · rw [mem_append, not_or] at hv
      exact (heq v hv.2).trans (hfirst.replaced_eq v hv.1)

theorem Merged.cons {replaced₁ replaced₂ : Replaced} {later : List Value} {merged : List (List Op)} {rest : List Op}
    (h : Merging visible shown available replaced later) (hoperands : head.operands ⊆ visible)
    (hscoped : ∀ region ∈ merged, ListScoped (head.inside shown) region)
    (hsublist : (merged.flatMap listResults).Sublist (regions.flatMap listResults))
    (hreplaced : ∀ v, v ∉ regions.flatMap listResults → replaced₁[v]? = replaced[v]?)
    (hrest : Merged (head.result.toList ++ shown) replaced₁ more rest replaced₂) :
    Merged shown replaced (Op.mk head regions :: more) (Op.mk (head.replace replaced) merged :: rest) replaced₂ where
  listScoped := listScoped_cons.2 ⟨h.operands_subset hoperands, hscoped, hrest.listScoped⟩
  results_sublist := by
    rw [listResults_cons, listResults_cons]
    exact ((List.Sublist.refl _).append hsublist).append hrest.results_sublist
  replaced_eq := by
    intro v hv
    rw [listResults_cons, mem_append, mem_append, not_or, not_or] at hv
    exact (hrest.replaced_eq v hv.2).trans (hreplaced v hv.1.2)

theorem mergeList_merged : MergesWell ops := by
  induction ops using list_induction with
  | nil =>
    intro visible shown available replaced hscoped h
    rw [mergeList]
    exact ⟨trivial, .slnil, fun _ _ => rfl⟩
  | cons head regions more hregions hmore =>
    intro visible shown available replaced hscoped h
    obtain ⟨hoperands, hinside, hlater⟩ := listScoped_cons.1 hscoped
    rw [listResults_cons] at h
    have hafter : Merging (head.result.toList ++ visible) (head.result.toList ++ shown) available replaced
        (listResults more) :=
      (h.sublist ((sublist_append_left _ _).append (List.Sublist.refl _))).keep
    cases regions with
    | nil =>
      rw [mergeList]
      split
      case h_1 => exact .cons h hoperands (by simp) .slnil (fun _ _ => rfl) (hmore _ _ _ _ hlater hafter)
      case h_2 result hmergeable =>
        have hresult : head.result = some result := (mergeable?_eq_some.1 hmergeable).2
        split
        case h_1 earlier hearlier =>
          rw [hresult] at h hlater
          have hrest := hmore _ _ _ _ hlater (h.drop (h.available_mem _ _ hearlier))
          refine ⟨hrest.listScoped, hrest.results_sublist.trans ?_, fun v hv => ?_⟩
          · exact sublist_append_right _ _
          · rw [listResults_cons, hresult] at hv
            have hne : result ≠ v ∧ v ∉ listResults more := by simpa [eq_comm] using hv
            rw [hrest.replaced_eq v hne.2, Std.ExtTreeMap.getElem?_insert, if_neg (by simpa using hne.1)]
        case h_2 =>
          have hmem : result ∈ head.result.toList ++ shown := by simp [hresult]
          exact .cons h hoperands (by simp) .slnil (fun _ _ => rfl) (hmore _ _ _ _ hlater (hafter.remember hmem))
    | cons region regions =>
      have hinner : (List.flatMap listResults (region :: regions)).Sublist (head.result.toList ++
          List.flatMap listResults (region :: regions) ++ listResults more) :=
        (sublist_append_right _ _).trans (sublist_append_left _ _)
      obtain ⟨hmerged, hsublist, heq⟩ := mergeRegions_merged hregions hinside (h.inside hinner)
      rw [mergeRegions] at hmerged hsublist heq
      rw [mergeList]
      obtain ⟨hvisible, hrest⟩ := h.untouched heq
      exact .cons h hoperands hmerged hsublist heq (hmore _ _ _ _ hlater (hafter.congr hvisible hrest))

/-! ## Removing -/

theorem regionsUses_eq : regionsUses regions = regions.flatMap listUses := by
  induction regions with
  | nil => rfl
  | cons region regions ih => simp [regionsUses, ih]

theorem listUses_cons : listUses (mk head regions :: more) =
    head.operands ++ regions.flatMap listUses ++ listUses more := by
  rw [listUses, uses, regionsUses_eq]

theorem sweepRegions_eq : sweepRegions used regions = regions.map (sweepList used) := by
  induction regions with
  | nil => rfl
  | cons region regions ih => simp [sweepRegions, ih]

structure Swept (shown : List Value) (ops swept : List Op) : Prop where
  listScoped : ListScoped shown swept
  results_sublist : (listResults swept).Sublist (listResults ops)

theorem flatMap_sublist {f : List Op → List Op}
    (h : ∀ region ∈ regions, (listResults (f region)).Sublist (listResults region)) :
    ((regions.map f).flatMap listResults).Sublist (regions.flatMap listResults) := by
  induction regions with
  | nil => exact .slnil
  | cons region regions ih =>
    simp only [mem_cons, forall_eq_or_imp] at h
    exact h.1.append (ih h.2)

theorem sweepList_swept (h : ListScoped visible ops) (huses : ∀ v ∈ listUses ops, used.contains v = true)
    (hshown : ∀ v ∈ visible, used.contains v = true → v ∈ shown) : Swept shown ops (sweepList used ops) := by
  induction ops using list_induction generalizing visible shown with
  | nil => exact ⟨trivial, .slnil⟩
  | cons head regions more hregions hmore =>
    obtain ⟨hoperands, hscoped, hlater⟩ := listScoped_cons.1 h
    simp only [listUses_cons, mem_append, mem_flatMap] at huses
    rw [sweepList]
    split
    case isTrue hdead =>
      -- The result of a dead operation is not used, so nobody misses it.
      have hkept (v : Value) (hv : v ∈ head.result.toList ++ visible) (hused : used.contains v = true) :
          v ∈ shown := by
        rcases mem_append.1 hv with hv | hv
        · have hresult : head.result = some v := by simpa using hv
          rw [isDead, hresult, Option.elim_some, hused, Bool.not_true, Bool.and_false] at hdead
          cases hdead
        · exact hshown v hv hused
      have hrest := hmore hlater (fun v hv => huses v (.inr hv)) hkept
      refine ⟨hrest.listScoped, hrest.results_sublist.trans ?_⟩
      exact sublist_append_right _ _
    case isFalse =>
      have hinside (region : List Op) (hregion : region ∈ regions) :
          Swept (head.inside shown) region (sweepList used region) := by
        refine hregions region hregion (hscoped region hregion)
          (fun v hv => huses v (.inl (.inr ⟨region, hregion, hv⟩))) fun v hv hused => ?_
        rw [mem_inside] at hv ⊢
        exact ⟨hv.1, hshown v hv.2 hused⟩
      have hkept (v : Value) (hv : v ∈ head.result.toList ++ visible) (hused : used.contains v = true) :
          v ∈ head.result.toList ++ shown := by
        rcases mem_append.1 hv with hv | hv
        · exact mem_append_left _ hv
        · exact mem_append_right _ (hshown v hv hused)
      have hrest := hmore hlater (fun v hv => huses v (.inr hv)) hkept
      rw [sweep, sweepRegions_eq]
      constructor
      case listScoped =>
        refine listScoped_cons.2 ⟨fun v hv => ?_, fun region hregion => ?_, hrest.listScoped⟩
        · exact hshown v (hoperands hv) (huses v (.inl (.inl hv)))
        · obtain ⟨before, hbefore, rfl⟩ := mem_map.1 hregion
          exact (hinside before hbefore).listScoped
      case results_sublist =>
        rw [listResults_cons, listResults_cons]
        have hsublist := flatMap_sublist fun region hregion => (hinside region hregion).results_sublist
        exact ((List.Sublist.refl _).append hsublist).append hrest.results_sublist

/-! ## All passes -/

theorem WellScoped.fold (h : WellScoped ops) : WellScoped (foldList ∅ ops).1 where
  listScoped := foldList_foldsTo.listScoped _ h.listScoped
  nodup := by
    rw [foldList_foldsTo.results_eq]
    exact h.nodup

theorem WellScoped.merging (h : WellScoped ops) : Merging [] [] ∅ ∅ (listResults ops) := by
  refine ⟨h.nodup, by simp, fun v _ => ?_, by simp, fun key v hv => ?_⟩
  · exact Std.ExtTreeMap.getElem?_empty
  · cases hv

theorem WellScoped.merge (h : WellScoped ops) : WellScoped (mergeList ∅ ∅ ops).1 := by
  have hmerged := mergeList_merged [] [] ∅ ∅ h.listScoped h.merging
  exact ⟨hmerged.listScoped, hmerged.results_sublist.nodup h.nodup⟩

theorem WellScoped.removeDead (h : WellScoped ops) : WellScoped (Mlir.removeDead ops) := by
  fun_induction Mlir.removeDead ops with
  | case1 ops swept _ ih =>
    have hswept : Swept [] ops swept := sweepList_swept h.listScoped (fun v hv => ?_) (by simp)
    · exact ih ⟨hswept.listScoped, hswept.results_sublist.nodup h.nodup⟩
    · simpa using hv
  | case2 => exact h

end Op

theorem canonical_wellScoped {ops : List Op} (h : Op.WellScoped ops) : Op.WellScoped (canonical ops) :=
  h.fold.merge.removeDead

end Retarget.Mlir
