import Mathlib.Data.List.Basic
import Retarget.Mlir.Basic

/-!
# Scopes of results

An operation sees the results of the operations before it in its region, and of those that the operation around
its region sees, unless that one is isolated. `Op.ListScoped visible ops` says that the operations `ops`, at a
place where the results `visible` can be seen, use nothing else. `Op.listResults ops` are all results of `ops` and
of what is inside of them.

* `Op.list_induction`: a property of all regions can be shown by following the operations of a region.
* `Op.WellScoped ops`: a program uses only what can be seen, and defines every result once.
-/

namespace Retarget.Mlir

/-- What the regions of an operation see, of what can be seen around it. -/
def Head.inside {α : Type} (h : Head) (visible : List α) : List α := if h.opcode.isIsolated then [] else visible

namespace Op

mutual

def Scoped (visible : List Value) : Op → Prop
  | mk head regions => head.operands ⊆ visible ∧ RegionsScoped (head.inside visible) regions

/-- Operations in a row use only what they see; each sees the results of those before it. -/
def ListScoped (visible : List Value) : List Op → Prop
  | [] => True
  | op :: more => Scoped visible op ∧ ListScoped (op.head.result.toList ++ visible) more

def RegionsScoped (visible : List Value) : List (List Op) → Prop
  | [] => True
  | region :: more => ListScoped visible region ∧ RegionsScoped visible more

end

mutual

def results : Op → List Value
  | mk head regions => head.result.toList ++ regionsResults regions

/-- The results of operations in a row and of those inside of them. -/
def listResults : List Op → List Value
  | [] => []
  | op :: more => results op ++ listResults more

def regionsResults : List (List Op) → List Value
  | [] => []
  | region :: more => listResults region ++ regionsResults more

end

/-- A program uses only what can be seen, and defines every result once. -/
structure WellScoped (ops : List Op) : Prop where
  listScoped : ListScoped [] ops
  nodup : (listResults ops).Nodup

/-! ## Following a program -/

mutual

variable {P : List Op → Prop}

/-- What holds of a region if it holds of the rest of it and of all regions inside of its first operation holds of
all regions. -/
@[elab_as_elim]
theorem list_induction (nil : P [])
    (cons : ∀ head regions more, (∀ region ∈ regions, P region) → P more → P (mk head regions :: more)) : ∀ ops, P ops
  | [] => nil
  | mk head regions :: more =>
    cons head regions more (regions_induction nil cons regions) (list_induction nil cons more)

theorem regions_induction (nil : P [])
    (cons : ∀ head regions more, (∀ region ∈ regions, P region) → P more → P (mk head regions :: more)) :
    ∀ regions : List (List Op), ∀ region ∈ regions, P region
  | [], _, h => absurd h List.not_mem_nil
  | first :: more, region, h => by
    have hfirst := list_induction nil cons first
    have hmore := regions_induction nil cons more
    rcases List.mem_cons.1 h with rfl | h
    · exact hfirst
    · exact hmore region h

end

variable {visible other : List Value} {head : Head} {regions : List (List Op)} {ops more : List Op}

theorem regionsScoped_iff : RegionsScoped visible regions ↔ ∀ region ∈ regions, ListScoped visible region := by
  induction regions with
  | nil => simp [RegionsScoped]
  | cons region regions ih => simp [RegionsScoped, ih]

theorem regionsResults_eq : regionsResults regions = regions.flatMap listResults := by
  induction regions with
  | nil => rfl
  | cons region regions ih => simp [regionsResults, ih]

theorem listScoped_cons : ListScoped visible (mk head regions :: more) ↔ head.operands ⊆ visible ∧
    (∀ region ∈ regions, ListScoped (head.inside visible) region) ∧
      ListScoped (head.result.toList ++ visible) more := by
  simp only [ListScoped, Scoped, regionsScoped_iff, Op.head, and_assoc]

theorem listResults_cons : listResults (mk head regions :: more) =
    head.result.toList ++ regions.flatMap listResults ++ listResults more := by
  rw [listResults, results, regionsResults_eq]

theorem listResults_append : listResults (ops ++ more) = listResults ops ++ listResults more := by
  induction ops with
  | nil => rfl
  | cons op ops ih => simp [listResults, ih]

theorem mem_inside {v : Value} : v ∈ head.inside visible ↔ head.opcode.isIsolated = false ∧ v ∈ visible := by
  unfold Head.inside
  simp_all

theorem ListScoped.mono (h : ListScoped visible ops) (hsubset : visible ⊆ other) : ListScoped other ops := by
  induction ops using list_induction generalizing visible other with
  | nil => trivial
  | cons head regions more hregions hmore =>
    obtain ⟨hoperands, hinside, hrest⟩ := listScoped_cons.1 h
    refine listScoped_cons.2 ⟨List.Subset.trans hoperands hsubset, fun region hregion => ?_, ?_⟩
    · refine hregions region hregion (hinside region hregion) fun v hv => ?_
      rw [mem_inside] at hv ⊢
      exact ⟨hv.1, hsubset hv.2⟩
    · exact hmore hrest (List.append_subset.2 ⟨by simp, by simp [hsubset]⟩)

/-- The results of operations in a row, without those inside of them. -/
def topResults (ops : List Op) : List Value := ops.filterMap (·.head.result)

theorem topResults_cons {op : Op} : topResults (op :: ops) = op.head.result.toList ++ topResults ops := by
  cases hresult : op.head.result <;> simp [topResults, hresult]

theorem ListScoped.append (h : ListScoped visible ops) (hmore : ListScoped (topResults ops ++ visible) more) :
    ListScoped visible (ops ++ more) := by
  induction ops generalizing visible with
  | nil => exact hmore
  | cons op ops ih =>
    refine ⟨h.1, ih h.2 (hmore.mono fun v hv => ?_)⟩
    rw [topResults_cons] at hv
    simpa only [List.mem_append, or_assoc, or_left_comm] using hv

end Op

end Retarget.Mlir
