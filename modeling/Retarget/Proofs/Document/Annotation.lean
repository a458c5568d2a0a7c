import Retarget.Proofs.Document.Field

/-!
# Places and types in documents

The places of nodes are read back if their numbers have the width of the format, and types if the properties of their
objects are sorted by name. Types are read with a bound on their levels, for which the depth of the document is enough.
-/

namespace Retarget

open Json List Option

/-! ## Places -/

structure Position.InRange (p : Position) : Prop where
  line_lt : p.line < 0x100000000
  column_lt : p.column < 0x100000000
  offset_lt : p.offset < 0x10000000000000000

theorem Position.ofJson?_toJson {p : Position} (h : p.InRange) : ofJson? p.toJson = some p := by
  refine bind_eq_some_iff.2 ⟨p.line, natBelow?_ofNat h.line_lt, ?_⟩
  refine bind_eq_some_iff.2 ⟨p.column, natBelow?_ofNat h.column_lt, ?_⟩
  exact bind_eq_some_iff.2 ⟨p.offset, natBelow?_ofNat h.offset_lt, rfl⟩

structure Span.InRange (s : Span) : Prop where
  start : s.start.InRange
  stop : s.stop.InRange
  fileId_lt : s.fileId < 0x100000000

theorem Span.ofJson?_toJson {s : Span} (h : s.InRange) : ofJson? s.toJson = some s := by
  refine bind_eq_some_iff.2 ⟨s.start, Position.ofJson?_toJson h.start, ?_⟩
  refine bind_eq_some_iff.2 ⟨s.stop, Position.ofJson?_toJson h.stop, ?_⟩
  exact bind_eq_some_iff.2 ⟨s.fileId, natBelow?_ofNat h.fileId_lt, rfl⟩

/-! ## Types -/

namespace Json

variable {α : Type} {fields : List (String × α)}

theorem lastOfEach_of_sorted (h : fields.Pairwise fun a b => a.1 < b.1) : lastOfEach fields = fields := by
  fun_induction lastOfEach fields with
  | case1 | case2 => rfl
  | case3 first second rest heq =>
    have hlt := (pairwise_cons.1 h).1 second mem_cons_self
    rw [eq_of_beq heq] at hlt
    exact absurd hlt (String.lt_irrefl _)
  | case4 first second rest hne ih => rw [ih h.of_cons]

theorem sortFields_of_sorted (h : fields.Pairwise fun a b => a.1 < b.1) : sortFields fields = fields := by
  rw [sortFields, mergeSort_of_pairwise, lastOfEach_of_sorted h]
  exact h.imp fun hlt => decide_eq_true (String.not_lt.1 (String.lt_asymm hlt))

end Json

namespace TypeDescriptor

mutual

/-- The properties of all objects in a type have ascending names. -/
def Sorted : TypeDescriptor → Prop
  | .primitive _ => True
  | .array element => element.Sorted
  | .object properties => properties.Pairwise (fun a b => a.1 < b.1) ∧ SortedFields properties
  | .function params returns => SortedList params ∧ returns.Sorted
  | .union members => SortedList members

/-- `Sorted` of every type. -/
def SortedList : List TypeDescriptor → Prop
  | [] => True
  | type :: rest => type.Sorted ∧ SortedList rest

/-- `Sorted` of every property. -/
def SortedFields : List (String × TypeDescriptor) → Prop
  | [] => True
  | (_, type) :: rest => type.Sorted ∧ SortedFields rest

end

mutual

theorem read?_toJson : ∀ {t : TypeDescriptor} {fuel : Nat} {indexed : Bool}, t.Sorted → t.toJson.depth ≤ fuel →
    read? fuel indexed t.toJson = some t
  | t, 0, indexed, h, hdepth => by cases t <;> simp [toJson, depth] at hdepth
  | .primitive name, fuel + 1, indexed, h, hdepth => rfl
  | .array element, fuel + 1, indexed, h, hdepth => by
    have helement : element.toJson.depth ≤ fuel := by
      simp only [toJson, depth, depthFields] at hdepth
      omega
    exact bind_eq_some_iff.2 ⟨element, read?_toJson h helement, rfl⟩
  | .object properties, fuel + 1, indexed, h, hdepth => by
    have hproperties : depthFields (toJsonFields properties) ≤ fuel := by
      simp only [toJson, depth, depthFields] at hdepth
      omega
    refine bind_eq_some_iff.2 ⟨properties, readFields_toJson h.2 hproperties, ?_⟩
    rw [sortFields_of_sorted h.1]
    rfl
  | .function params returns, fuel + 1, indexed, h, hdepth => by
    have hparams : depthList (toJsonList params) ≤ fuel := by
      simp only [toJson, depth, depthFields] at hdepth
      omega
    have hreturns : returns.toJson.depth ≤ fuel := by
      simp only [toJson, depth, depthFields] at hdepth
      omega
    refine bind_eq_some_iff.2 ⟨params, readList_toJson h.1 hparams, ?_⟩
    exact bind_eq_some_iff.2 ⟨returns, read?_toJson h.2 hreturns, rfl⟩
  | .union members, fuel + 1, indexed, h, hdepth => by
    have hmembers : depthList (toJsonList members) ≤ fuel := by
      simp only [toJson, depth, depthFields] at hdepth
      omega
    exact bind_eq_some_iff.2 ⟨members, readList_toJson h hmembers, rfl⟩

theorem readList_toJson : ∀ {ts : List TypeDescriptor} {fuel : Nat}, SortedList ts → depthList (toJsonList ts) ≤ fuel →
    (toJsonList ts).mapM (read? fuel true) = some ts
  | [], fuel, h, hdepth => rfl
  | t :: ts, fuel, h, hdepth => by
    simp only [toJsonList, depthList, Nat.max_le] at hdepth ⊢
    rw [mapM_cons, read?_toJson h.1 hdepth.1, readList_toJson h.2 hdepth.2]
    rfl

theorem readFields_toJson : ∀ {properties : List (String × TypeDescriptor)} {fuel : Nat}, SortedFields properties →
    depthFields (toJsonFields properties) ≤ fuel →
    ((toJsonFields properties).mapM fun (name, value) => do return (name, ← read? fuel true value)) = some properties
  | [], fuel, h, hdepth => rfl
  | (name, t) :: properties, fuel, h, hdepth => by
    simp only [toJsonFields, depthFields, Nat.max_le] at hdepth ⊢
    rw [mapM_cons, read?_toJson h.1 hdepth.1, readFields_toJson h.2 hdepth.2]
    rfl

end

theorem ofJson?_toJson {t : TypeDescriptor} (h : t.Sorted) : ofJson? t.toJson = some t :=
  read?_toJson h (Nat.le_refl _)

end TypeDescriptor

end Retarget
