import Retarget.Proofs.Document.Annotation
import Retarget.Proofs.Numeric.Whole

/-!
# The canonical form of documents

Two objects with differing names have one normal form if they have the same fields (`Json.normalize_obj_congr`): the
order of the fields does not matter. `Shape.canonical` gives the fields of a node as the format writes them, from any
fields that it accepts.
-/

namespace Retarget

open List

namespace Json

mutual

/-- What the values of a document have in common: the names of an object differ, and numbers have their width. -/
def Proper : Json → Prop
  | .num n => n.InRange
  | .arr items => ProperList items
  | .obj fields => (fields.map Prod.fst).Nodup ∧ ProperFields fields
  | _ => True

/-- `Proper` of every element. -/
def ProperList : List Json → Prop
  | [] => True
  | item :: rest => item.Proper ∧ ProperList rest

/-- `Proper` of every member. -/
def ProperFields : List (String × Json) → Prop
  | [] => True
  | (_, value) :: rest => value.Proper ∧ ProperFields rest

end

variable {name : String} {value : Json} {fields a b : Fields}

theorem ProperList.of_mem {items : List Json} (h : ProperList items) {item : Json} (hitem : item ∈ items) :
    item.Proper := by
  induction items with
  | nil => cases hitem
  | cons first rest ih =>
    obtain ⟨hfirst, hrest⟩ := h
    rcases mem_cons.1 hitem with rfl | hitem
    · exact hfirst
    · exact ih hrest hitem

theorem ProperFields.of_mem (h : ProperFields fields) (hmem : (name, value) ∈ fields) : value.Proper := by
  induction fields with
  | nil => cases hmem
  | cons field rest ih =>
    obtain ⟨hfirst, hrest⟩ := h
    rcases mem_cons.1 hmem with rfl | hmem
    · exact hfirst
    · exact ih hrest hmem

/-! ## Fields without order -/

theorem mem_of_lookup? (h : lookup? name fields = some value) : (name, value) ∈ fields := by
  obtain ⟨field, hfind, rfl⟩ := Option.map_eq_some_iff.1 h
  have hname := List.find?_some hfind
  rw [← eq_of_beq hname]
  exact mem_of_find?_eq_some hfind

theorem lookup?_eq_none (h : lookup? name fields = none) : name ∉ fields.map Prod.fst := by
  intro hmem
  obtain ⟨field, hfield, rfl⟩ := mem_map.1 hmem
  have hnone := List.find?_eq_none.1 (Option.map_eq_none_iff.1 h) field hfield
  exact hnone (beq_self_eq_true _)

theorem find_of_lookup? (hnodup : (fields.map Prod.fst).Nodup) (h : lookup? name fields = some value) :
    find name fields = .once value := find_of_mem hnodup (mem_of_lookup? h)

theorem find_eq (hnodup : (fields.map Prod.fst).Nodup) (name : String) :
    find name fields = (lookup? name fields).elim .absent .once := by
  cases h : lookup? name fields with
  | none =>
    rw [find, filter_of_not_mem (lookup?_eq_none h)]
    rfl
  | some value => exact find_of_lookup? hnodup h

theorem eq_of_mem_of_mem (hnodup : (fields.map Prod.fst).Nodup) {v w : Json} (hv : (name, v) ∈ fields)
    (hw : (name, w) ∈ fields) : v = w :=
  Option.some.inj ((lookup?_of_mem hnodup hv).symm.trans (lookup?_of_mem hnodup hw))

theorem nodup_of_names (h : (fields.map Prod.fst).Nodup) : fields.Nodup :=
  List.Pairwise.of_map Prod.fst (fun _ _ hne heq => hne (congrArg Prod.fst heq)) h

theorem pairwise_mergeSort (fields : Fields) :
    (fields.mergeSort fun a b => a.1 ≤ b.1).Pairwise fun a b => a.1 ≤ b.1 := by
  have hsorted : (fields.mergeSort fun a b => a.1 ≤ b.1).Pairwise fun a b => decide (a.1 ≤ b.1) = true := by
    apply List.pairwise_mergeSort
    · intro a b c hab hbc
      exact decide_eq_true (String.le_trans (of_decide_eq_true hab) (of_decide_eq_true hbc))
    · intro a b
      simpa using String.le_total a.1 b.1
  exact hsorted.imp of_decide_eq_true

theorem sortFields_congr (hnodup : (a.map Prod.fst).Nodup) (h : a.Perm b) : sortFields a = sortFields b := by
  have hperm : (a.mergeSort fun x y => x.1 ≤ y.1).Perm (b.mergeSort fun x y => x.1 ≤ y.1) :=
    (mergeSort_perm a _).trans (h.trans (mergeSort_perm b _).symm)
  rw [sortFields]
  congr 1
  refine hperm.eq_of_pairwise ?_ (pairwise_mergeSort a) (pairwise_mergeSort b)
  rintro ⟨m, v⟩ ⟨n, w⟩ hv hw hmn hnm
  obtain rfl : m = n := String.le_antisymm hmn hnm
  have hv : (m, v) ∈ a := (mergeSort_perm a _).mem_iff.1 hv
  have hw : (m, w) ∈ a := h.mem_iff.2 ((mergeSort_perm b _).mem_iff.1 hw)
  rw [eq_of_mem_of_mem hnodup hv hw]

theorem normalizeFields_eq_map : normalizeFields fields = fields.map fun field => (field.1, field.2.normalize) := by
  induction fields with
  | nil => rfl
  | cons field rest ih => rw [normalizeFields, ih, map_cons]

theorem normalize_obj_congr (ha : (a.map Prod.fst).Nodup) (hb : (b.map Prod.fst).Nodup)
    (hnames : ∀ field ∈ a, field.1 ∈ b.map Prod.fst)
    (hvalues : ∀ field ∈ b, ∃ value, (field.1, value) ∈ a ∧ value.normalize = field.2.normalize) :
    (Json.obj a).normalize = (Json.obj b).normalize := by
  have hnames_eq (l : Fields) : (normalizeFields l).map Prod.fst = l.map Prod.fst := by
    rw [normalizeFields_eq_map, map_map]
    rfl
  have hmem : ∀ field, field ∈ normalizeFields a ↔ field ∈ normalizeFields b := by
    intro field
    rw [normalizeFields_eq_map, normalizeFields_eq_map, mem_map, mem_map]
    constructor
    · rintro ⟨⟨name, v⟩, hv, rfl⟩
      obtain ⟨other, hother, hname⟩ := mem_map.1 (hnames _ hv)
      obtain ⟨w, hw, heq⟩ := hvalues other hother
      rw [hname] at hw
      refine ⟨other, hother, ?_⟩
      rw [← heq, hname, eq_of_mem_of_mem ha hv hw]
    · rintro ⟨field, hfield, rfl⟩
      obtain ⟨w, hw, heq⟩ := hvalues field hfield
      exact ⟨(field.1, w), hw, by rw [heq]⟩
  have hna : ((normalizeFields a).map Prod.fst).Nodup := by rwa [hnames_eq]
  have hnb : ((normalizeFields b).map Prod.fst).Nodup := by rwa [hnames_eq]
  have hperm := (perm_ext_iff_of_nodup (nodup_of_names hna) (nodup_of_names hnb)).2 hmem
  rw [normalize, normalize, sortFields_congr hna hperm]

end Json

/-! ## Nodes as the format writes them -/

namespace Shape

open Json (Fields lookup?)

def isSilent : String × Json → Bool
  | ("span", .null) | ("type", .null) | ("synthetic", .bool false) => true
  | _ => false

def withDouble (kind : Option Json) : String × Json → String × Json
  | ("value", .num n) =>
    ("value", .num (if kind = some (.str "NumericLiteral") then .float n.toFloat else n))
  | field => field

/-- The optional fields of a kind that a record leaves out are `null`. -/
def missing (table : FieldTable) (fields : Fields) : Fields :=
  (table.filter fun entry => entry.2.isOptional && (lookup? entry.1 fields).isNone).map fun entry => (entry.1, .null)

def tableOf (fields : Fields) : FieldTable :=
  match lookup? "kind" fields with
  | some (.str kind) => (fieldsOf? kind).getD []
  | _ => []

/-- The fields of a node as the format writes them: nothing is added but the optional fields, nothing is left out but
what says nothing, and nothing is changed but the number of a literal. -/
def canonical (fields : Fields) : Fields :=
  (fields.filter fun field => !isSilent field).map (withDouble (lookup? "kind" fields)) ++
    missing (tableOf fields) fields

end Shape

end Retarget
