import Retarget.Module.Json
import Retarget.Proofs.Table
import Retarget.Validate.Shape

/-!
# Fields of documents

What is written into a document is read back, field by field, and passes the check of its shape.

* `Json.find_of_mem` and `Json.lookup?_of_mem`: in a record whose names differ, the look-ups find what was written.
* `Json.list?_ofList`, `Json.idMap?_ofIdMap`: lists and tables are read back if their elements are.
* `Shape.Fits type value`: a value has nothing wrong with it where the type is asked for. `Shape.Holds` adds what is
  read from it.
-/

namespace Retarget

open List Std.ExtTreeMap

/-! ## Numbers as names -/

theorem toList_toString (n : Nat) : (toString n).toList = Nat.toDigits 10 n := by
  rw [Nat.toString_eq_repr, Nat.repr_eq_ofList_toDigits, String.toList_ofList]

theorem all_isDigit_toDigits (n : Nat) : (Nat.toDigits 10 n).all Char.isDigit = true :=
  all_eq_true.2 fun _ => Nat.isDigit_of_mem_toDigits (by decide) (by decide)

theorem notMem_toDigits {c : Char} (h : c.isDigit = false) (n : Nat) : c ∉ Nat.toDigits 10 n := by
  intro hc
  rw [all_eq_true.1 (all_isDigit_toDigits n) c hc] at h
  cases h

theorem isEmpty_toDigits (n : Nat) : (Nat.toDigits 10 n).isEmpty = false :=
  isEmpty_eq_false_iff.2 Nat.toDigits_ne_nil

variable {n : Nat} {x : Float} {ids : List NodeId}

theorem head?_toDigits_ne_zero (h : 0 < n) : (Nat.toDigits 10 n).head? ≠ some '0' := by
  induction n using Nat.strongRecOn with
  | ind n ih =>
    by_cases hn : n < 10
    · have hdigit : ∀ d < 10, 0 < d → Nat.digitChar d ≠ '0' := by decide
      rw [Nat.toDigits_of_lt_base hn]
      exact fun hzero => hdigit n hn h (Option.some.inj hzero)
    · rw [Nat.toDigits_of_base_le (by decide) (by omega), List.head?_append_of_ne_nil _ Nat.toDigits_ne_nil]
      exact ih (n / 10) (by omega) (by omega)

theorem toDigits_noLeadingZero : ((Nat.toDigits 10 n).length == 1 || (Nat.toDigits 10 n).head? != some '0') = true := by
  rcases Nat.eq_zero_or_pos n with rfl | hpos
  · rfl
  · simp [head?_toDigits_ne_zero hpos]

namespace Json

theorem digitsValue_toDigits (n : Nat) : digitsValue (Nat.toDigits 10 n) = n :=
  Nat.ofDigitChars_toDigits (by decide) (by decide)

theorem toDigits_injective : Function.Injective (Nat.toDigits 10) :=
  Function.LeftInverse.injective digitsValue_toDigits

theorem idName?_toString (h : n < 0x100000000) : idName? (toString n) = some n := by
  simp only [idName?, toList_toString, digitsValue_toDigits, isEmpty_toDigits, all_isDigit_toDigits,
    toDigits_noLeadingZero, h]
  rfl

end Json

theorem Shape.looseNat?_toString : looseNat? (toString n) = some n := by
  have hplus : ∀ rest, Nat.toDigits 10 n ≠ '+' :: rest := by
    intro rest h
    have hdigit := all_eq_true.1 (all_isDigit_toDigits n) '+' (h ▸ mem_cons_self)
    cases hdigit
  simp only [looseNat?, toList_toString]
  rw [isEmpty_toDigits, all_isDigit_toDigits, Json.digitsValue_toDigits]
  rfl

namespace Json

variable {α β : Type} {name : String} {value : Json} {fields before after : Fields} {read : Json → Option α}
  {write : α → Json}

/-! ## Looking fields up -/

section

variable (hnodup : (fields.map Prod.fst).Nodup)
include hnodup

theorem filter_of_mem (h : (name, value) ∈ fields) : fields.filter (·.1 == name) = [(name, value)] := by
  induction fields with
  | nil => cases h
  | cons field rest ih =>
    obtain ⟨hfield, hrest⟩ := nodup_cons.1 hnodup
    rcases mem_cons.1 h with rfl | h
    · have hnone : rest.filter (·.1 == name) = [] := by
        refine filter_eq_nil_iff.2 fun other hother heq => hfield ?_
        exact mem_map.2 ⟨other, hother, eq_of_beq heq⟩
      rw [filter_cons_of_pos (by simp), hnone]
    · have hne : field.1 ≠ name := fun heq => hfield (mem_map.2 ⟨_, h, heq.symm⟩)
      rw [filter_cons_of_neg (by simpa using hne), ih hrest h]

theorem find_of_mem (h : (name, value) ∈ fields) : find name fields = .once value := by
  rw [find, filter_of_mem hnodup h]

theorem lookup?_of_mem (h : (name, value) ∈ fields) : lookup? name fields = some value := by
  rw [lookup?, ← List.head?_filter, filter_of_mem hnodup h]
  rfl

end

section

variable (h : name ∉ before.map Prod.fst)
include h

theorem filter_of_not_mem : before.filter (·.1 == name) = [] :=
  filter_eq_nil_iff.2 fun field hfield heq => h (mem_map.2 ⟨field, hfield, eq_of_beq heq⟩)

theorem find_append_right : find name (before ++ after) = find name after := by
  rw [find, filter_append, filter_of_not_mem h, nil_append, find]

theorem lookup?_append_right : lookup? name (before ++ after) = lookup? name after := by
  rw [lookup?, lookup?, ← List.head?_filter, ← List.head?_filter, filter_append, filter_of_not_mem h,
    nil_append]

end

/-! ## Reading what was written -/

section

variable (h : find name fields = .once value)
include h

theorem required_of_find : required read name fields = read value := by
  rw [required, h]

theorem defaulted_of_find {default : α} : defaulted default read name fields = read value := by
  rw [defaulted, h]

theorem optional_of_once (hnull : value ≠ .null) : optional read name fields = (read value).map some := by
  simp only [optional, h]

end

variable {a : Option α}

theorem optional_of_find (h : find name fields = .once (.ofOption write a)) (hread : ∀ x ∈ a, read (write x) = some x)
    (hnull : ∀ x, write x ≠ .null) : optional read name fields = some a := by
  cases a with
  | none => rw [optional, h]; rfl
  | some x => rw [optional_of_once h (hnull x), ofOption, hread x rfl]; rfl

theorem optional_of_elim (h : find name fields = a.elim .absent fun x => .once (write x))
    (hread : ∀ x ∈ a, read (write x) = some x) (hnull : ∀ x, write x ≠ .null) : optional read name fields = some a := by
  cases a with
  | none => rw [optional, h]; rfl
  | some x => rw [optional_of_once h (hnull x), hread x rfl]; rfl

theorem natBelow?_ofNat {bound : Nat} (h : n < bound) : natBelow? bound (.ofNat n) = some n := if_pos h

theorem float?_ofFloat (h : x.isFinite = true) : float? (.ofFloat x) = some x := by
  rw [ofFloat, if_pos h]
  rfl

theorem mapM_map {f : β → Option α} {g : α → β} {l : List α} (h : ∀ a ∈ l, f (g a) = some a) :
    (l.map g).mapM f = some l := by
  induction l with
  | nil => rfl
  | cons a l ih =>
    obtain ⟨ha, hl⟩ := forall_mem_cons.1 h
    rw [map_cons, mapM_cons, ha, ih hl]
    rfl

theorem list?_ofList {l : List α} (h : ∀ a ∈ l, read (write a) = some a) : list? read (.ofList write l) = some l :=
  mapM_map h

theorem ids?_ofList (h : ∀ id ∈ ids, id < 0x100000000) : ids? (.ofList .ofNat ids) = some ids :=
  list?_ofList fun id hid => natBelow?_ofNat (h id hid)

theorem ofList_toList (map : IdMap α) : Std.ExtTreeMap.ofList map.toList = map := by
  refine ext_getElem? fun id => Option.ext fun a => ?_
  refine Iff.trans ⟨IdMap.mem_of_getElem?_ofList, fun h => ?_⟩ mem_toList_iff_getElem?_eq_some
  exact Std.ExtTreeMap.getElem?_ofList_of_mem Std.ReflCmp.compare_self distinct_keys_toList h

theorem idMap?_ofIdMap {map : IdMap α} (h : ∀ id a, map[id]? = some a → id < 0x100000000 ∧ read (write a) = some a) :
    idMap? read (.ofIdMap write map) = some map := by
  simp only [idMap?, ofIdMap]
  rw [mapM_map]
  · exact congrArg some (ofList_toList map)
  · intro entry hentry
    obtain ⟨hid, hread⟩ := h _ _ (mem_toList_iff_getElem?_eq_some.1 hentry)
    simp only [idName?_toString hid, hread]
    rfl

/-! ## Reading a record from left to right -/

def Carries (record fields : Fields) : Prop := ∀ field ∈ fields, find field.1 record = .once field.2

section Carries

variable {record : Fields}

theorem Carries.head (h : Carries record ((name, value) :: fields)) : find name record = .once value :=
  h (name, value) mem_cons_self

theorem Carries.tail (h : Carries record ((name, value) :: fields)) : Carries record fields :=
  fun field hfield => h field (mem_cons_of_mem _ hfield)

end Carries

end Json

/-! ## Checking what was written -/

namespace Shape

open Json

variable {type : FieldType} {value : Json} {n : Nat}

/-- There is nothing wrong with a value where the type is asked for. -/
def Fits (type : FieldType) (value : Json) : Prop := ∀ path, fieldProblems path type (some value) = []

theorem Fits.of_value (h : ∀ path, valueProblems path type value = []) : Fits type value := by
  intro path
  cases value with
  | null =>
    rw [fieldProblems, h path]
    exact ite_self _
  | _ => exact h path

theorem require_true {ok : Bool} {path cause : String} (h : ok = true) : require ok path cause = [] := if_pos h

theorem isId_ofNat (h : n < 0x100000000) : isId (.ofNat n) = true := decide_eq_true h

/-- A value fits where the type is asked for, and `get` finds `a` in a field with the value. -/
structure Holds {α : Type} (type : FieldType) (value : Json) (get : String → Fields → Option α) (a : α) : Prop where
  fits : Fits type value
  get_eq : ∀ {name record}, find name record = .once value → get name record = some a

variable {α : Type}

theorem Holds.required {read : Json → Option α} {a : α} (hfits : ∀ path, valueProblems path type value = [])
    (hread : read value = some a) : Holds type value (required read) a :=
  ⟨.of_value hfits, fun h => (required_of_find h).trans hread⟩

theorem holds_id (h : n < 0x100000000) : Holds .id (.ofNat n) (required id?) n :=
  .required (fun _ => require_true (isId_ofNat h)) (natBelow?_ofNat h)

theorem holds_optId {id : Option NodeId} (h : ∀ n ∈ id, n < 0x100000000) :
    Holds .optId (.ofOption .ofNat id) (optional id?) id where
  fits := by
    cases id with
    | none => exact fun _ => rfl
    | some n => exact .of_value fun _ => require_true (isId_ofNat (h n rfl))
  get_eq hfind := optional_of_find hfind (fun n hn => natBelow?_ofNat (h n hn)) fun n heq => by cases heq

theorem flatten_mapIdx_eq_nil {β : Type} {f : Nat → α → List β} {l : List α} (h : ∀ a ∈ l, ∀ i, f i a = []) :
    (l.mapIdx f).flatten = [] := by
  refine flatten_eq_nil_iff.2 fun problems hmem => ?_
  obtain ⟨i, hi, rfl⟩ := mem_mapIdx.1 hmem
  exact h _ (getElem_mem hi) i

theorem holds_ids (h : ∀ id ∈ ids, id < 0x100000000) : Holds .ids (.ofList .ofNat ids) (required ids?) ids := by
  refine .required (fun path => flatten_mapIdx_eq_nil fun item hitem i => require_true ?_) (ids?_ofList h)
  obtain ⟨id, hid, rfl⟩ := mem_map.1 hitem
  exact isId_ofNat (h id hid)

theorem holds_items {items : List ListItem} (h : ∀ item ∈ items, item.value < 0x100000000) :
    Holds .items (.ofList ListItem.toJson items) (required (list? ListItem.ofJson?)) items := by
  refine .required (fun path => flatten_mapIdx_eq_nil fun document hdocument i => ?_)
    (list?_ofList fun item hitem => ?_)
  · obtain ⟨item, hitem, rfl⟩ := mem_map.1 hdocument
    have hvalue : idProblems (element path i ++ ".value") (some (.ofNat item.value)) = [] :=
      require_true (isId_ofNat (h item hitem))
    change _ ++ idProblems (element path i ++ ".value") (some (.ofNat item.value)) ++ _ = []
    rw [hvalue]
    rfl
  · exact Option.bind_eq_some_iff.2 ⟨item.value, natBelow?_ofNat (h item hitem), rfl⟩

theorem holds_text {text : String} : Holds .text (.str text) (required string?) text :=
  .required (fun _ => rfl) rfl

theorem holds_optText (text : Option String) : Holds .optText (.ofOption .str text) (optional string?) text where
  fits := by cases text <;> exact fun _ => rfl
  get_eq hfind := optional_of_find hfind (fun _ _ => rfl) fun s heq => by cases heq

theorem holds_texts (texts : List String) : Holds .texts (.ofList .str texts) (required (list? string?)) texts := by
  refine .required (fun path => require_true (all_eq_true.2 fun text htext => ?_)) (list?_ofList fun _ _ => rfl)
  obtain ⟨s, -, rfl⟩ := mem_map.1 htext
  rfl

theorem holds_flag {b : Bool} : Holds .flag (.bool b) (required bool?) b := .required (fun _ => rfl) rfl

theorem holds_number (h : x.isFinite = true) : Holds .number (.ofFloat x) (required float?) x := by
  refine .required (fun _ => ?_) (float?_ofFloat h)
  rw [ofFloat, if_pos h]
  rfl

theorem holds_word {all : List α} {text : α → String} {w : α} (h : ∀ w, all.find? (text · == text w) = some w) :
    Holds (.oneOf (all.map text)) (.str (text w)) (required (keyword? true fun s => all.find? (text · == s))) w :=
  .required (fun _ => require_true (contains_iff_mem.2 (mem_map_of_mem (mem_of_find?_eq_some (h w))))) (h w)

end Shape

end Retarget
