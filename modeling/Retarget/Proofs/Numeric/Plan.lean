import Retarget.Numeric.Plan
import Retarget.Proofs.Inversion
import Retarget.Proofs.Reachable

/-!
# Slots of numeric programs

* `NumericPlan.ofModule_parts`: which variables the functions of a layout and its initializer have.
* `NumericPlan.binding?_of_resolve?`: the slot of a name tells the name.
* `NumericPlan.slots_apart`: different names have different slots, and all variables of a function have one.
-/

namespace Retarget

open Relation List Option

/-! ## Slots -/

section

variable {α : Type} [BEq α] [LawfulBEq α] {a : α} {list : List α}

theorem getElem?_of_lastIndex? {i : Nat} (h : lastIndex? a list = some i) : list[i]? = some a := by
  induction list generalizing i with
  | nil => cases h
  | cons b more ih =>
    simp only [lastIndex?, or_eq_some_iff, map_eq_some_iff] at h
    obtain ⟨j, hj, rfl⟩ | ⟨-, h⟩ := h
    · exact ih hj
    · split at h
      case isTrue heq =>
        cases h
        rw [getElem?_cons_zero, eq_of_beq heq]
      case isFalse => cases h

theorem exists_lastIndex? (h : a ∈ list) : ∃ i, lastIndex? a list = some i := by
  rw [← isSome_iff_exists]
  induction list with
  | nil => cases h
  | cons b more ih =>
    obtain rfl | h := mem_cons.1 h
    · simp [lastIndex?]
    · simp [lastIndex?, ih h]

end

variable {m : Module} {target : Target} {f : NumericFunction} {d x s : NodeId} {slot : Slot}

namespace NumericPlan

variable {p : NumericPlan}

/-- The name that a slot is for. -/
def binding? (p : NumericPlan) (f : NumericFunction) : Slot → Option NodeId
  | .local i => (f.params ++ f.locals)[i]?
  | .global i => (p.globals.map (·.1))[i]?
  | .function i => (p.functions.map (·.id))[i]?

theorem binding?_of_resolve? (h : p.resolve? f x = some slot) : p.binding? f slot = some x := by
  simp only [resolve?, or_eq_some_iff, map_eq_some_iff] at h
  obtain ⟨i, hi, rfl⟩ | ⟨-, ⟨i, hi, rfl⟩ | ⟨-, i, hi, rfl⟩⟩ := h <;> exact getElem?_of_lastIndex? hi

/-! ## Variables -/

/-- The parts of a node that is neither a function nor a class. -/
def parts (m : Module) (id : NodeId) : List NodeId :=
  (m.kind? id).elim [] fun kind => if kind.isFunctionLike then [] else kind.children

theorem mem_parts {c : NodeId} : c ∈ parts m x ↔
    ∃ kind, m.kind? x = some kind ∧ kind.isFunctionLike = false ∧ c ∈ kind.children := by
  cases h : m.kind? x with
  | none => simp [parts, h]
  | some kind => cases hkind : kind.isFunctionLike <;> simp [parts, h, hkind]

theorem mem_nodes_of_parts {c : NodeId} (hc : c ∈ parts m x) : x ∈ m.nodes := by
  obtain ⟨kind, hkind, -⟩ := mem_parts.1 hc
  obtain ⟨node, hnode, -⟩ := NodeTable.kind?_eq_some.1 hkind
  exact IdMap.mem_iff.2 ⟨node, hnode⟩

/-- `d` is declared in `s`, outside of functions and classes inside of it. -/
def Declares (m : Module) (s d : NodeId) : Prop :=
  ReflTransGen (fun x c => c ∈ parts m x) s d ∧ ∃ name init, m.kind? d = some (.declarator name init)

theorem mem_declarators (hacyclic : ∀ x, ¬Encloses m.kind? x x) {body : List NodeId} (hs : s ∈ body)
    (h : Declares m s d) : d ∈ declarators m body := by
  obtain ⟨hd, name, init, hkind⟩ := h
  refine mem_eraseDups.2 (mem_flatMap.2 ⟨s, hs, ?_⟩)
  refine IdMap.descent (Q := fun fuel id => ReflTransGen (fun x c => c ∈ parts m x) id d →
    d ∈ declaratorsWithin m fuel id) (fun x c => mem_nodes_of_parts) (fun fuel id ih hd => ?_)
    (fun x _ hx => hacyclic x ?_) hd
  · obtain rfl | ⟨c, hc, hd⟩ := ReflTransGen.cases_head hd
    · simp [declaratorsWithin, hkind, Kind.isFunctionLike]
    · obtain ⟨kind, hid, hlike, hchild⟩ := mem_parts.1 hc
      have hinside : d ∈ kind.children.flatMap (declaratorsWithin m fuel) := mem_flatMap.2 ⟨c, hchild, ih c hc hd⟩
      simp only [declaratorsWithin, hid, hlike, Bool.false_eq_true, if_false]
      split
      · exact mem_cons_of_mem _ hinside
      · exact hinside
  · refine TransGen.mono (fun x c hc => ?_) _ _ (TransGen.swap _ _ hx)
    obtain ⟨kind, hkind, -, hc⟩ := mem_parts.1 hc
    exact ⟨kind, hkind, hc⟩

/-! ## Layouts -/

theorem add_locals {e e' : Draft} (h : e.add m target x = .ok e')
    (he : ∀ f ∈ e.functions, f.locals = declarators m f.body) :
    ∀ f ∈ e'.functions, f.locals = declarators m f.body := by
  obtain ⟨node, -, h⟩ := Except.bind_eq_ok.1 h
  split at h
  case h_1 =>
    split at h
    case isTrue => exact Except.ok.inj h ▸ he
    case isFalse =>
      split at h
      case isTrue => exact Except.ok.inj h ▸ he
      case isFalse =>
        obtain ⟨body, -, h⟩ := Except.bind_eq_ok.1 h
        obtain rfl := Except.ok.inj h
        intro f hf
        rcases mem_append.1 hf with hf | hf
        · exact he f hf
        · obtain rfl := mem_singleton.1 hf
          rfl
  case h_2 =>
    obtain ⟨globals, -, h⟩ := Except.bind_eq_ok.1 h
    exact Except.ok.inj h ▸ he
  case h_3 | h_4 => exact Except.ok.inj h ▸ he

/-- **The variables of a layout**: a function has all that are declared in it, and the initializer those that are not
global. -/
theorem ofModule_parts (h : ofModule m target = .ok p) : (∀ f ∈ p.functions, f.locals = declarators m f.body) ∧
    ∀ f, p.init = some f → f.name = initName ∧ f.params = [] ∧
      f.locals = (declarators m f.body).filter (!(p.globals.map (·.1)).contains ·) := by
  have hfold (ids : List NodeId) (e e' : Draft) (he : ∀ f ∈ e.functions, f.locals = declarators m f.body)
      (h : ids.foldlM (Draft.add m target) e = .ok e') : ∀ f ∈ e'.functions, f.locals = declarators m f.body := by
    induction ids generalizing e with
    | nil => exact Except.ok.inj h ▸ he
    | cons id ids ih =>
      obtain ⟨u, hu, h⟩ := Except.bind_eq_ok.1 h
      exact ih u (add_locals hu he) h
  unfold ofModule at h
  split at h
  case h_1 => cases h
  case h_2 e he =>
    split at h
    case isFalse => cases h
    case isTrue =>
      obtain rfl := Except.ok.inj h
      refine ⟨hfold _ _ e (by simp) he, fun f hf => ?_⟩
      simp only [Draft.plan] at hf
      split at hf
      · cases hf
      · obtain rfl := some.inj hf
        exact ⟨rfl, rfl, rfl⟩

/-- **Slots do not collide.** In every scope of a layout different names have different slots, slots are in range, and
all variables that are declared in the scope have a slot: a local one, or a global one in the initializer. -/
theorem slots_apart (hacyclic : ∀ x, ¬Encloses m.kind? x x) (hp : ofModule m target = .ok p) (f : NumericFunction) :
    (∀ x y slot, p.resolve? f x = some slot → p.resolve? f y = some slot → x = y) ∧
    (∀ x i, p.resolve? f x = some (.local i) → i < f.slotCount) ∧
    (∀ x i, p.resolve? f x = some (.global i) → i < p.globals.length) ∧
    (∀ x i, p.resolve? f x = some (.function i) → i < p.functions.length) ∧
    ∀ s ∈ f.body, ∀ d, Declares m s d → (f ∈ p.functions → ∃ i, p.resolve? f d = some (.local i)) ∧
      (p.init = some f → ∃ i, p.resolve? f d = some (.local i) ∨ p.resolve? f d = some (.global i)) := by
  refine ⟨fun x y slot hx hy => ?_, fun x i hx => ?_, fun x i hx => ?_, fun x i hx => ?_, fun s hs d hd => ?_⟩
  · exact some.inj ((binding?_of_resolve? hx).symm.trans (binding?_of_resolve? hy))
  · simpa [NumericFunction.slotCount] using (List.getElem?_eq_some_iff.1 (binding?_of_resolve? hx)).1
  · simpa using (List.getElem?_eq_some_iff.1 (binding?_of_resolve? hx)).1
  · simpa using (List.getElem?_eq_some_iff.1 (binding?_of_resolve? hx)).1
  have hmem := mem_declarators hacyclic hs hd
  obtain ⟨hfunctions, hinit⟩ := ofModule_parts hp
  cases hslot : f.slot? d with
  | some i =>
    have hlocal : p.resolve? f d = some (.local i) := by simp [resolve?, hslot]
    exact ⟨fun _ => ⟨i, hlocal⟩, fun _ => ⟨i, .inl hlocal⟩⟩
  | none =>
    have hout : d ∉ f.params ++ f.locals := fun hd => by
      obtain ⟨i, hi⟩ := exists_lastIndex? hd
      cases hslot.symm.trans hi
    refine ⟨fun hf => absurd (mem_append_right _ (hfunctions f hf ▸ hmem)) hout, fun hf => ?_⟩
    obtain ⟨-, -, hlocals⟩ := hinit f hf
    have hglobal : d ∈ p.globals.map (·.1) := by
      by_contra hnot
      exact hout (mem_append_right _ (hlocals ▸ mem_filter.2 ⟨hmem, by simpa using hnot⟩))
    obtain ⟨i, hi⟩ := exists_lastIndex? hglobal
    exact ⟨i, .inr (by simp [resolve?, hslot, hi])⟩

/-- A function with a variable in a loop and one in a function inside of it, and a block with a variable around a
global. -/
def layered : Module :=
  .numbered [.number 0.0, .declarator "i" (some 1), .variableDecl .letKind [2], .block [3], .parameter "n",
    .functionDecl ⟨some "f", [5], none, 4, false⟩, .number 1.0, .declarator "g" (some 7), .variableDecl .letKind [8],
    .number 2.0, .declarator "t" (some 10), .variableDecl .letKind [11], .block [12]] [6, 9, 13]

theorem layered_slots : (∀ x, ¬Encloses layered.kind? x x) ∧ ∃ p f, ofModule layered .wasm = .ok p ∧ f ∈ p.functions ∧
    3 ∈ f.body ∧ Declares layered 3 2 ∧ ∃ i, p.resolve? f 2 = some (.local i) := by
  have hacyclic := ((Module.treeProblems_eq_nil (Module.numbered_keysMatch _ _)).1
    (show layered.treeProblems layered.parents = [] by decide +kernel)).1.acyclic
  have hok : (ofModule layered .wasm).toOption.any (·.functions.any (3 ∈ ·.body)) = true := by decide +kernel
  have hdeclares : Declares layered 3 2 := ⟨.single (show 2 ∈ parts layered 3 by decide +kernel), _, _, rfl⟩
  obtain ⟨p, hp, hok⟩ := Except.exists_of_any hok
  obtain ⟨f, hf, hbody⟩ := any_eq_true.1 hok
  have hbody := of_decide_eq_true hbody
  have hslots := (slots_apart hacyclic hp f).2.2.2.2 3 hbody 2 hdeclares
  exact ⟨hacyclic, p, f, hp, hf, hbody, hdeclares, hslots.1 hf⟩

end NumericPlan

end Retarget
