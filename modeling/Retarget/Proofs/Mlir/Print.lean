import Mathlib.Data.List.Forall2
import Retarget.Mlir.Print
import Retarget.Proofs.Mlir.Scope

/-!
# Printed numbers

The text of a program is that of a program in which results are numbers. `Op.Numbered names ops numbered` says
that `numbered` is `ops` with the results written as numbers: `names` are the results that can be seen with their
numbers, no two of which have a result or a number in common, and the number of an operand is that of the result
it stands for. `Op.listPlain` writes the numbers as they are.

* `Op.printList_numbered`: a well-scoped program is printed as such a program, so every operand in the text is a
  number that has been introduced before, where it can be seen.
-/

namespace Retarget.Mlir

open List

abbrev Names := List (Value × Nat)

/-- The names that can be seen after an operation whose result gets a number; neither is taken. -/
inductive Introduces (names : Names) : Option Value → Option Nat → Names → Prop
  | silent : Introduces names none none names
  | define {v : Value} {k : Nat} (hv : v ∉ names.map Prod.fst) (hk : k ∉ names.map Prod.snd) :
    Introduces names (some v) (some k) ((v, k) :: names)

namespace Op

mutual

/-- Operations in a row with numbers for results. The regions of an operation see the names around it, unless it
is isolated. -/
inductive Numbered : Names → List Op → List Op → Prop
  | nil {names : Names} : Numbered names [] []
  | cons {names after : Names} {head : Head} {operands : List Nat} {result : Option Nat}
    {regions regions' : List (List Op)} {more more' : List Op}
    (hoperands : List.Forall₂ (fun v k => (v, k) ∈ names) head.operands operands)
    (hregions : RegionsNumbered (head.inside names) regions regions')
    (hresult : Introduces names head.result result after) (hmore : Numbered after more more') :
    Numbered names (mk head regions :: more) (mk { head with operands, result } regions' :: more')

inductive RegionsNumbered : Names → List (List Op) → List (List Op) → Prop
  | nil {names : Names} : RegionsNumbered names [] []
  | cons {names : Names} {region region' : List Op} {more more' : List (List Op)}
    (hregion : Numbered names region region') (hmore : RegionsNumbered names more more') :
    RegionsNumbered names (region :: more) (region' :: more')

end

end Op

/-- The operands, which are numbers, and attributes of an operation. -/
def Head.plain (h : Head) : String :=
  match h.value? with
  | some value => " " ++ value.text
  | none =>
    let operands := commaSeparated (h.operands.map fun k => "%" ++ toString k)
    let attrs := commaSeparated (h.attrs.map fun (key, value) => key ++ " = " ++ value.text)
    (if h.operands.isEmpty then "" else " " ++ operands) ++
      (if h.attrs.isEmpty then "" else " \x7b" ++ attrs ++ "\x7d")

namespace Op

mutual

def plain (depth : Nat) : Op → String
  | mk head regions =>
    pad depth ++ (head.result.elim "" fun k => "%" ++ toString k ++ " = ") ++ "luascript." ++ head.opcode.name ++
      head.plain ++ regionsPlain depth regions ++ (if head.result.isSome then " : !luascript.value" else "") ++ "\n"

def listPlain (depth : Nat) : List Op → String
  | [] => ""
  | op :: more => plain depth op ++ listPlain depth more

def regionsPlain (depth : Nat) : List (List Op) → String
  | [] => ""
  | region :: more => " \x7b\n" ++ listPlain (depth + 1) region ++ pad depth ++ "\x7d" ++ regionsPlain depth more

end

end Op

/-- The names that can be seen are known to a numbering, and later numbers are new. -/
structure Numbering.Knows (n : Numbering) (names : Names) : Prop where
  names_eq : ∀ p ∈ names, n.names[p.1]? = some p.2
  lt_next : ∀ p ∈ names, p.2 < n.next

variable {result : Option Value} {operands : List Value} {numbers : List Nat} {n : Numbering} {head : Head}

namespace Numbering

variable {n : Numbering} {names : Names} {v : Value}

theorem getElem?_define {v w : Value} : (n.define v).names[w]? = if v = w then some n.next else n.names[w]? := by
  rw [define, Std.ExtTreeMap.getElem?_insert]
  simp

theorem Knows.define (h : n.Knows names) (hv : v ∉ names.map Prod.fst) : (n.define v).Knows names where
  names_eq := by
    intro p hp
    have hne : v ≠ p.1 := fun heq => hv (heq ▸ mem_map_of_mem hp)
    rw [getElem?_define, if_neg hne, h.names_eq p hp]
  lt_next := fun p hp => Nat.lt_succ_of_lt (h.lt_next p hp)

theorem Knows.operands_eq (h : n.Knows names) (hnumbers : List.Forall₂ (fun v k => (v, k) ∈ names) operands numbers) :
    operands.map n.operand = numbers.map fun k => "%" ++ toString k := by
  induction hnumbers with
  | nil => rfl
  | cons hmem _ ih => simp [ih, operand, h.names_eq _ hmem]

/-- The numbering after an operation has got a number for its result, if it has one. -/
def introduce (n : Numbering) (result : Option Value) : Numbering := result.elim n n.define

theorem Knows.subset {other : Names} (h : n.Knows names) (hsubset : other ⊆ names) : n.Knows other :=
  ⟨fun p hp => h.names_eq p (hsubset hp), fun p hp => h.lt_next p (hsubset hp)⟩

theorem next_le_introduce : n.next ≤ (n.introduce result).next := by
  cases result with
  | none => exact Nat.le_refl _
  | some v => exact Nat.le_succ _

theorem getElem?_introduce (hv : v ∉ result.toList) : (n.introduce result).names[v]? = n.names[v]? := by
  cases result with
  | none => rfl
  | some w =>
    have hne : w ≠ v := by simpa [eq_comm] using hv
    exact getElem?_define.trans (if_neg hne)

theorem Knows.introduce (h : n.Knows names) (hnew : ∀ v ∈ result.toList, v ∉ names.map Prod.fst) :
    Introduces names result (result.map fun _ => n.next) (result.toList.map (·, n.next) ++ names) ∧
      (n.introduce result).Knows (result.toList.map (·, n.next) ++ names) := by
  cases result with
  | none => exact ⟨.silent, h⟩
  | some v =>
    have hv : v ∉ names.map Prod.fst := hnew v (by simp)
    have hk : n.next ∉ names.map Prod.snd := by
      intro hmem
      obtain ⟨p, hp, heq⟩ := mem_map.1 hmem
      exact Nat.lt_irrefl _ (heq ▸ h.lt_next p hp)
    refine ⟨.define hv hk, fun p hp => ?_, fun p hp => ?_⟩
    · rcases mem_cons.1 hp with rfl | hp
      · exact getElem?_define.trans (if_pos rfl)
      · exact (h.define hv).names_eq p hp
    · rcases mem_cons.1 hp with rfl | hp
      · exact Nat.lt_succ_self _
      · exact (h.define hv).lt_next p hp

end Numbering

theorem exists_numbers {names : Names} (h : operands ⊆ names.map Prod.fst) :
    ∃ numbers, List.Forall₂ (fun v k => (v, k) ∈ names) operands numbers := by
  induction operands with
  | nil => exact ⟨[], .nil⟩
  | cons v operands ih =>
    obtain ⟨hv, hrest⟩ := cons_subset.1 h
    obtain ⟨p, hp, rfl⟩ := mem_map.1 hv
    obtain ⟨numbers, hnumbers⟩ := ih hrest
    exact ⟨p.2 :: numbers, .cons hp hnumbers⟩

theorem Head.details_eq {names : Names} {result : Option Nat}
    (h : n.Knows names) (hnumbers : List.Forall₂ (fun v k => (v, k) ∈ names) head.operands numbers) :
    head.details n = Head.plain { head with operands := numbers, result } := by
  have hempty : numbers.isEmpty = head.operands.isEmpty := by
    generalize head.operands = operands at hnumbers
    cases hnumbers <;> rfl
  have hvalue : Head.value? { head with operands := numbers, result } = head.value? := rfl
  rw [details, plain, hvalue]
  cases head.value? with
  | some value => rfl
  | none => simp only [h.operands_eq hnumbers, hempty]

namespace Op

variable {names : Names} {regions : List (List Op)} {ops : List Op}

theorem operands_subset
    (h : List.Forall₂ (fun v k => (v, k) ∈ names) operands numbers) : numbers ⊆ names.map Prod.snd := by
  induction h with
  | nil => exact nil_subset _
  | cons hmem _ ih => exact cons_subset.2 ⟨mem_map_of_mem hmem, ih⟩

theorem introduces_map_snd {names after : Names} {number : Option Nat}
    (h : Introduces names result number after) : after.map Prod.snd = number.toList ++ names.map Prod.snd := by
  cases h <;> rfl

theorem map_inside : (head.inside names).map Prod.snd = head.inside (names.map Prod.snd) := by
  unfold Head.inside
  split <;> rfl

mutual

theorem Numbered.listScoped {names : Names} {ops numbered : List Op} :
    Numbered names ops numbered → ListScoped (names.map Prod.snd) numbered
  | .nil => trivial
  | .cons hoperands hregions hresult hmore => by
    have hinside := hregions.listScoped
    have hrest := hmore.listScoped
    refine listScoped_cons.2 ⟨operands_subset hoperands, fun region hregion => ?_, introduces_map_snd hresult ▸ hrest⟩
    have hregion := hinside region hregion
    rwa [map_inside] at hregion

theorem RegionsNumbered.listScoped {names : Names} {regions numbered : List (List Op)} :
    RegionsNumbered names regions numbered → ∀ region ∈ numbered, ListScoped (names.map Prod.snd) region
  | .nil => by simp
  | .cons hregion hmore => by
    have hfirst := hregion.listScoped
    have hrest := hmore.listScoped
    simpa using ⟨hfirst, hrest⟩

end

/-- What printing does with operations in a row, where `names` can be seen: they are written with numbers, and
only their own results get new ones. -/
def PrintsWell (ops : List Op) : Prop :=
  ∀ depth names (n : Numbering), ListScoped (names.map Prod.fst) ops → (listResults ops).Nodup →
    (∀ v ∈ listResults ops, v ∉ names.map Prod.fst) → n.Knows names →
      ∃ numbered, Numbered names ops numbered ∧ (printList depth n ops).1 = listPlain depth numbered ∧
        n.next ≤ (printList depth n ops).2.next ∧
          ∀ v, v ∉ listResults ops → (printList depth n ops).2.names[v]? = n.names[v]?

theorem printRegions_numbered (depth : Nat) {isolated : Bool} (hregions : ∀ region ∈ regions, PrintsWell region)
    (hscoped : ∀ region ∈ regions, ListScoped (if isolated then [] else names.map Prod.fst) region)
    (hnodup : (regions.flatMap listResults).Nodup)
    (hnew : ∀ v ∈ regions.flatMap listResults, v ∉ names.map Prod.fst) (hknows : n.Knows names) :
    ∃ numbered, RegionsNumbered (if isolated then [] else names) regions numbered ∧
      (printRegions depth isolated n regions).1 = regionsPlain depth numbered ∧
        n.next ≤ (printRegions depth isolated n regions).2.next ∧
          ∀ v, v ∉ regions.flatMap listResults →
            (printRegions depth isolated n regions).2.names[v]? = n.names[v]? := by
  induction regions generalizing n with
  | nil => exact ⟨[], .nil, rfl, Nat.le_refl _, fun _ _ => rfl⟩
  | cons region regions ih =>
    simp only [mem_cons, forall_eq_or_imp] at hregions hscoped
    obtain ⟨hfirst, hrest, hdisjoint⟩ := nodup_append.1 hnodup
    cases isolated with
    | true =>
      -- An isolated region starts anew, and what follows it does not see it.
      obtain ⟨numbered, hnumbered, htext, -, -⟩ := hregions.1 (depth + 1) [] { n with next := 0 } hscoped.1 hfirst
        (by simp) ⟨by simp, by simp⟩
      obtain ⟨more, hmore, hmoreText, hle, heq⟩ := ih hregions.2 hscoped.2 hrest
        (fun v hv => hnew v (mem_append_right _ hv)) hknows
      refine ⟨numbered :: more, .cons hnumbered hmore, ?_, hle, fun v hv => heq v fun hmem => hv ?_⟩
      · simp only [printRegions, if_true, htext, hmoreText, regionsPlain]
      · exact mem_append_right _ hmem
    | false =>
      obtain ⟨numbered, hnumbered, htext, hle, heq⟩ := hregions.1 (depth + 1) names n hscoped.1 hfirst
        (fun v hv => hnew v (mem_append_left _ hv)) hknows
      have hafter : (printList (depth + 1) n region).2.Knows names := by
        refine ⟨fun p hp => ?_, fun p hp => Nat.lt_of_lt_of_le (hknows.lt_next p hp) hle⟩
        rw [heq p.1 fun hmem => hnew p.1 (mem_append_left _ hmem) (mem_map_of_mem hp)]
        exact hknows.names_eq p hp
      obtain ⟨more, hmore, hmoreText, hle', heq'⟩ := ih hregions.2 hscoped.2 hrest
        (fun v hv => hnew v (mem_append_right _ hv)) hafter
      refine ⟨numbered :: more, .cons hnumbered hmore, ?_, Nat.le_trans hle hle', fun v hv => ?_⟩
      · simp only [printRegions, Bool.false_eq_true, if_false, htext, hmoreText, regionsPlain]
      · rw [flatMap_cons, mem_append, not_or] at hv
        exact (heq' v hv.2).trans (heq v hv.1)

theorem print_mk {depth : Nat} : print depth n (mk head regions) =
    (pad depth ++ (head.result.elim "" fun _ => "%" ++ toString n.next ++ " = ") ++ "luascript." ++
      head.opcode.name ++ head.details (n.introduce head.result) ++
      (printRegions depth head.opcode.isIsolated (n.introduce head.result) regions).1 ++
      (if head.result.isSome then " : !luascript.value" else "") ++ "\n",
      (printRegions depth head.opcode.isIsolated (n.introduce head.result) regions).2) := by
  rw [print]
  cases head.result <;> rfl

theorem printList_numbered : PrintsWell ops := by
  induction ops using list_induction with
  | nil => exact fun _ _ _ _ _ _ _ => ⟨[], .nil, rfl, Nat.le_refl _, fun _ _ => rfl⟩
  | cons head regions more hregions hmore =>
    intro depth names n hscoped hnodup hnew hknows
    obtain ⟨huses, hinside, hlater⟩ := listScoped_cons.1 hscoped
    simp only [listResults_cons, mem_append] at hnodup hnew
    obtain ⟨hfirst, hrest, hdisjoint⟩ := nodup_append.1 hnodup
    obtain ⟨-, hinner, happart⟩ := nodup_append.1 hfirst
    obtain ⟨hintroduces, hafter⟩ := hknows.introduce fun v hv => hnew v (.inl (.inl hv))
    obtain ⟨numbers, hnumbers⟩ := exists_numbers huses
    have hbefore : (n.introduce head.result).Knows names := hafter.subset (subset_append_right _ _)
    -- What is inside of the operation sees the names around it.
    obtain ⟨regions', hregions', hregionsText, hle, heq⟩ := printRegions_numbered depth hregions
      hinside hinner (fun v hv => hnew v (.inl (.inr hv))) hbefore
    -- What follows it sees its result, too.
    have hknows' : (printRegions depth head.opcode.isIsolated (n.introduce head.result) regions).2.Knows
        (head.result.toList.map (·, n.next) ++ names) := by
      refine ⟨fun p hp => ?_, fun p hp => Nat.lt_of_lt_of_le (hafter.lt_next p hp) hle⟩
      rw [heq p.1 fun hmem => ?_]
      · exact hafter.names_eq p hp
      · rcases mem_append.1 hp with hp | hp
        · obtain ⟨v, hv, rfl⟩ := mem_map.1 hp
          exact happart v hv v hmem rfl
        · exact hnew p.1 (.inl (.inr hmem)) (mem_map_of_mem hp)
    have hnames : (head.result.toList.map (·, n.next) ++ names).map Prod.fst =
        head.result.toList ++ names.map Prod.fst := by
      simp [Function.comp_def]
    have hdetails : head.details (n.introduce head.result) =
        Head.plain { head with operands := numbers, result := head.result.map fun _ => n.next } :=
      Head.details_eq hbefore hnumbers
    have hunseen : ∀ v ∈ listResults more, v ∉ (head.result.toList.map (·, n.next) ++ names).map Prod.fst := by
      intro v hv
      rw [hnames, mem_append, not_or]
      exact ⟨fun hmem => hdisjoint v (mem_append_left _ hmem) v hv rfl, hnew v (.inr hv)⟩
    obtain ⟨more', hmore', hmoreText, hle', heq'⟩ := hmore depth _ _ (hnames ▸ hlater) hrest hunseen hknows'
    refine ⟨_, .cons hnumbers hregions' hintroduces hmore', ?_, ?_, fun v hv => ?_⟩
    · simp only [printList, print_mk, listPlain, plain, hregionsText, hmoreText, hdetails]
      cases head.result <;> rfl
    · simp only [printList, print_mk]
      exact Nat.le_trans Numbering.next_le_introduce (Nat.le_trans hle hle')
    · simp only [listResults_cons, mem_append, not_or] at hv
      simp only [printList, print_mk]
      rw [heq' v hv.2, heq v hv.1.2, Numbering.getElem?_introduce hv.1.1]

end Op

end Retarget.Mlir
