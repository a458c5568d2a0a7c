import Mathlib.Logic.Basic
import Retarget.Lua.Text

/-!
# Names as they are written

A dollar sign is written as `_S`, and a word that is reserved gets an underscore. Neither can be undone: `a$` and `a_S`
are written alike, and so are `end` and `end_`.

* `nameOf_eq_iff`: there are no other names that are written alike, and no name is written as a word that is reserved.
-/

namespace Retarget.Lua

open List

def reserved : List String := "self" :: keywords

/-- A name with every `_S` read as the dollar sign that it may stand for. -/
def withDollars : List Char → List Char
  | '_' :: 'S' :: rest => '$' :: withDollars rest
  | c :: rest => c :: withDollars rest
  | [] => []

def spell (c : Char) : List Char := if c = '$' then ['_', 'S'] else [c]

theorem spell_of_ne {c : Char} (h : c ≠ '$') : spell c = [c] := if_neg h

theorem flatMap_spell_withDollars (l : List Char) : (withDollars l).flatMap spell = l.flatMap spell := by
  fun_induction withDollars l with
  | case1 rest ih => simp [ih, spell]
  | case2 c rest _ ih => rw [flatMap_cons, flatMap_cons, ih]
  | case3 => rfl

variable {l : List Char}

theorem head?_flatMap_spell (h : (l.flatMap spell).head? = some 'S') : l.head? = some 'S' := by
  cases l with
  | nil => cases h
  | cons c rest =>
    by_cases hc : c = '$'
    · simp [hc, spell] at h
    · simpa [spell_of_ne hc] using h

theorem withDollars_cons {c : Char} (h : c = '_' → l.head? ≠ some 'S') : withDollars (c :: l) = c :: withDollars l := by
  rw [withDollars]
  rintro rest rfl rfl
  exact h rfl rfl

theorem withDollars_flatMap_spell (l : List Char) : withDollars (l.flatMap spell) = withDollars l := by
  fun_induction withDollars l with
  | case1 rest ih => simp [withDollars, spell, ih]
  | case2 c rest hother ih =>
    by_cases hc : c = '$'
    · simp [hc, spell, withDollars, ih]
    · rw [flatMap_cons, spell_of_ne hc, singleton_append, withDollars_cons, ih]
      intro hunderscore hhead
      obtain ⟨rest, rfl⟩ := head?_eq_some_iff.1 (head?_flatMap_spell hhead)
      exact hother rest hunderscore rfl
  | case3 => rfl

variable {a b : String}

theorem withoutDollars_inj : withoutDollars a = withoutDollars b ↔ withDollars a.toList = withDollars b.toList := by
  rw [withoutDollars, withoutDollars, String.ofList_inj]
  change a.toList.flatMap spell = b.toList.flatMap spell ↔ _
  constructor
  · intro h
    rw [← withDollars_flatMap_spell, h, withDollars_flatMap_spell]
  · intro h
    rw [← flatMap_spell_withDollars, h, flatMap_spell_withDollars]

theorem withoutDollars_eq_self (h : 'S' ∉ (withoutDollars a).toList) : withoutDollars a = a := by
  have hplain : ∀ c ∈ a.toList, c ≠ '$' := by
    rintro c hc rfl
    exact h (by simpa [withoutDollars] using ⟨'$', hc, by simp⟩)
  have hspell : a.toList.flatMap spell = a.toList := by
    rw [flatMap, map_congr_left fun c hc => spell_of_ne (hplain c hc)]
    exact flatMap_singleton' _
  exact (congrArg String.ofList hspell).trans String.ofList_toList

theorem reserved_plain : ∀ w ∈ reserved, 'S' ∉ w.toList ∧ w ++ "_" ∉ reserved ∧ nameOf w = w ++ "_" ∧
    nameOf (w ++ "_") = w ++ "_" := by
  decide

theorem nameOf_eq : nameOf a = if withoutDollars a ∈ reserved then withoutDollars a ++ "_" else withoutDollars a := by
  simp [nameOf, reserved, or_comm]

/-- `b` is the reserved word `a` with an underscore. -/
def Marks (a b : String) : Prop := a ∈ reserved ∧ b = a ++ "_"

theorem marks_of_eq (ha : withoutDollars a ∈ reserved) (h : withoutDollars a ++ "_" = withoutDollars b) :
    Marks a b := by
  have hplain := (reserved_plain _ ha).1
  have hb : withoutDollars b = b := withoutDollars_eq_self (by simpa [← h] using hplain)
  rw [withoutDollars_eq_self hplain] at ha h
  exact ⟨ha, hb.symm.trans h.symm⟩

theorem nameOf_of_marks (h : Marks a b) : nameOf a = nameOf b := by
  obtain ⟨ha, rfl⟩ := h
  obtain ⟨-, -, hword, hmarked⟩ := reserved_plain a ha
  rw [hword, hmarked]

/-- **Names that are written alike** are the same up to dollar signs, or one is a reserved word and the other marks it.
No name is written as a reserved word. -/
theorem nameOf_eq_iff (a b : String) : (nameOf a = nameOf b ↔
    withDollars a.toList = withDollars b.toList ∨ Marks a b ∨ Marks b a) ∧ nameOf a ∉ keywords ∧ nameOf a ≠ "self" := by
  have hfree : nameOf a ∉ reserved := by
    rw [nameOf_eq]
    split
    case isTrue ha => exact (reserved_plain _ ha).2.1
    case isFalse ha => exact ha
  refine ⟨⟨fun h => ?_, ?_⟩, fun hmem => hfree (mem_cons_of_mem _ hmem), fun heq => hfree (heq ▸ mem_cons_self)⟩
  · rw [nameOf_eq, nameOf_eq] at h
    split at h <;> split at h
    case isTrue.isTrue => exact .inl (withoutDollars_inj.1 (String.append_left_inj _ |>.1 h))
    case isTrue.isFalse ha _ => exact .inr (.inl (marks_of_eq ha h))
    case isFalse.isTrue _ hb => exact .inr (.inr (marks_of_eq hb h.symm))
    case isFalse.isFalse => exact .inl (withoutDollars_inj.1 h)
  · rintro (h | h | h)
    · rw [nameOf_eq, nameOf_eq, withoutDollars_inj.2 h]
    · exact nameOf_of_marks h
    · exact (nameOf_of_marks h).symm

end Retarget.Lua
