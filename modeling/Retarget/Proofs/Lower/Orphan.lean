import Retarget.Proofs.Lower.Program
import Retarget.Proofs.Reachable

/-!
# Nodes that are in no statement

A temporary is pending until the statement that needs it, or the function around it, declares it. The initializers of
fields are lowered last in a written constructor, after all that could declare their temporaries, and put at its start
or after `super(...)`.

* `below_or_lost_of_toBuilder`: what is in no statement of a lowered program is a declaration that was lost.
* `unreachable_iff_of_lower`: a node is out of reach exactly if it is a declaration without value and without owner.
  This does not happen if no class has instance fields.
-/

namespace Retarget.Syntax.Program

open Relation LowerM Make

variable {p : Program} {options : LowerOptions} {m : Module} {b : Builder} {kind : Kind} {x : NodeId}

theorem below_or_lost_of_toBuilder (h : p.toBuilder options = .ok b) (hx : b.kind? x = some kind) :
    (∃ s ∈ b.body, Contains b.kind? s x) ∨
      ((∃ name, kind = .declarator name none) ∧ (∀ q, ¬Owns b.kind? q x) ∧ ListsFields b.kind?) := by
  obtain ⟨⟨body, s⟩, hrun, hb⟩ := Except.bind_eq_ok.1 h
  cases hb
  have hkeeps : KeepsPending (blockStatements (lowerers p.toJson.depth) p.body p.pos {}) :=
    blockStatements_keepsPending rfl
  have hpending : s.pendingTemps = [] := hkeeps _ body s hrun
  obtain ⟨L, hlost, hready⟩ := ((lowerBody_endsWell p options _).of_ok hrun).ready
  obtain ⟨top, htop, hcontains⟩ := hready.held.grown.cover hx
  have hroot := hready.held.grown.held top htop
  obtain ⟨root, hmem, rfl⟩ := Root.mem_ids.1 htop
  simp only [hpending, roots_nil, add_zero, Multiset.mem_add, mem_roots] at hmem
  rcases hmem with ⟨top, hbody, rfl⟩ | hmem
  · exact .inl ⟨top, hbody, hcontains⟩
  -- What is lost has nothing below it.
  obtain ⟨k, hk, hadmits⟩ := hready.held.fits root (by simp [hmem])
  rw [hlost.declarators root hmem] at hadmits
  obtain ⟨name, rfl⟩ : ∃ name, k = .declarator name none := by
    have hbare := hlost.barren root hmem root.id k .refl hk
    cases k with
    | declarator name init =>
      cases init with
      | none => exact ⟨name, rfl⟩
      | some => cases hbare
    | _ => cases hadmits
  rcases ReflTransGen.cases_head hcontains with rfl | ⟨c, ⟨k, hk', hc⟩, -⟩
  · refine .inr ⟨⟨name, Option.some.inj (hx.symm.trans hk)⟩, hroot.2, ?_⟩
    rcases hlost.why with rfl | hlists | hfalse
    · exact absurd hmem (Multiset.notMem_zero _)
    · exact hlists
    · exact hfalse.elim
  · cases hk.symm.trans hk'
    cases hc

/-- **The nodes of a lowered program that are out of reach** are the declarations without a value that no node owns, and
there are none of them if no class has instance fields. -/
theorem unreachable_iff_of_lower (h : p.lower options = .ok m) (hx : m.kind? x = some kind) :
    ¬m.Reachable x ↔ (∃ name, kind = .declarator name none) ∧ (∀ q, ¬Owns m.kind? q x) ∧
      ∃ c summary, m.kind? c = some (.classMetadata summary) ∧ summary.instanceFields ≠ [] := by
  obtain ⟨b, hb, rfl, -⟩ := lower_eq_ok.1 h
  refine ⟨fun hout => ?_, ?_⟩
  · obtain hbelow | ⟨hkind, howner, c, k, hc, hlists⟩ := below_or_lost_of_toBuilder hb hx
    · exact absurd hbelow hout
    · refine ⟨hkind, howner, ?_⟩
      cases k with
      | classMetadata summary => exact ⟨c, summary, hc, by simpa [Kind.listsFields] using hlists⟩
      | _ => cases hlists
  · rintro ⟨⟨name, rfl⟩, howner, -⟩ ⟨s, hs, hcontains⟩
    rcases ReflTransGen.cases_tail hcontains with rfl | ⟨q, -, hq⟩
    · obtain ⟨k, hk, hstatement⟩ := (finished_of_toBuilder hb).statements x hs
      cases hk.symm.trans hx
      cases hstatement
    · exact howner q hq

/-- A class with a written constructor and a field whose initializer takes an array apart. -/
def partedField : Program :=
  program [classDecl "A" none [constructor [] [],
    field "x" (some (assign "=" (arrayPattern [some (nameTarget "a")] none) (name "b"))) false]]

/-- The temporary of the initializer is used in the constructor, but no statement declares it. -/
theorem partedField_unreachable :
    ∃ m, partedField.lower { build := { validate := false, deriveCfg := false } } = .ok m ∧
    (m.kind? 7 = some (.declarator "__tmp0" none) ∧ ¬m.Reachable 7) ∧
      m.kind? 8 = some (.identifier "__tmp0" (some 7)) ∧ m.Reachable 8 := by
  have hok : partedField.toBuilder.toOption.any (fun b => b.kind? 7 = some (.declarator "__tmp0" none) ∧
      b.kind? 8 = some (.identifier "__tmp0" (some 7)) ∧ (b.toModule false).parents.parent? 7 = none ∧
      b.kind? 21 = some (.classMetadata ⟨none, false, [], [], ["x"], []⟩)) = true := by decide +kernel
  obtain ⟨b, hb, hok⟩ := Except.exists_of_any hok
  obtain ⟨htemp, huse, hroot, hclass⟩ := of_decide_eq_true hok
  have hlower : partedField.lower { build := { validate := false, deriveCfg := false } } = .ok (b.toModule false) :=
    lower_eq_ok.2 ⟨b, hb, rfl, nofun⟩
  have hsound := (finished_of_toBuilder hb).toModule_sound false
  have howner := (Parents.parent?_eq_none hsound.keys).1 hroot
  have hout := (unreachable_iff_of_lower hlower htemp).2 ⟨⟨_, rfl⟩, howner, 21, _, hclass, by simp⟩
  refine ⟨_, hlower, ⟨htemp, hout⟩, huse, ?_⟩
  by_contra hout
  obtain ⟨⟨name, hname⟩, -⟩ := (unreachable_iff_of_lower hlower huse).1 hout
  cases hname

end Retarget.Syntax.Program
