import Mathlib.Logic.Function.Basic
import Retarget.Optimize.Edit
import Retarget.Proofs.Builder.Operation
import Retarget.Proofs.Scope

/-!
# What passes do

A pass edits the nodes of a builder one after the other.

* `Builder.Plans plan b id old new`: the plan makes the node `id` of the kind `old` one of the kind `new`.
* `Builder.Rekinded b id kind b'`: `b'` is `b` with the node `id` made one of that kind.
* `Builder.editList_induction` and `Builder.editList_ok`: what each edit keeps is kept by a pass, and a pass whose
  edits all pass the check of the builder succeeds.
* `Builder.Suits b id old new`: the node may become what is planned, as that owns nothing new and stands wherever the
  old node did.
-/

namespace Retarget

open Relation Retarget.Except Builder Function Std.ExtTreeMap

/-- The kind that an edit makes of a node, unless it changes nothing. -/
def Edit.kind? (b : Builder) : Edit → Option Kind
  | .literal made | .kind made => some made
  | .copy source => (b.kind? source).filter (!·.isBinding)

namespace Builder

variable {plan : Builder → Kind → Option Edit} {b b' : Builder} {id : NodeId} {e : Edit} {changed : Bool}
  {kind old new : Kind}

/-! ## One edit -/

/-- `b'` is `b` with the node `id` made one of the given kind. -/
def Rekinded (b : Builder) (id : NodeId) (kind : Kind) (b' : Builder) : Prop :=
  ∃ node type, b.nodes[id]? = some node ∧ b' = { b with nodes := b.nodes.insert id { node with kind, type } }

/-- The plan makes the node `id` of the kind `old` one of the kind `new`. -/
def Plans (plan : Builder → Kind → Option Edit) (b : Builder) (id : NodeId) (old new : Kind) : Prop :=
  b.kind? id = some old ∧ ∃ e, plan b old = some e ∧ e.kind? b = some new

theorem Rekinded.kind?_eq (h : b.Rekinded id kind b') : b'.kind? = update b.kind? id (some kind) := by
  obtain ⟨node, type, hnode, rfl⟩ := h
  funext x
  rw [kind?, NodeTable.kind?, getElem?_insert, update_apply]
  by_cases hx : id = x
  · subst hx
    simp
  · simp only [Nat.compare_eq_eq, hx, if_false, Ne.symm hx]
    rfl

theorem Rekinded.kind_cases {x : NodeId} {k : Kind} (hb' : b.Rekinded id kind b') (hx : b'.kind? x = some k) :
    (x = id ∧ k = kind) ∨ (x ≠ id ∧ b.kind? x = some k) := by
  rw [hb'.kind?_eq] at hx
  by_cases heq : x = id
  · subst heq
    rw [update_self] at hx
    cases hx
    exact .inl ⟨rfl, rfl⟩
  · rw [update_of_ne heq] at hx
    exact .inr ⟨heq, hx⟩

variable {type : Option TypeDescriptor} {node : Node} {P : Builder → Prop} {ids : List NodeId}

theorem replaceTyped_eq_ok (h : b.replaceTyped id kind type = .ok (changed, b')) :
    changed = true ∧ b.check id kind = .ok () ∧ b.Rekinded id kind b' := by
  obtain ⟨b₁, hreplace, h⟩ := bind_eq_ok.1 h
  obtain ⟨b₂, htype, h⟩ := bind_eq_ok.1 h
  cases h
  obtain ⟨hcheck, node, hnode, rfl⟩ := replace_eq_ok.1 hreplace
  obtain ⟨node', hnode', rfl⟩ := setType_eq_ok.1 htype
  refine ⟨rfl, hcheck, node, type, hnode, ?_⟩
  obtain rfl : { node with kind } = node' := by simpa using hnode'
  simp only [mk.injEq, and_true]
  refine ext_getElem? fun x => ?_
  simp only [getElem?_insert]
  split <;> rfl

theorem replaceTyped_ok (hnode : b.nodes[id]? = some node) (hcheck : b.check id kind = .ok ()) :
    ∃ r, b.replaceTyped id kind type = .ok r := by
  have hreplace := replace_eq_ok.2 ⟨hcheck, node, hnode, rfl⟩
  have htype : ∃ b', setType { b with nodes := b.nodes.insert id { node with kind } } id type = .ok b' :=
    ⟨_, setType_eq_ok.2 ⟨{ node with kind }, by simp, rfl⟩⟩
  obtain ⟨b', htype⟩ := htype
  refine ⟨(true, b'), ?_⟩
  rw [replaceTyped, hreplace]
  simp only [bind, Except.bind, htype, pure, Except.pure]

theorem edit_eq_ok (h : b.edit id e = .ok (changed, b')) :
    (e.kind? b = none ∧ changed = false ∧ b' = b) ∨
      ∃ kind, e.kind? b = some kind ∧ changed = true ∧ b.check id kind = .ok () ∧ b.Rekinded id kind b' := by
  cases e with
  | literal kind => exact .inr ⟨kind, rfl, replaceTyped_eq_ok h⟩
  | kind kind =>
    obtain ⟨b₁, hreplace, h⟩ := bind_eq_ok.1 h
    cases h
    obtain ⟨hcheck, node, hnode, rfl⟩ := replace_eq_ok.1 hreplace
    exact .inr ⟨kind, rfl, rfl, hcheck, node, node.type, hnode, rfl⟩
  | copy source =>
    rw [edit, node?] at h
    rw [Edit.kind?, kind?, NodeTable.kind?]
    cases hsource : b.nodes[source]? with
    | none =>
      rw [hsource] at h
      cases h
      exact .inl ⟨rfl, rfl, rfl⟩
    | some node =>
      rw [hsource] at h
      dsimp only at h
      split at h
      next hbinding =>
        cases h
        exact .inl ⟨by simp [hbinding], rfl, rfl⟩
      next hbinding => exact .inr ⟨node.kind, by simp [hbinding], replaceTyped_eq_ok h⟩

theorem edit_ok (hnode : b.nodes[id]? = some node) (hcheck : ∀ kind, e.kind? b = some kind → b.check id kind = .ok ()) :
    ∃ r, b.edit id e = .ok r := by
  cases e with
  | literal kind => exact replaceTyped_ok hnode (hcheck kind rfl)
  | kind kind =>
    have hreplace := replace_eq_ok.2 ⟨hcheck kind rfl, node, hnode, rfl⟩
    rw [edit, hreplace]
    exact ⟨_, rfl⟩
  | copy source =>
    rw [edit, node?]
    rw [Edit.kind?, kind?, NodeTable.kind?] at hcheck
    cases hsource : b.nodes[source]? with
    | none => exact ⟨_, rfl⟩
    | some node' =>
      dsimp only
      split
      next => exact ⟨_, rfl⟩
      next hbinding =>
        rw [hsource] at hcheck
        exact replaceTyped_ok hnode (hcheck _ (by simp [hbinding]))

/-! ## A pass -/

theorem editNode_eq_ok (h : b.editNode plan id = .ok (changed, b')) :
    (changed = false ∧ b' = b) ∨
      ∃ old new, b.Plans plan id old new ∧ b.check id new = .ok () ∧ b.Rekinded id new b' := by
  rw [editNode] at h
  split at h
  next e hplan =>
    obtain ⟨old, hold, hplan⟩ := Option.bind_eq_some_iff.1 hplan
    obtain ⟨-, hchanged, rfl⟩ | ⟨new, hnew, -, hcheck, hb'⟩ := edit_eq_ok h
    · exact .inl ⟨hchanged, rfl⟩
    · exact .inr ⟨old, new, ⟨hold, e, hplan, hnew⟩, hcheck, hb'⟩
  next =>
    cases h
    exact .inl ⟨rfl, rfl⟩

theorem editNode_ok (hcheck : ∀ old new, b.Plans plan id old new → b.check id new = .ok ()) :
    ∃ r, b.editNode plan id = .ok r := by
  rw [editNode]
  split
  next e hplan =>
    obtain ⟨old, hold, hplan⟩ := Option.bind_eq_some_iff.1 hplan
    obtain ⟨node, hnode, -⟩ := NodeTable.kind?_eq_some.1 hold
    exact edit_ok hnode fun new hnew => hcheck old new ⟨hold, e, hplan, hnew⟩
  next => exact ⟨_, rfl⟩

section

variable
  (step : ∀ b id old new b', P b → b.Plans plan id old new → b.check id new = .ok () → b.Rekinded id new b' → P b')
include step

/-- **What every edit keeps, a pass keeps.** -/
theorem editList_induction (hb : P b) (h : editList plan ids b = .ok (changed, b')) : P b' := by
  induction ids generalizing b changed with
  | nil =>
    cases h
    exact hb
  | cons id ids ih =>
    obtain ⟨⟨changed₁, b₁⟩, hnode, h⟩ := bind_eq_ok.1 h
    obtain ⟨⟨changed₂, b₂⟩, hlist, h⟩ := bind_eq_ok.1 h
    cases h
    refine ih ?_ hlist
    obtain ⟨-, rfl⟩ | ⟨old, new, hplans, hcheck, hb₁⟩ := editNode_eq_ok hnode
    · exact hb
    · exact step b id old new b₁ hb hplans hcheck hb₁

/-- **A pass succeeds** if all its edits pass the check. -/
theorem editList_ok (check : ∀ b id old new, P b → b.Plans plan id old new → b.check id new = .ok ()) (hb : P b) :
    ∃ r, editList plan ids b = .ok r := by
  induction ids generalizing b with
  | nil => exact ⟨_, rfl⟩
  | cons id ids ih =>
    obtain ⟨⟨changed₁, b₁⟩, hnode⟩ := editNode_ok fun old new => check b id old new hb
    have hb₁ : P b₁ := by
      obtain ⟨-, rfl⟩ | ⟨old, new, hplans, hcheck, hb₁⟩ := editNode_eq_ok hnode
      · exact hb
      · exact step b id old new b₁ hb hplans hcheck hb₁
    obtain ⟨⟨changed₂, b₂⟩, hlist⟩ := ih hb₁
    refine ⟨(changed₁ || changed₂, b₂), ?_⟩
    rw [editList, hnode]
    simp only [bind, Except.bind, hlist, pure, Except.pure]

end

/-! ## Builders that passes can edit -/

/-- References lead to nodes that fit, no node owns itself, and the values in nodes are fine. -/
structure Editable (b : Builder) : Prop where
  resolved : Module.Resolved b.kind?
  acyclic : ∀ x, ¬Encloses b.kind? x x
  scalars : ∀ id kind, b.kind? id = some kind → scalarError? kind = none

/-- The values in nodes that can be copied are fine. -/
def Copyable (b : Builder) : Prop :=
  ∀ id kind, b.kind? id = some kind → kind.isBinding = false → scalarError? kind = none

theorem Editable.copyable (h : b.Editable) : b.Copyable := fun id kind hid _ => h.scalars id kind hid

/-- What is planned fits: it may stand wherever the old node does, its values are fine, what it refers to fits,
and what it owns was inside the old node. -/
structure Suits (b : Builder) (id : NodeId) (old new : Kind) : Prop where
  stands : ∀ c : Category, c.admits old = true → c.admits new = true
  scalar : scalarError? new = none
  resolved : ∀ r ∈ new.references, ∃ target, b.kind? r.target = some target ∧ r.category.admits target = true
  inside : ∀ c ∈ new.children, Encloses b.kind? id c

theorem Suits.resolved_rekind (hnew : b.Suits id old new) (h : Module.Resolved b.kind?)
    (hold : b.kind? id = some old) (hb' : b.Rekinded id new b') : Module.Resolved b'.kind? := by
  -- A target of a reference is the edited node, which still fits, or as before.
  have hstill (r : Reference) (hr : ∃ target, b.kind? r.target = some target ∧ r.category.admits target = true) :
      ∃ target, b'.kind? r.target = some target ∧ r.category.admits target = true := by
    obtain ⟨target, htarget, hadmits⟩ := hr
    rw [hb'.kind?_eq]
    by_cases hx : r.target = id
    · rw [hx, hold] at htarget
      cases htarget
      exact ⟨new, by rw [hx, update_self], hnew.stands _ hadmits⟩
    · exact ⟨target, by rw [update_of_ne hx, htarget], hadmits⟩
  intro x kind hx r hr
  obtain ⟨rfl, rfl⟩ | ⟨-, hx⟩ := hb'.kind_cases hx
  · exact hstill r (hnew.resolved r hr)
  · exact hstill r (h x kind hx r hr)

end Builder

end Retarget
