import Mathlib
import Retarget.Proofs.Optimize.Passes

/-!
# Passes make programs lighter

Copies make nodes share their children, and nodes that nobody refers to any more are still edited, so that
neither the number of nodes nor the size of the program goes down in a pass. What goes down is a weight.

* `Builder.Weighs b w`: every node weighs more than all its children together. Without circles there are such weights.
* `Builder.Improves b w id old new`: the node may become what is planned, and its children get lighter.
* `Builder.Tends b w x`: the pass `x` succeeds, and if it changes anything, all nodes together get lighter.
* `Fold.run_tends` and `DeadCode.run_tends`: two of the passes do so. Dead code is therefore eliminated without errors
  (`DeadCode.run_ok`).
-/

namespace Retarget

open List Kind Function

namespace Builder

variable {plan : Builder → Kind → Option Edit} {b b' : Builder} {id : NodeId} {old new : Kind} {w : NodeId → Nat}
  {changed : Bool}

/-! ## Weights -/

def childrenWeight (w : NodeId → Nat) (kind : Kind) : Nat := (kind.children.map w).sum

/-- Every node weighs more than all its children together. -/
structure Weighs (b : Builder) (w : NodeId → Nat) : Prop where
  pos : ∀ x, 0 < w x
  children_lt : ∀ {id kind}, b.kind? id = some kind → childrenWeight w kind < w id

def ids (b : Builder) : Finset NodeId := b.nodes.keys.toFinset

theorem mem_ids : id ∈ b.ids ↔ ∃ kind, b.kind? id = some kind := by
  rw [ids, mem_toFinset, Std.ExtTreeMap.mem_keys, IdMap.mem_iff]
  simp [Builder.kind?, NodeTable.kind?]

/-- What all nodes weigh, with one for every statement at the top level. -/
def load (b : Builder) (w : NodeId → Nat) : Nat := ∑ id ∈ b.ids, w id + b.body.length

variable {c : NodeId}

theorem le_childrenWeight {kind : Kind} (hc : c ∈ kind.children) : w c ≤ childrenWeight w kind :=
  le_sum_of_mem (mem_map_of_mem hc)

namespace Weighs

theorem acyclic (h : b.Weighs w) (x : NodeId) : ¬Encloses b.kind? x x := by
  intro hx
  have hlt := hx.lift w (p := (· > ·)) fun x y hy => by
    obtain ⟨kind, hkind, hc⟩ := hy
    exact (le_childrenWeight hc).trans_lt (h.children_lt hkind)
  rw [Relation.transGen_eq_self] at hlt
  exact lt_irrefl _ hlt

/-- A copy of a child has less to carry. -/
theorem copy_lt (h : b.Weighs w) (hc : c ∈ old.children) (hnew : b.kind? c = some new) :
    childrenWeight w new < childrenWeight w old :=
  (h.children_lt hnew).trans_le (le_childrenWeight hc)

theorem childless_lt (h : b.Weighs w) (hc : c ∈ old.children) (hnew : new.children = []) :
    childrenWeight w new < childrenWeight w old := by
  rw [childrenWeight, hnew]
  exact (h.pos c).trans_le (le_childrenWeight hc)

theorem sublist_lt (h : b.Weighs w) {l l' : List NodeId} (hl : l.Sublist l') (hlength : l.length < l'.length) :
    (l.map w).sum < (l'.map w).sum := by
  induction hl with
  | slnil => cases hlength
  | @cons l l' x hl ih =>
    have hle : (l.map w).sum ≤ (l'.map w).sum := (hl.map w).sum_le_sum fun _ _ => Nat.zero_le _
    exact hle.trans_lt (Nat.lt_add_of_pos_left (h.pos x))
  | cons_cons x _ ih =>
    exact Nat.add_lt_add_left (ih (Nat.lt_of_succ_lt_succ hlength)) _

end Weighs

/-- Without circles, going down from node to node comes to an end. -/
theorem wellFounded_owns (hresolved : Module.Resolved b.kind?) (hacyclic : ∀ x, ¬Encloses b.kind? x x) :
    WellFounded fun c p => Owns b.kind? p c := by
  classical
  let below (x : NodeId) : Finset NodeId := b.ids.filter (Encloses b.kind? x ·)
  refine Subrelation.wf (fun {c p} howns => ?_) (measure fun x => (below x).card).wf
  -- Below a child there are fewer nodes: it is below its owner, but not below itself.
  have hc : c ∈ b.ids := by
    obtain ⟨kind, hkind, hc⟩ := howns
    obtain ⟨r, hr, rfl, -⟩ := exists_reference_of_mem_children hc
    obtain ⟨target, htarget, -⟩ := hresolved p kind hkind r hr
    exact mem_ids.2 ⟨target, htarget⟩
  refine Finset.card_lt_card ((Finset.ssubset_iff_of_subset fun x hx => ?_).2 ⟨c, ?_, ?_⟩)
  · obtain ⟨hx, henclosed⟩ := Finset.mem_filter.1 hx
    exact Finset.mem_filter.2 ⟨hx, .head howns henclosed⟩
  · exact Finset.mem_filter.2 ⟨hc, .single howns⟩
  · exact fun hself => hacyclic c (Finset.mem_filter.1 hself).2

/-- **Without circles nodes can be weighed**: a node weighs one more than its children. -/
theorem exists_weighs (hresolved : Module.Resolved b.kind?) (hacyclic : ∀ x, ¬Encloses b.kind? x x) :
    ∃ w, b.Weighs w := by
  have hwf := wellFounded_owns hresolved hacyclic
  let children (x : NodeId) : List NodeId := (b.kind? x).elim [] children
  have howns {x c : NodeId} (hc : c ∈ children x) : Owns b.kind? x c := by
    cases hkind : b.kind? x with
    | none => simp [children, hkind] at hc
    | some kind => exact ⟨kind, hkind, by simpa [children, hkind] using hc⟩
  let w : NodeId → Nat := hwf.fix fun x rec => 1 + ((children x).attach.map fun c => rec c.1 (howns c.2)).sum
  have hw (x : NodeId) : w x = 1 + ((children x).map w).sum := by
    rw [show w x = _ from hwf.fix_eq _ x, ← attach_map_val (l := children x)]
  refine ⟨w, fun x => ?_, fun {id kind} hkind => ?_⟩
  · exact hw x ▸ Nat.lt_add_right _ Nat.one_pos
  · have hchildren : children id = kind.children := by simp [children, hkind]
    rw [hw, hchildren]
    exact Nat.lt_add_of_pos_left Nat.one_pos

/-! ## One edit -/

/-- References lead to nodes that fit, the values in nodes that can be copied are fine, and nodes have weights. -/
structure Weighted (b : Builder) (w : NodeId → Nat) : Prop extends b.Weighs w where
  resolved : Module.Resolved b.kind?
  copyable : b.Copyable

/-- What is planned fits, names are not bound to the old node, and there is less to carry. -/
structure Improves (b : Builder) (w : NodeId → Nat) (id : NodeId) (old new : Kind) : Prop
    extends b.Suits id old new where
  isLocal : old.isLocal = true
  lighter : childrenWeight w new < childrenWeight w old

theorem Rekinded.ids_eq (hold : b.kind? id = some old) (h : b.Rekinded id new b') : b'.ids = b.ids := by
  ext x
  rw [mem_ids, mem_ids, h.kind?_eq]
  by_cases hx : x = id
  · simp [hx, hold]
  · rw [update_of_ne hx]

theorem childrenWeight_mono {w' : NodeId → Nat} (h : ∀ x, w' x ≤ w x) (kind : Kind) :
    childrenWeight w' kind ≤ childrenWeight w kind :=
  sum_le_sum fun x _ => h x

/-- **An edit makes a builder lighter.** -/
theorem Improves.rekind (himproves : b.Improves w id old new) (h : b.Weighted w) (hold : b.kind? id = some old)
    (hb' : b.Rekinded id new b') : ∃ w', b'.Weighted w' ∧ b'.load w' < b.load w := by
  let w' : NodeId → Nat := update w id (1 + childrenWeight w new)
  have hid : w' id < w id := by
    have := h.children_lt hold
    have := himproves.lighter
    simp only [w', update_self]
    omega
  have hle (x : NodeId) : w' x ≤ w x := by
    by_cases hx : x = id
    · exact hx ▸ hid.le
    · simp only [w', update_of_ne hx, le_refl]
  refine ⟨w', ⟨⟨fun x => ?_, fun {x kind} hx => ?_⟩, ?_, fun x kind hx hkind => ?_⟩, ?_⟩
  · by_cases hx : x = id
    · simp only [hx, w', update_self]
      omega
    · simpa only [w', update_of_ne hx] using h.pos x
  · refine (childrenWeight_mono hle kind).trans_lt ?_
    obtain ⟨rfl, rfl⟩ | ⟨hne, hx⟩ := hb'.kind_cases hx
    · simp only [w', update_self]
      omega
    · simpa only [w', update_of_ne hne] using h.children_lt hx
  · exact himproves.resolved_rekind h.resolved hold hb'
  · obtain ⟨rfl, rfl⟩ | ⟨-, hx⟩ := hb'.kind_cases hx
    · exact himproves.scalar
    · exact h.copyable x kind hx hkind
  · have hsum := Finset.sum_lt_sum (fun x _ => hle x) ⟨id, mem_ids.2 ⟨old, hold⟩, hid⟩
    rw [load, hb'.ids_eq hold]
    obtain ⟨node, type, -, rfl⟩ := hb'
    exact Nat.add_lt_add_right hsum _

/-! ## A pass -/

/-- The pass succeeds, and if it changes anything, it makes the builder lighter. -/
def Tends (b : Builder) (w : NodeId → Nat) (x : Edited) : Prop :=
  ∃ changed b' w', x = .ok (changed, b') ∧ b'.Weighted w' ∧ b'.load w' + changed.toNat ≤ b.load w

theorem Tends.bind {x : Edited} {f : Builder → Edited} (hx : b.Tends w x)
    (hf : ∀ changed b' w', x = .ok (changed, b') → b'.Weighted w' → b'.Tends w' (f b')) :
    b.Tends w (x >>= fun (changed, b) => f b >>= fun (more, b) => pure (changed || more, b)) := by
  obtain ⟨changed, b₁, w₁, rfl, hb₁, hload₁⟩ := hx
  obtain ⟨more, b₂, w₂, hsecond, hb₂, hload₂⟩ := hf changed b₁ w₁ rfl hb₁
  refine ⟨changed || more, b₂, w₂, ?_, hb₂, ?_⟩
  · exact Except.bind_eq_ok.2 ⟨_, rfl, Except.bind_eq_ok.2 ⟨_, hsecond, rfl⟩⟩
  · cases more <;> simp only [Bool.or_true, Bool.or_false, Bool.toNat_true, Bool.toNat_false] at * <;>
      omega

/-- What a plan needs to make a pass of it, where `P` is what stays true meanwhile. -/
structure Sheds (plan : Builder → Kind → Option Edit) (P : Builder → Prop) : Prop where
  improves : ∀ {b w id old new}, b.Weighted w → P b → b.Plans plan id old new → b.Improves w id old new
  keeps : ∀ {b id old new b'}, P b → b.Plans plan id old new → b.Rekinded id new b' → P b'

namespace Sheds

variable {P : Builder → Prop}

theorem editNode (h : Sheds plan P) (hb : b.Weighted w) (hP : P b) (id : NodeId) : b.Tends w (b.editNode plan id) := by
  have hcheck (old new : Kind) (hplans : b.Plans plan id old new) : b.check id new = .ok () :=
    let himproves := h.improves hb hP hplans
    himproves.check hplans.1 hb.acyclic himproves.isLocal
  obtain ⟨⟨changed, b'⟩, hedit⟩ := editNode_ok hcheck
  obtain ⟨rfl, rfl⟩ | ⟨old, new, hplans, -, hb'⟩ := editNode_eq_ok hedit
  · exact ⟨false, b', w, hedit, hb, le_rfl⟩
  · obtain ⟨w', hw', hload⟩ := (h.improves hb hP hplans).rekind hb hplans.1 hb'
    exact ⟨changed, b', w', hedit, hw', by have := Bool.toNat_le changed; omega⟩

theorem editList (h : Sheds plan P) (hb : b.Weighted w) (hP : P b) {ids : List NodeId} :
    b.Tends w (editList plan ids b) := by
  induction ids generalizing b w with
  | nil => exact ⟨false, b, w, rfl, hb, le_rfl⟩
  | cons id ids ih =>
    refine (h.editNode hb hP id).bind fun changed b' w' hedit hb' => ih hb' ?_
    obtain ⟨-, rfl⟩ | ⟨old, new, hplans, -, hrekinded⟩ := editNode_eq_ok hedit
    · exact hP
    · exact h.keeps hP hplans hrekinded

end Sheds

end Builder

/-! ## Folding -/

variable {b : Builder} {id : NodeId} {old new : Kind} {w : NodeId → Nat}

theorem Fold.Becomes.improves (h : Fold.Becomes b old new) (hb : b.Weighted w) : b.Improves w id old new := by
  have hcomputed : old.isComputed = true := by cases h <;> rfl
  obtain ⟨c, hc⟩ : ∃ c, c ∈ old.children := by
    cases h with
    | binary | unary => exact ⟨_, mem_cons_self⟩
  obtain ⟨hexpression, hscalar, hreferences⟩ := h.isResult.plain
  have hchildren : new.children = [] := by rw [children, hreferences]; rfl
  have hsuits : b.Suits id old new :=
    ⟨fun c hc => c.admits_expression hc hcomputed hexpression, hscalar, by simp [hreferences], by simp [hchildren]⟩
  exact ⟨hsuits, by cases h <;> rfl, hb.childless_lt hc hchildren⟩

theorem Fold.run_tends (hb : b.Weighted w) : b.Tends w (Fold.run b) :=
  Builder.Sheds.editList
    ⟨fun hb _ hplans => (Fold.becomes hplans).improves hb, fun _ _ _ => trivial⟩ hb trivial

/-! ## Elimination of dead code -/

namespace DeadCode

attribute [local simp] children_eq childList

theorem Becomes.improves (h : Becomes b old new) (hb : b.Weighted w) (hid : b.kind? id = some old) :
    b.Improves w id old new := by
  refine ⟨h.suits hb.resolved hb.copyable hid, h.isLocal, ?_⟩
  cases h with
  | block hlive =>
    obtain ⟨hlive, hlength⟩ := liveStatements?_sublist hlive
    simp only [Builder.childrenWeight, children_eq]
    exact hb.sublist_lt hlive hlength
  | @switchCase test consequent live hlive =>
    obtain ⟨hlive, hlength⟩ := liveStatements?_sublist hlive
    simp only [Builder.childrenWeight, children_eq, childList]
    refine hb.sublist_lt (hlive.append_left test.toList) ?_
    rw [length_append, length_append]
    omega
  | taken htest h | otherwise htest h => exact hb.copy_lt (by simp) h
  | @skipped test | @never test => exact hb.childless_lt (c := test) (by simp) rfl
  | @chosen test consequent alternate truthy new htest h =>
    exact hb.copy_lt (by cases truthy <;> simp) h
  | @decided operator left right kind isLeft new hleft hdecided h =>
    exact hb.copy_lt (by cases isLeft <;> simp) h

theorem run_tends (hb : b.Weighted w) : b.Tends w (run b) := by
  have hsheds : Builder.Sheds plan fun _ => True :=
    ⟨fun hb _ hplans => (becomes hplans).improves hb hplans.1, fun _ _ _ => trivial⟩
  let body := liveStatements? b b.body
  have hbody : (b.setBody (body.getD b.body)).Weighted w := ⟨⟨hb.pos, hb.children_lt⟩, hb.resolved, hb.copyable⟩
  have hload : (b.setBody (body.getD b.body)).load w + body.isSome.toNat ≤ b.load w := by
    change (∑ id ∈ b.ids, w id + (body.getD b.body).length) + _ ≤ ∑ id ∈ b.ids, w id + b.body.length
    cases hlive : body with
    | none => simp
    | some live =>
      have hlength : live.length < b.body.length := (liveStatements?_sublist hlive).2
      simp only [Option.getD_some, Option.isSome_some, Bool.toNat_true]
      omega
  have hfirst : b.Tends w (.ok (body.isSome, b.setBody (body.getD b.body))) := ⟨_, _, w, rfl, hbody, hload⟩
  exact hfirst.bind fun _ _ _ _ hb' => hsheds.editList hb' trivial

/-- **The elimination of dead code succeeds.** -/
theorem run_ok (hb : b.Editable) : ∃ r, run b = .ok r := by
  obtain ⟨w, hw⟩ := Builder.exists_weighs hb.resolved hb.acyclic
  obtain ⟨changed, b', -, hrun, -⟩ := run_tends ⟨hw, hb.resolved, hb.copyable⟩
  exact ⟨(changed, b'), hrun⟩

end DeadCode

end Retarget
