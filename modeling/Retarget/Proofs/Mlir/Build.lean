import Retarget.Mlir.Expr
import Retarget.Mlir.Stmt
import Retarget.Proofs.Inversion
import Retarget.Proofs.Mlir.Scope

/-!
# Built operations are well-scoped

Operands are built in the region in which they are used. `Builds seen carried x held post` says so of a
computation `x`: it adds operations that use only what can be seen in the region, and its result satisfies `post`
with the results that can be seen then. No result is lost or doubled on the way: the results of the operations
that are added and those that are `held` by what `x` returns are the ones that have been `carried` into `x` and
new ones.

* `Gen.exprStep_builds`, `Gen.stmtStep_builds`: expressions and statements.
-/

namespace Retarget.Mlir

open Op List Surrounded

structure Fresh (first next : Nat) (values : List Nat) : Prop where
  le : first ≤ next
  nodup : values.Nodup
  between : ∀ v ∈ values, first ≤ v ∧ v < next

theorem Fresh.nil {first : Nat} : Fresh first first [] := ⟨Nat.le_refl _, nodup_nil, by simp⟩

theorem Fresh.append {first middle last : Nat} {values more : List Nat} (h : Fresh first middle values)
    (h' : Fresh middle last more) : Fresh first last (values ++ more) where
  le := Nat.le_trans h.le h'.le
  nodup := by
    refine nodup_append.2 ⟨h.nodup, h'.nodup, fun v hv w hw => ?_⟩
    have := h.between v hv
    have := h'.between w hw
    omega
  between := by
    intro v hv
    have := h.le
    have := h'.le
    rcases mem_append.1 hv with hv | hv
    · have := h.between v hv
      omega
    · have := h'.between v hv
      omega

/-- What can be merged has no attributes, except for the value of a constant. -/
def Head.Regular (h : Head) : Prop := h.opcode.isMergeable = true → h.attrs = h.value?.toList.map ("value", ·)

/-- An operation among `ops`, or inside of one of them, has the head `h`. -/
inductive Op.Occurs (h : Head) : List Op → Prop
  | here {regions more} : Occurs h (mk h regions :: more)
  | inside {head regions more region} : region ∈ regions → Occurs h region → Occurs h (mk head regions :: more)
  | later {op more} : Occurs h more → Occurs h (op :: more)

/-- Operations that use only what they see, and are regular. -/
structure Proper (visible : List Value) (ops : List Op) : Prop where
  listScoped : ListScoped visible ops
  regular : ∀ h, Occurs h ops → h.Regular

namespace Proper

variable {visible other : List Value} {ops more : List Op}

theorem nil : Proper visible [] := ⟨trivial, nofun⟩

theorem mono (h : Proper visible ops) (hsubset : visible ⊆ other) : Proper other ops :=
  ⟨h.listScoped.mono hsubset, h.regular⟩

theorem append (h : Proper visible ops) (hmore : Proper (topResults ops ++ visible) more) :
    Proper visible (ops ++ more) := by
  refine ⟨h.listScoped.append hmore.listScoped, fun head hhead => ?_⟩
  suffices Occurs head ops ∨ Occurs head more from this.elim (h.regular head) (hmore.regular head)
  clear h hmore
  induction ops with
  | nil => exact .inr hhead
  | cons op ops ih =>
    cases hhead with
    | here => exact .inl .here
    | inside hregion hhead => exact .inl (.inside hregion hhead)
    | later hhead => exact (ih hhead).imp_left .later

end Proper

/-- The results that can be seen at the end of the region that is being built. -/
def Draft.seen (d : Draft) : List Value := topResults d.ops.toList

structure Grows (carried : List Value) (d d' : Draft) (held : List Value) : Prop where
  added : ∃ new fresh, d'.ops.toList = d.ops.toList ++ new ∧ Proper d.seen new ∧
    Fresh d.next d'.next fresh ∧ (listResults new ++ held).Perm (carried ++ fresh)

variable {carried held : List Value} {d d' d'' : Draft}

theorem Grows.refl (h : held.Perm carried) : Grows carried d d held :=
  ⟨[], [], by simp, .nil, .nil, by simpa [listResults] using h⟩

theorem Grows.seen_subset (h : Grows carried d d' held) : d.seen ⊆ d'.seen := by
  obtain ⟨new, fresh, hops, -⟩ := h.added
  rw [Draft.seen, Draft.seen, hops, topResults, topResults, filterMap_append]
  exact subset_append_left _ _

theorem Grows.trans {more : List Value} (h : Grows carried d d' held) (h' : Grows held d' d'' more) :
    Grows carried d d'' more := by
  obtain ⟨new, fresh, hops, hscoped, hfresh, hperm⟩ := h.added
  obtain ⟨new', fresh', hops', hscoped', hfresh', hperm'⟩ := h'.added
  have hseen : d'.seen ⊆ topResults new ++ d.seen := by
    intro v hv
    rw [Draft.seen, hops, topResults, filterMap_append] at hv
    exact mem_append.2 (mem_append.1 hv).symm
  refine ⟨new ++ new', fresh ++ fresh', ?_, hscoped.append (hscoped'.mono hseen), hfresh.append hfresh', ?_⟩
  · rw [hops', hops, append_assoc]
  · rw [listResults_append, append_assoc]
    calc (listResults new ++ (listResults new' ++ more)).Perm (listResults new ++ (held ++ fresh')) :=
          hperm'.append_left _
      _ = ((listResults new ++ held) ++ fresh') := (append_assoc ..).symm
      List.Perm _ ((carried ++ fresh) ++ fresh') := hperm.append_right _
      _ = carried ++ (fresh ++ fresh') := append_assoc ..

namespace Gen

variable {α β : Type} {seen : List Value}

/-- A computation adds well-scoped operations to every draft in which `seen` can be seen. -/
def Builds (seen carried : List Value) (x : Gen α) (held : α → List Value) (post : α → List Value → Prop) : Prop :=
  ∀ m d d' a, seen ⊆ d.seen → x m d = .ok (a, d') → Grows carried d d' (held a) ∧ post a d'.seen

abbrev Appends (seen carried : List Value) (x : Gen α) : Prop :=
  Builds seen carried x (fun _ => carried) fun _ _ => True

/-! ## Rules -/

namespace Builds

variable {x : Gen α} {f : α → Gen β} {held : α → List Value} {post : α → List Value → Prop}
  {held' : β → List Value} {post' : β → List Value → Prop}

theorem pure {a : α} (hheld : (held a).Perm carried) (hpost : ∀ other, seen ⊆ other → post a other) :
    Builds seen carried (Pure.pure a) held post := by
  intro m d d' b hseen hrun
  obtain ⟨rfl, rfl⟩ := pure_ok.1 hrun
  exact ⟨.refl hheld, hpost _ hseen⟩

theorem bind (hx : Builds seen carried x held post)
    (hf : ∀ a other, seen ⊆ other → post a other → Builds other (held a) (f a) held' post') :
    Builds seen carried (x >>= f) held' post' := by
  intro m d d' b hseen hrun
  obtain ⟨a, e, ha, hb⟩ := bind_ok.1 hrun
  obtain ⟨hgrows, hpost⟩ := hx m d e a hseen ha
  have hsubset := List.Subset.trans hseen hgrows.seen_subset
  obtain ⟨hgrows', hpost'⟩ := hf a e.seen hsubset hpost m e d' b (List.Subset.refl _) hb
  exact ⟨hgrows.trans hgrows', hpost'⟩

theorem pure_bind {a : α} (h : Builds seen carried (f a) held' post') :
    Builds seen carried (Pure.pure a >>= f) held' post' := by
  intro m d d' b hseen hrun
  obtain ⟨a', e, ha, hb⟩ := bind_ok.1 hrun
  obtain ⟨rfl, rfl⟩ := pure_ok.1 ha
  exact h m d d' b hseen hb

theorem recarry {other : List Value} (h : Builds seen carried x held post) (hperm : carried.Perm other) :
    Builds seen other x held post := by
  intro m d d' a hseen hrun
  obtain ⟨hgrows, hpost⟩ := h m d d' a hseen hrun
  obtain ⟨new, fresh, hops, hscoped, hfresh, hall⟩ := hgrows.added
  exact ⟨⟨new, fresh, hops, hscoped, hfresh, hall.trans (hperm.append_right _)⟩, hpost⟩

theorem throw {e : BackendError} : Builds seen carried (throw e) held post :=
  fun _ _ _ _ _ hrun => absurd hrun throw_ok

theorem read : Appends seen carried (read : Gen Module) := by
  intro m d d' a hseen hrun
  obtain ⟨-, rfl⟩ := read_ok.1 hrun
  exact ⟨.refl (.refl _), trivial⟩

theorem lift {x : Except BackendError α} : Appends seen carried (liftM x) := by
  intro m d d' a hseen hrun
  obtain ⟨-, rfl⟩ := lift_ok.1 hrun
  exact ⟨.refl (.refl _), trivial⟩

end Builds

/-! ## Operations and regions -/

/-- An operation that has no result yet and can be added where `seen` can be seen. -/
structure Ready (seen : List Value) (op : Op) : Prop where
  result_eq : op.head.result = none
  operands_subset : op.head.operands ⊆ seen
  regular : op.head.Regular
  regions_proper : ∀ region ∈ op.regions, Proper [] region

/-- The operation of a function cannot be merged. -/
abbrev PreparesFunction (seen carried : List Value) (x : Gen Op) : Prop := Builds seen carried x
  (fun op => regionsResults op.regions ++ carried) fun op other => Ready other op ∧ op.head.opcode.isMergeable = false

abbrev Prepares (seen held carried : List Value) (x : Gen Op) : Prop :=
  Builds seen held x (fun op => regionsResults op.regions ++ carried) fun op other => Ready other op

theorem PreparesFunction.prepares {x : Gen Op} (h : PreparesFunction seen carried x) :
    Prepares seen carried carried x :=
  fun m d d' op hseen hrun => (h m d d' op hseen hrun).imp_right And.left

variable {op : Op}

theorem Ready.proper {result : Option Value} (h : Ready seen op) :
    Proper seen [.mk { op.head with result } op.regions] where
  listScoped := listScoped_cons.2 ⟨h.operands_subset,
    fun region hregion => (h.regions_proper region hregion).listScoped.mono (nil_subset _), trivial⟩
  regular := by
    rintro head (_ | ⟨hregion, hhead⟩ | hhead)
    · exact h.regular
    · exact (h.regions_proper _ hregion).regular head hhead
    · cases hhead

theorem push_ok {m : Module} {u : Unit} : push op m d = .ok (u, d') ↔ { d with ops := d.ops.push op } = d' :=
  modify_ok

attribute [local simp] Op.regions

theorem push_builds (h : Ready seen op) :
    Builds seen (regionsResults op.regions ++ carried) (push op) (fun _ => carried) fun _ _ => True := by
  intro m d d' u hseen hrun
  obtain rfl := push_ok.1 hrun
  refine ⟨⟨[op], [], by simp, ?_, .nil, ?_⟩, trivial⟩
  · cases op with
    | mk head regions => exact h.proper.mono hseen
  · cases op with
    | mk head regions => simp [listResults, results, show head.result = none from h.result_eq]

theorem define_builds (h : Ready seen op) :
    Builds seen (regionsResults op.regions ++ carried) (define op) (fun _ => carried)
      fun v other => v ∈ other := by
  intro m d d' v hseen hrun
  obtain ⟨e, e', hget, hrun⟩ := bind_ok.1 hrun
  obtain ⟨rfl, rfl⟩ := get_ok.1 hget
  obtain ⟨u, e, hnext, hrun⟩ := bind_ok.1 hrun
  obtain rfl := modify_ok.1 hnext
  obtain ⟨u, e, hpush, hrun⟩ := bind_ok.1 hrun
  obtain rfl := push_ok.1 hpush
  obtain ⟨rfl, rfl⟩ := pure_ok.1 hrun
  have hfresh : Fresh d.next (d.next + 1) [d.next] := ⟨Nat.le_succ _, by simp, by simp⟩
  refine ⟨⟨[.mk { op.head with result := some d.next } op.regions], [d.next], by simp, ?_, hfresh, ?_⟩, ?_⟩
  · exact h.proper.mono hseen
  · simp only [listResults, results, Option.toList_some, append_nil]
    rw [append_assoc]
    exact perm_append_comm
  · simp [Draft.seen, topResults, Op.head]

theorem region_builds {build : Gen Unit} (h : Appends [] [] build) :
    Builds seen carried (region build) (fun region => listResults region ++ carried)
      fun region _ => Proper [] region := by
  intro m d d' ops hseen hrun
  obtain ⟨e, e', hget, hrun⟩ := bind_ok.1 hrun
  obtain ⟨rfl, rfl⟩ := get_ok.1 hget
  obtain ⟨u, e, hempty, hrun⟩ := bind_ok.1 hrun
  obtain rfl := modify_ok.1 hempty
  obtain ⟨u, e, hbuild, hrun⟩ := bind_ok.1 hrun
  obtain ⟨e₁, e', hget, hrun⟩ := bind_ok.1 hrun
  obtain ⟨rfl, rfl⟩ := get_ok.1 hget
  obtain ⟨u, e₂, hback, hrun⟩ := bind_ok.1 hrun
  obtain rfl := modify_ok.1 hback
  obtain ⟨rfl, rfl⟩ := pure_ok.1 hrun
  obtain ⟨hgrows, -⟩ := h m _ e u (nil_subset _) hbuild
  obtain ⟨new, fresh, hops, hscoped, hfresh, hperm⟩ := hgrows.added
  obtain rfl : new = e.ops.toList := hops.symm
  refine ⟨⟨[], fresh, by simp, .nil, hfresh, ?_⟩, hscoped⟩
  exact (List.Perm.append_right carried (by simpa using hperm)).trans perm_append_comm

/-! ## Parts of operations -/

variable {id : NodeId} {f : α → Gen Unit}

theorem node_builds : Appends seen carried (node id) :=
  Builds.read.bind fun _ _ _ _ => .lift

theorem unsupported_builds {held : α → List Value} {post : α → List Value → Prop} {node : Node} {reason : String} :
    Builds seen carried (unsupported node reason) held post :=
  .throw

theorem nameWithin_builds {depth : Nat} : Appends seen carried (nameWithin depth id) := by
  induction depth generalizing seen id with
  | zero => exact .throw
  | succ depth ih =>
    refine node_builds.bind fun node other _ _ => ?_
    split
    case h_4 => exact ih
    case h_5 => exact unsupported_builds
    all_goals exact .pure (.refl _) fun _ _ => trivial

theorem name_builds : Appends seen carried (name id) :=
  Builds.read.bind fun _ _ _ _ => nameWithin_builds

theorem nameAttr_builds {key : String} : Appends seen carried (nameAttr key id) :=
  name_builds.bind fun _ _ _ _ => .pure (.refl _) fun _ _ => trivial

structure Sound (r : Generators) : Prop where
  expr : ∀ seen carried id, Builds seen carried (r.expr id) (fun _ => carried) fun v other => v ∈ other
  stmt : ∀ seen carried id, Appends seen carried (r.stmt id)

theorem forM_builds {ids : List α} (hf : ∀ seen id, Appends seen carried (f id)) :
    Appends seen carried (ids.forM f) := by
  induction ids generalizing seen with
  | nil => exact .pure (.refl _) fun _ _ => trivial
  | cons id ids ih =>
    exact (hf seen id).bind fun _ _ _ _ => ih

theorem option_forM_builds {id? : Option α} (hf : ∀ id, Appends seen carried (f id)) :
    Appends seen carried (id?.forM f) := by
  cases id? with
  | none => exact .pure (.refl _) fun _ _ => trivial
  | some id => exact hf id

variable {r : Generators} (hr : Sound r) {id? : Option NodeId} {ids : List NodeId} {attrs : Attrs}
include hr

theorem mapM_builds {items : List α} {id : α → NodeId} :
    Builds seen carried (items.mapM fun item => r.expr (id item)) (fun _ => carried) fun vs other => vs ⊆ other := by
  induction items generalizing seen with
  | nil => exact .pure (.refl _) fun _ _ => nil_subset _
  | cons item items ih =>
    rw [mapM_cons]
    refine (hr.expr seen carried (id item)).bind fun v other _ hv => ih.bind fun vs last hlast hvs => ?_
    exact .pure (.refl _) fun _ h => cons_subset.2 ⟨h (hlast hv), List.Subset.trans hvs h⟩

theorem body_builds : Builds seen carried (body r id)
    (fun region => listResults region ++ carried) fun region _ => Proper [] region :=
  Builds.read.bind fun _ _ _ _ => Builds.lift.bind fun _ _ _ _ =>
    region_builds (forM_builds fun seen => hr.stmt seen [])

theorem body?_builds : Builds seen carried (body? r id?)
    (fun region => listResults region ++ carried) fun region _ => Proper [] region := by
  cases id? with
  | some id => exact body_builds hr
  | none => exact .pure (.refl _) fun _ _ => .nil

theorem yielding_builds : Builds seen carried (yielding r id)
    (fun region => listResults region ++ carried) fun region _ => Proper [] region := by
  refine region_builds ((hr.expr [] [] id).bind fun v other _ hv => ?_)
  exact push_builds ⟨rfl, by simpa [Op.head] using hv, nofun, by simp⟩

theorem expr?_builds : Builds seen carried (expr? r id?) (fun _ => carried) fun vs other => vs ⊆ other := by
  cases id? with
  | some id =>
    exact (hr.expr seen carried id).bind fun v other _ hv => .pure (.refl _) fun _ h => by simpa using h hv
  | none => exact .pure (.refl _) fun _ _ => nil_subset _

theorem effect_builds : Appends seen carried (effect r id) :=
  (hr.expr seen carried id).bind fun _ _ _ _ => .pure (.refl _) fun _ _ => trivial

omit hr in
theorem mapM_name_builds : Appends seen carried (ids.mapM name) := by
  induction ids generalizing seen with
  | nil => exact .pure (.refl _) fun _ _ => trivial
  | cons id ids ih =>
    rw [mapM_cons]
    exact name_builds.bind fun _ _ _ _ => ih.bind fun _ _ _ _ => .pure (.refl _) fun _ _ => trivial

omit hr in
theorem Ready.withAttrs (h : Ready seen op) (hopcode : op.head.opcode.isMergeable = false) :
    Ready seen (op.withAttrs attrs) := by
  cases op with
  | mk head regions =>
    exact ⟨h.result_eq, h.operands_subset, fun h => absurd (hopcode.symm.trans h) nofun, h.regions_proper⟩

variable {opcode : Opcode} {computed : Bool} {operands : List Value}

attribute [local simp] regionsResults

omit hr in
theorem held_perm {regions : List (List Op)} :
    (regionsResults regions ++ carried).Perm
      (regions.foldl (fun held region => listResults region ++ held) carried) := by
  induction regions generalizing carried with
  | nil => exact .refl _
  | cons region regions ih =>
    rw [regionsResults, append_assoc]
    exact (perm_append_comm_assoc ..).trans ih

omit hr in
theorem ready_builds {regions : List (List Op)} (hoperands : operands ⊆ seen)
    (hregular : Head.Regular { opcode, operands, attrs }) (hregions : ∀ region ∈ regions, Proper [] region)
    (hheld : (regionsResults regions ++ carried).Perm held) :
    Prepares seen held carried (Pure.pure (Op.mk { opcode, operands, attrs } regions)) :=
  .pure hheld fun _ h => ⟨rfl, List.Subset.trans hoperands h, hregular, hregions⟩

omit hr in
/-- An operation without regions. -/
theorem simple_builds (hoperands : operands ⊆ seen) (hregular : Head.Regular { opcode, operands, attrs }) :
    Prepares seen carried carried (Pure.pure (Op.mk { opcode, operands, attrs } [])) :=
  ready_builds hoperands hregular (by simp) (by simp)

theorem function_builds {f : FunctionNode} (hopcode : opcode.isMergeable = false) :
    PreparesFunction seen carried (function r opcode f) := by
  refine mapM_name_builds.bind fun params other _ _ => ?_
  have hbody (seen : List Value) (attrs : Attrs) : PreparesFunction seen carried
      (body r f.body >>= fun region => pure (.mk { opcode, attrs } [region])) :=
    (body_builds hr).bind fun region other _ hregion => .pure (by simp) fun _ _ =>
      ⟨⟨rfl, nil_subset _, fun h => absurd (hopcode.symm.trans h) nofun, by simpa using hregion⟩, hopcode⟩
  dsimp only
  split
  · exact nameAttr_builds.bind fun rest last _ _ => hbody last _
  · exact .pure_bind (hbody other _)

theorem functionOf_builds (hopcode : opcode.isMergeable = false) :
    PreparesFunction seen carried (functionOf r opcode id) := by
  refine node_builds.bind fun node other _ _ => ?_
  split
  · exact function_builds hr hopcode
  · exact unsupported_builds

theorem keyAndValue_builds {key value : NodeId} :
    Builds seen carried (keyAndValue r key value computed) (fun _ => carried) fun p other => p.1 ⊆ other := by
  have hvalue (operands seen : List Value) (attrs : Attrs) (hoperands : operands ⊆ seen) : Builds seen carried
      (r.expr value >>= fun v => pure (operands ++ [v], attrs)) (fun _ => carried) fun p other => p.1 ⊆ other := by
    refine (hr.expr seen carried value).bind fun v other hother hv => .pure (.refl _) fun last hlast => ?_
    have hall := List.Subset.trans hother hlast
    exact append_subset.2 ⟨List.Subset.trans hoperands hall, by simpa using hlast hv⟩
  cases computed with
  | true =>
    exact (hr.expr seen carried key).bind fun k other _ hk => .pure_bind (hvalue [k] other [] (by simpa using hk))
  | false => exact nameAttr_builds.bind fun attrs other _ _ => .pure_bind (hvalue [] other attrs (nil_subset _))

theorem methodDefinition_builds : Appends seen carried (methodDefinition r id) := by
  refine node_builds.bind fun node other _ _ => ?_
  split
  · exact (functionOf_builds hr rfl).bind fun op last _ hop => push_builds (hop.1.withAttrs hop.2)
  · exact unsupported_builds

theorem staticProperty_builds : Appends seen carried (staticProperty r id) := by
  refine node_builds.bind fun node other _ _ => ?_
  split
  · exact (keyAndValue_builds hr).bind fun p last _ hp => push_builds ⟨rfl, hp, nofun, by simp⟩
  · exact unsupported_builds

theorem classBody_builds {c : ClassNode} : Prepares seen carried carried (classBody r c) := by
  have hmembers : Appends [] [] (do push (← functionOf r .initializer c.constructor)
                                    c.methods.forM (methodDefinition r)
                                    c.staticProperties.forM (staticProperty r)) := by
    refine (functionOf_builds hr rfl).bind fun op other _ hop => (push_builds hop.1).bind fun _ _ _ _ => ?_
    refine (forM_builds fun seen id => methodDefinition_builds hr).bind fun _ _ _ _ => ?_
    exact forM_builds fun seen id => staticProperty_builds hr
  refine (expr?_builds hr).bind fun operands other _ hoperands => ?_
  refine (region_builds hmembers).bind fun members last hlast hscoped => ?_
  exact ready_builds (List.Subset.trans hoperands hlast) nofun (by simpa using hscoped) (by simp)

/-! ## Expressions -/

theorem place_builds : Builds seen carried (place r id) (fun _ => carried) fun p other => p.1 ⊆ other := by
  refine node_builds.bind fun node other _ _ => ?_
  split
  case h_1 => exact .pure (.refl _) fun _ _ => nil_subset _
  case h_2 object property _ =>
    refine (hr.expr other carried object).bind fun v last _ hv => nameAttr_builds.bind fun attrs final hfinal _ => ?_
    exact .pure (.refl _) fun _ h => by simpa using h (hfinal hv)
  case h_3 object property _ =>
    refine (hr.expr other carried object).bind fun v last _ hv => ?_
    refine (hr.expr last carried property).bind fun k final hfinal hk => .pure (.refl _) fun _ h => ?_
    simp [h (hfinal hv), h hk]
  case h_4 => exact unsupported_builds

theorem templateParts_builds :
    Builds seen carried (templateParts r ids) (fun _ => carried) fun p other => p.2 ⊆ other := by
  induction ids generalizing seen with
  | nil => exact .pure (.refl _) fun _ _ => nil_subset _
  | cons id ids ih =>
    refine node_builds.bind fun node other _ _ => ?_
    split
    · exact ih.bind fun p last _ hp => .pure (.refl _) fun _ => List.Subset.trans hp
    · refine (hr.expr other carried id).bind fun v last _ hv => ih.bind fun p final hfinal hp => ?_
      exact .pure (.refl _) fun _ h => cons_subset.2 ⟨h (hfinal hv), List.Subset.trans hp h⟩

theorem objectMember_builds : Appends seen carried (objectMember r id) := by
  refine node_builds.bind fun node other _ _ => ?_
  split
  case h_1 => exact (keyAndValue_builds hr).bind fun p last _ hp => push_builds ⟨rfl, hp, nofun, by simp⟩
  case h_2 argument _ =>
    refine (hr.expr other carried argument).bind fun v last _ hv => ?_
    exact push_builds ⟨rfl, by simpa [Op.head] using hv, nofun, by simp⟩
  case h_3 => exact unsupported_builds

theorem callLike_builds {callee : NodeId} {items : List ListItem} (hopcode : opcode.isMergeable = false) :
    Prepares seen carried carried (callLike r opcode callee items) := by
  refine (hr.expr seen carried callee).bind fun v other _ hv => (mapM_builds hr).bind fun vs last hlast hvs => ?_
  exact simple_builds (cons_subset.2 ⟨hlast hv, hvs⟩) fun h => absurd (hopcode.symm.trans h) nofun

theorem member_builds {object property : NodeId} :
    Prepares seen carried carried (member r object property computed) := by
  refine (hr.expr seen carried object).bind fun v other _ hv => ?_
  cases computed with
  | true =>
    refine (hr.expr other carried property).bind fun k last hlast hk => ?_
    exact simple_builds (by simp [hlast hv, hk]) nofun
  | false =>
    refine nameAttr_builds.bind fun attrs last hlast _ => ?_
    exact simple_builds (by simpa using hlast hv) nofun

theorem conditional_builds {test consequent alternate : NodeId} : Prepares seen carried carried
    (do let condition ← r.expr test
        let consequent ← yielding r consequent
        let alternate ← yielding r alternate
        return .mk { opcode := .select, operands := [condition] } [consequent, alternate]) := by
  refine (hr.expr seen carried test).bind fun v other _ hv => ?_
  refine (yielding_builds hr).bind fun first last hlast hfirst => ?_
  refine (yielding_builds hr).bind fun second final hfinal hsecond => ?_
  exact ready_builds (by simpa using hfinal (hlast hv)) nofun (by simp [hfirst, hsecond]) held_perm

theorem exprOp_builds {node : Node} : Prepares seen carried carried (exprOp r node) := by
  unfold exprOp
  split
  case h_7 =>
    refine (templateParts_builds hr).bind fun p other _ hp => ?_
    exact simple_builds hp nofun
  case h_8 =>
    split
    · exact simple_builds (nil_subset _) fun _ => rfl
    · exact simple_builds (nil_subset _) nofun
  case h_11 operator left right _ =>
    refine (hr.expr seen carried left).bind fun v other _ hv => ?_
    refine (hr.expr other carried right).bind fun w last hlast hw => ?_
    exact simple_builds (by simp [hlast hv, hw]) fun _ => rfl
  case h_12 operator left right _ =>
    refine (hr.expr seen carried left).bind fun v other _ hv => ?_
    refine (yielding_builds hr).bind fun region last hlast hregion => ?_
    exact ready_builds (by simpa using hlast hv) nofun (by simpa using hregion) (by simp)
  case h_14 operator before argument _ =>
    refine (place_builds hr).bind fun p other _ hp => ?_
    exact simple_builds hp nofun
  case h_15 operator target value _ =>
    refine (place_builds hr).bind fun p other _ hp => ?_
    refine (hr.expr other carried value).bind fun v last hlast hv => ?_
    refine simple_builds (append_subset.2 ⟨List.Subset.trans hp hlast, ?_⟩) nofun
    simpa using hv
  case h_16 => exact conditional_builds hr
  case h_17 => exact callLike_builds hr rfl
  case h_18 => exact callLike_builds hr rfl
  case h_19 => exact member_builds hr
  case h_20 =>
    refine (mapM_builds hr).bind fun vs other _ hvs => ?_
    exact simple_builds hvs nofun
  case h_21 properties _ =>
    refine (region_builds (forM_builds fun seen id => objectMember_builds hr)).bind fun region other _ hregion => ?_
    exact ready_builds (nil_subset _) nofun (by simpa using hregion) (by simp)
  case h_22 expressions _ =>
    have hvalues : Builds seen carried (expressions.mapM r.expr) (fun _ => carried) fun vs other => vs ⊆ other :=
      mapM_builds hr
    refine hvalues.bind fun vs other _ hvs => ?_
    exact simple_builds hvs nofun
  case h_13 | h_23 =>
    refine (hr.expr seen carried _).bind fun v other _ hv => ?_
    exact simple_builds (by simpa using hv) fun _ => rfl
  case h_24 => exact (function_builds hr rfl).prepares
  case h_25 =>
    refine (function_builds hr rfl).bind fun op other _ ⟨hop, hopcode⟩ => .pure ?_ fun _ h => ?_
    · cases op with
      | mk head regions => exact .refl _
    · exact Ready.withAttrs { hop with operands_subset := List.Subset.trans hop.operands_subset h } hopcode
  case h_26 => exact classBody_builds hr
  case h_27 => exact unsupported_builds
  all_goals exact simple_builds (nil_subset _) fun _ => rfl

theorem exprStep_builds : Builds seen carried (exprStep r id) (fun _ => carried) fun v other => v ∈ other :=
  node_builds.bind fun _ _ _ _ => (exprOp_builds hr).bind fun _ _ _ => define_builds

/-! ## Statements -/

theorem declarator_builds {kind : DeclarationKind} : Appends seen carried (declarator r kind id) := by
  refine node_builds.bind fun node other _ _ => ?_
  split
  · exact (expr?_builds hr).bind fun operands last _ hoperands => push_builds ⟨rfl, hoperands, nofun, by simp⟩
  · exact unsupported_builds

theorem forInit_builds : Appends seen carried (forInit r id) := by
  refine node_builds.bind fun node other _ _ => ?_
  split
  · exact hr.stmt other carried id
  · exact effect_builds hr

theorem forLoop_builds {init test update : Option NodeId} {bodyId : NodeId} :
    Prepares seen carried carried (forLoop r init test update bodyId) := by
  refine (region_builds (option_forM_builds fun id => forInit_builds hr)).bind fun init other _ hinit => ?_
  have hrest (seen : List Value) (test : List Op) (htest : Proper [] test) :
      Prepares seen (listResults test ++ (listResults init ++ carried)) carried
        (do let update ← region (update.forM (effect r))
            let body ← body r bodyId
            return .mk { opcode := .forLoop } [init, test, update, body]) := by
    refine (region_builds (option_forM_builds fun id => effect_builds hr)).bind fun update other _ hupdate => ?_
    refine (body_builds hr).bind fun inside last _ hinside => ?_
    exact ready_builds (nil_subset _) nofun (by simp [hinit, htest, hupdate, hinside]) held_perm
  cases test with
  | some test => exact (yielding_builds hr).bind fun test last _ => hrest last test
  | none => exact .pure_bind (hrest other [] .nil)

theorem handlerParts_builds : Builds seen carried (handlerParts r id)
    (fun p => listResults p.2 ++ carried) fun p _ => Proper [] p.2 := by
  refine node_builds.bind fun node other _ _ => ?_
  have hbody (seen : List Value) (attrs : Attrs) (bodyId : NodeId) : Builds seen carried
      (body r bodyId >>= fun region => pure (attrs, region)) (fun p => listResults p.2 ++ carried)
      fun p _ => Proper [] p.2 :=
    (body_builds hr).bind fun region _ _ hregion => .pure (.refl _) fun _ _ => hregion
  split
  case h_1 param bodyId _ =>
    cases param with
    | some param => exact nameAttr_builds.bind fun attrs last _ _ => hbody last attrs bodyId
    | none => exact .pure_bind (hbody other [] bodyId)
  case h_2 => exact unsupported_builds

theorem tryBlock_builds {block : NodeId} {handler finalizer : Option NodeId} :
    Prepares seen carried carried (tryBlock r block handler finalizer) := by
  refine (body_builds hr).bind fun block other _ hblock => ?_
  have hrest (seen : List Value) (attrs : Attrs) (handler : List Op) (hhandler : Proper [] handler) :
      Prepares seen (listResults handler ++ (listResults block ++ carried)) carried
        (do let finalizer ← body? r finalizer
            return .mk { opcode := .tryBlock, attrs } [block, handler, finalizer]) := by
    refine (body?_builds hr).bind fun finalizer other _ hfinalizer => ?_
    exact ready_builds (nil_subset _) nofun (by simp [hblock, hhandler, hfinalizer]) held_perm
  cases handler with
  | some handler => exact (handlerParts_builds hr).bind fun p last _ => hrest last p.1 p.2
  | none => exact .pure_bind (hrest other [] [] .nil)

theorem switchCase_builds : Appends seen carried (switchCase r id) := by
  refine node_builds.bind fun node other _ _ => ?_
  split
  case h_1 test consequent _ =>
    refine (expr?_builds hr).bind fun operands last _ hoperands => ?_
    refine (region_builds (forM_builds fun seen => hr.stmt seen [])).bind fun region final hfinal hregion => ?_
    have hready (attrs : Attrs) : Ready final (.mk { opcode := .caseOf, operands, attrs } [region]) :=
      ⟨rfl, List.Subset.trans hoperands hfinal, nofun, by simpa using hregion⟩
    exact (push_builds (hready _)).recarry (by simp)
  case h_2 => exact unsupported_builds

theorem stmtOp_builds {node : Node} : Prepares seen carried carried (stmtOp r node) := by
  unfold stmtOp
  split
  case h_1 => exact (function_builds hr rfl).prepares
  case h_2 => exact classBody_builds hr
  case h_3 ids _ =>
    refine (region_builds (forM_builds fun seen => hr.stmt seen [])).bind fun region other _ hregion => ?_
    exact ready_builds (nil_subset _) nofun (by simpa using hregion) (by simp)
  case h_4 test consequent alternate _ =>
    refine (hr.expr seen carried test).bind fun v other _ hv => ?_
    refine (body?_builds hr).bind fun alternate last hlast halternate => ?_
    refine (body_builds hr).bind fun consequent final hfinal hconsequent => ?_
    exact ready_builds (by simpa using hfinal (hlast hv)) nofun (by simp [halternate, hconsequent]) (by simp)
  case h_5 => exact forLoop_builds hr
  case h_6 iterate binding iterable bodyId _ =>
    refine (hr.expr seen carried iterable).bind fun v other _ hv => nameAttr_builds.bind fun name last hlast _ => ?_
    refine (body_builds hr).bind fun region final hfinal hregion => ?_
    exact ready_builds (by simpa using hfinal (hlast hv)) nofun (by simpa using hregion) (by simp)
  case h_7 test bodyId _ =>
    refine (yielding_builds hr).bind fun test other _ htest => (body_builds hr).bind fun region last _ hregion => ?_
    exact ready_builds (nil_subset _) nofun (by simp [htest, hregion]) held_perm
  case h_8 bodyId test _ =>
    refine (body_builds hr).bind fun region other _ hregion => (yielding_builds hr).bind fun test last _ htest => ?_
    exact ready_builds (nil_subset _) nofun (by simp [htest, hregion]) held_perm
  case h_9 => exact simple_builds (nil_subset _) nofun
  case h_10 => exact simple_builds (nil_subset _) nofun
  case h_11 =>
    refine (expr?_builds hr).bind fun operands other _ hoperands => ?_
    exact simple_builds hoperands nofun
  case h_12 argument _ =>
    refine (hr.expr seen carried argument).bind fun v other _ hv => ?_
    exact simple_builds (by simpa using hv) nofun
  case h_13 => exact tryBlock_builds hr
  case h_14 discriminant cases _ =>
    refine (hr.expr seen carried discriminant).bind fun v other _ hv => ?_
    refine (region_builds (forM_builds fun seen id => switchCase_builds hr)).bind fun region last hlast hregion => ?_
    exact ready_builds (by simpa using hlast hv) nofun (by simpa using hregion) (by simp)
  case h_15 => exact unsupported_builds

theorem stmtStep_builds : Appends seen carried (stmtStep r id) := by
  refine node_builds.bind fun node other _ _ => ?_
  split
  case h_1 => exact effect_builds hr
  case h_2 => exact forM_builds fun seen id => declarator_builds hr
  case h_3 => exact .pure (.refl _) fun _ _ => trivial
  case h_4 => exact (stmtOp_builds hr).bind fun op last _ => push_builds

end Gen

end Retarget.Mlir
