import Retarget.Proofs.Lower.Destructure.Emit

/-!
# Destructuring preserves meaning

* `Yields setting g s σ steps bound heap`: run from `σ`, the declarators `steps` give the names their values.
* `Task.Lowered`: what lowering makes of a task does the same.
* `Binds.lowered`: by induction on how the task is done, with one lemma for each way to take a value apart.
* `declarators_bind`: the declarators of a pattern bind its names to the values that the pattern gives them.
-/

namespace Retarget

open Syntax LowerM List Stateful Syntax.Tree Make

namespace Destructure

variable {s u s' : LowerState} {names names' : List String} {g : Graph} {setting : Setting} {σ σ' : Store}
  {steps steps' : List NodeId} {heap heap' : Heap} {bound bound' : Bound}

/-! ## Yields -/

/-- Run from `σ`, the declarators end with the heap, and the names are bound to their values. -/
def Yields (setting : Setting) (g : Graph) (s : LowerState) (σ : Store) (steps : List NodeId) (bound : Bound)
    (heap : Heap) : Prop :=
  ∃ vars, Runs setting g σ steps ⟨vars, heap⟩ ∧
    ∀ entry ∈ bound, ∃ d ∈ steps, s.scopes.local? entry.1 = some d ∧ vars d = some entry.2

namespace Yields

theorem after (h : Runs setting g σ steps σ') (h' : Yields setting g s σ' steps' bound heap) :
    Yields setting g s σ (steps ++ steps') bound heap := by
  obtain ⟨vars, hruns, hbound⟩ := h'
  refine ⟨vars, h.append hruns, fun entry hentry => ?_⟩
  obtain ⟨d, hd, hrest⟩ := hbound entry hentry
  exact ⟨d, mem_append.2 (.inr hd), hrest⟩

theorem append (h : Yields setting g u σ steps bound heap) (hfirst : Emits names s u steps)
    (hsecond : Emits names' u s' steps') (hnames : ∀ entry ∈ bound, entry.1 ∉ names')
    (h' : ∀ vars, (∀ x ∉ steps, vars x = σ.vars x) → Yields setting g s' ⟨vars, heap⟩ steps' bound' heap') :
    Yields setting g s' σ (steps ++ steps') (bound ++ bound') heap' := by
  obtain ⟨vars, hruns, hbound⟩ := h
  obtain ⟨vars', hruns', hbound'⟩ := h' vars fun x => hruns.vars_eq
  refine ⟨vars', hruns.append hruns', fun entry hentry => ?_⟩
  obtain hentry | hentry := mem_append.1 hentry
  · obtain ⟨d, hd, hlocal, hvalue⟩ := hbound entry hentry
    obtain ⟨k, hk⟩ := hfirst.stored d hd
    have hnew : d ∉ steps' := by
      intro hd'
      have hnone := hsecond.fresh d hd'
      rw [hk] at hnone
      cases hnone
    refine ⟨d, mem_append.2 (.inl hd), ?_, ?_⟩
    · rw [hsecond.locals _ (hnames entry hentry)]
      exact hlocal
    · rw [← hvalue]
      exact hruns'.vars_eq hnew
  · obtain ⟨d, hd, hrest⟩ := hbound' entry hentry
    exact ⟨d, mem_append.2 (.inr hd), hrest⟩

end Yields

/-! ## Tasks -/

/-- The names of a task are distinct and other than `Object`, and its literal keys are written as they are read. -/
structure Task.Fair (task : Task) : Prop where
  nodup : task.names.Nodup
  object : "Object" ∉ task.names
  keys : ∀ lit ∈ task.literalKeys, lit.key = lit.propertyName

/-- The builder is tidy, and `Object` is the global one. -/
structure Clear (s : LowerState) : Prop where
  tidy : s.builder.Tidy
  object : s.scopes.resolve? "Object" = none

theorem Clear.extends (h : Clear s) (hnext : s.Extends names s') (hnames : "Object" ∉ names) : Clear s' :=
  ⟨hnext.tidy, (hnext.resolves _ hnames).trans h.object⟩

abbrev Start := Setting → Graph → Store → Prop

def Start.holds (d : NodeId) (v : Val) (heap : Heap) : Start := fun _ _ σ => σ.vars d = some v ∧ σ.heap = heap

def Start.evaluates (id : NodeId) (v : Val) (heap : Heap) : Start := fun setting g σ =>
  Evaluates setting g σ.vars σ.heap (.nodes [id]) v heap

def Performs (names : List String) (s s' : LowerState) (steps : List NodeId) (start : Start) (bound : Bound)
    (heap' : Heap) : Prop :=
  Emits names s s' steps ∧
    ∀ g, Covers g s s' → ∀ setting σ, start setting g σ → Yields setting g s' σ steps bound heap'

def Task.Lowered (task : Task) (heap : Heap) (bound : Bound) (heap' : Heap) : Prop :=
  ∀ (depth : Nat) (kind : DeclarationKind) (s : LowerState), Clear s →
    match task with
    | .whole pattern v => ∀ value steps temp s',
        (lowerers depth).destructure (.declare kind) pattern value s = .ok ((steps, temp), s') →
          Performs task.names s s' steps (.evaluates value v heap) bound heap'
    | .members a taken list => ∀ (temp : Temp) hasRest steps s', (∃ k, s.builder.kind? temp.id = some k) →
        destructureMembers (lowerers depth) (.declare kind) temp hasRest (taken.map .name) list.toList s =
          .ok (steps, s') → Performs task.names s s' steps (.holds temp.id (.object a) heap) bound heap'
    | .elements a index list => ∀ (temp : Temp) steps s', (∃ k, s.builder.kind? temp.id = some k) →
        destructureElements (lowerers depth) (.declare kind) temp index (list.toList.map toOption) s =
          .ok (steps, s') → Performs task.names s s' steps (.holds temp.id (.object a) heap) bound heap'

variable {value : NodeId} {mode : BindingMode} {pattern : Pattern} {depth : Nat}

theorem exists_depth {result : (List NodeId × Option Temp) × LowerState}
    (hrun : (lowerers depth).destructure mode pattern value s = .ok result) :
    ∃ depth', destructurePattern (lowerers depth') mode pattern value s = .ok result := by
  cases depth with
  | zero => cases hrun
  | succ depth => exact ⟨depth, hrun⟩

/-! ## Names and defaults -/

variable {v : Val}

theorem identifier_lowered {id : Identifier} : (Task.whole (.idPattern id) v).Lowered heap [(id.name, v)] heap := by
  intro depth kind s hs value steps temp s' hrun
  obtain ⟨depth, hrun⟩ := exists_depth hrun
  obtain ⟨d, u, hdeclare, hrun⟩ := bind_ok.1 hrun
  obtain ⟨hresult, rfl⟩ := pure_ok.1 hrun
  cases hresult
  obtain ⟨hemits, hlocal, hkind⟩ := declareName_emits hs.tidy hdeclare
  refine ⟨hemits, fun g hg setting σ hv => ?_⟩
  have hd := hg _ _ (hemits.fresh d (by simp)) hkind
  refine ⟨_, .step hd hv .done, fun entry hentry => ⟨d, by simp, ?_⟩⟩
  obtain rfl := mem_singleton.1 hentry
  exact ⟨hlocal, Function.update_self _ _ _⟩

variable {start : Start} {w : Val} {taken : List String} {key : Expr} {name : String} {heap₂ : Heap} {r : Record}
  {argument : Pattern} {more : Tree (.list (.opt .pattern))} {array : DenseArray} {task : Task}

theorem Performs.declare {step : NodeId} {text : String} (hfirst : Emits [] s u [step])
    (hkind : u.builder.kind? step = some (.declarator text (some value)))
    (hrest : Performs names u s' steps start bound heap')
    (hstart : ∀ g, Covers g s u → ∀ setting σ, Start.holds step v heap setting g σ → start setting g σ) :
    Performs names s s' (step :: steps) (.evaluates value v heap) bound heap' := by
  obtain ⟨hsecond, hyields⟩ := hrest
  refine ⟨hfirst.append hsecond, fun g hg setting σ hv => ?_⟩
  have hleft := hg.left hsecond.toExtends
  have hstep := hleft _ _ (hfirst.fresh step (by simp)) hkind
  have hrun : Runs setting g σ [step] ⟨Function.update σ.vars step (some v), heap⟩ := .step hstep hv .done
  apply Yields.after hrun
  apply hyields g (hg.right hfirst.toExtends) setting
  exact hstart g hleft setting _ ⟨Function.update_self _ _ _, rfl⟩

variable {pos : Pos}

theorem default_lowered {target : Pattern} {lit : Literal} (hw : lit.inPlaceOf? v = some w)
    (ih : (Task.whole target w).Lowered heap bound heap') :
    (Task.whole (.defaultPattern target (.literal lit) pos) v).Lowered heap bound heap' := by
  intro depth kind s hs value steps temp s' hrun
  obtain ⟨depth, hrun⟩ := exists_depth hrun
  obtain ⟨⟨id, step⟩, u, hdefault, hrun⟩ := bind_ok.1 hrun
  obtain ⟨⟨steps, temp⟩, u', htarget, hrun⟩ := bind_ok.1 hrun
  obtain ⟨hresult, rfl⟩ := pure_ok.1 hrun
  cases hresult
  obtain ⟨hemits, ⟨text, hkind⟩, hgives⟩ := defaultValue_emits hs.tidy hdefault
  have hu := hs.extends hemits.toExtends (by simp)
  apply Performs.declare hemits hkind (ih depth kind u hu id steps temp u' htarget)
  rintro g hg setting ⟨vars, _⟩ ⟨hvalue, rfl⟩
  exact hgives g hg setting vars v w hvalue hw _

variable {a : Address}

theorem object_lowered {members : Tree (.list .patternMember)}
    (ih : (Task.members a [] members).Lowered heap bound heap') :
    (Task.whole (.objectPattern members pos) (.object a)).Lowered heap bound heap' := by
  intro depth kind s hs value steps temp s' hrun
  obtain ⟨depth, hrun⟩ := exists_depth hrun
  obtain ⟨⟨held, step⟩, u, hheld, hrun⟩ := bind_ok.1 hrun
  obtain ⟨steps, u', hmembers, hrun⟩ := bind_ok.1 hrun
  obtain ⟨hresult, rfl⟩ := pure_ok.1 hrun
  cases hresult
  obtain ⟨rfl, hemits, hkind⟩ := bindTemp_emits hs.tidy hheld
  have hu := hs.extends hemits.toExtends (by simp)
  exact (ih depth kind u hu held _ steps u' ⟨_, hkind⟩ hmembers).declare hemits hkind fun _ _ _ _ hσ => hσ

theorem array_lowered {elements : Tree (.list (.opt .pattern))}
    (ih : (Task.elements a 0 elements).Lowered heap bound heap') :
    (Task.whole (.arrayPattern elements pos) (.object a)).Lowered heap bound heap' := by
  intro depth kind s hs value steps temp s' hrun
  obtain ⟨depth, hrun⟩ := exists_depth hrun
  obtain ⟨⟨held, step⟩, u, hheld, hrun⟩ := bind_ok.1 hrun
  obtain ⟨steps, u', helements, hrun⟩ := bind_ok.1 hrun
  obtain ⟨hresult, rfl⟩ := pure_ok.1 hrun
  cases hresult
  obtain ⟨rfl, hemits, hkind⟩ := bindTemp_emits hs.tidy hheld
  have hu := hs.extends hemits.toExtends (by simp)
  exact (ih depth kind u hu held steps u' ⟨_, hkind⟩ helements).declare hemits hkind fun _ _ _ _ hσ => hσ

/-! ## Members -/

theorem noMember_lowered : (Task.members a taken .nil).Lowered heap [] heap := by
  intro depth kind s hs temp hasRest steps s' htemp hrun
  obtain ⟨rfl, rfl⟩ := pure_ok.1 hrun
  refine ⟨emits_nil ⟨id, hs.tidy, fun _ _ => rfl, fun _ _ => rfl⟩, ?_⟩
  rintro g hg setting ⟨vars, _⟩ ⟨-, rfl⟩
  exact ⟨vars, .done, by simp⟩

theorem patternKey_eq {r : Lowerers} (hkey : key.propertyName? = some name)
    (hlit : ∀ lit ∈ key.literal?.toList, lit.key = lit.propertyName) : patternKey r key false = pure (.name name) := by
  unfold propertyName? at hkey
  split at hkey
  · cases hkey
    rfl
  next lit =>
    cases hkey
    rw [← hlit lit (by simp [literal?])]
    rfl
  · cases hkey

theorem holdKey_name {needed : Bool} :
    holdKey mode needed (.name name) pos = pure (.name name, []) := rfl

variable {heap₁ : Heap}

theorem Performs.part {t : LowerState} {d : NodeId} (hd : ∃ k, s.builder.kind? d = some k) (haccess : s.Extends [] t)
    (hvalue : ∀ g, Covers g s t → ∀ setting σ, Start.holds d v heap setting g σ →
      Start.evaluates value w heap₁ setting g σ)
    (hpart : Performs names t u steps (.evaluates value w heap₁) bound heap₂)
    (hnames : ∀ entry ∈ bound, entry.1 ∉ names') (hmore : Performs names' u s' steps' (.holds d v heap₂) bound' heap') :
    Performs (names ++ names') s s' (steps ++ steps') (.holds d v heap) (bound ++ bound') heap' := by
  obtain ⟨hemits, hyields⟩ := hpart
  obtain ⟨hemits', hyields'⟩ := hmore
  have hfirst : Emits names s u steps := (emits_nil haccess).append hemits
  refine ⟨hfirst.append hemits', fun g hg setting σ hσ => ?_⟩
  have hgt := (hg.left hemits'.toExtends).left hemits.toExtends
  have hgu := (hg.left hemits'.toExtends).right haccess
  have hnew : d ∉ steps := by
    intro hmem
    obtain ⟨k, hk⟩ := hd
    have hnone := hfirst.fresh d hmem
    rw [hk] at hnone
    cases hnone
  apply (hyields g hgu setting σ (hvalue g hgt setting σ hσ)).append hfirst hemits' hnames
  intro vars hvars
  exact hyields' g (hg.right hfirst.toExtends) setting _ ⟨(hvars d hnew).trans hσ.1, rfl⟩

theorem property_lowered {value : Pattern} {shorthand : Bool} {more : Tree (.list .patternMember)}
    (hkey : key.propertyName? = some name) (hlit : ∀ lit ∈ key.literal?.toList, lit.key = lit.propertyName)
    (ha : heap[a]? = some (.object r)) (hobject : "Object" ∉ value.patternNames)
    (hnames : ∀ entry ∈ bound, entry.1 ∉ more.patternNames)
    (ihvalue : (Task.whole value (r.read name)).Lowered heap bound heap₁)
    (ihmore : (Task.members a (taken ++ [name]) more).Lowered heap₁ bound' heap₂) :
    (Task.members a taken (.cons (.patternProperty key value false shorthand pos) more)).Lowered heap (bound ++ bound')
      heap₂ := by
  intro depth kind s hs temp hasRest steps s' htemp hrun
  rw [toList_cons, destructureMembers, patternKey_eq hkey hlit, pure_bind, holdKey_name, pure_bind] at hrun
  obtain ⟨access, t, haccess, hrun⟩ := bind_ok.1 hrun
  obtain ⟨⟨first, inner⟩, u, hfirst, hrun⟩ := bind_ok.1 hrun
  obtain ⟨others, u', hothers, hrun⟩ := bind_ok.1 hrun
  obtain ⟨rfl, rfl⟩ := pure_ok.1 hrun
  obtain ⟨ht, hproperty⟩ := memberAccess_name s access t hs.tidy haccess
  have hclear := hs.extends ht (by simp)
  have hpart := ihvalue depth kind t hclear access first inner u hfirst
  have hkeys : (if (PatternKey.name name).isReusable then taken.map .name ++ [.name name] else taken.map .name) =
      (taken ++ [name]).map PatternKey.name := by simp [PatternKey.isReusable]
  rw [hkeys] at hothers
  obtain ⟨k, hk⟩ := htemp
  have hmore := ihmore depth kind u (hclear.extends hpart.1.toExtends hobject) temp hasRest others u'
    ⟨k, hpart.1.kinds (ht.kinds hk)⟩ hothers
  apply Performs.part ⟨k, hk⟩ ht _ hpart hnames hmore
  rintro g hg setting ⟨vars, _⟩ ⟨hvalue, rfl⟩
  exact (hproperty g hg).evaluates hvalue ha

theorem Performs.rest {copying : List NodeId} (hcopying : Emits [] s u copying)
    (hcollected : ∀ g, Covers g s u → ∀ setting σ, start setting g σ →
      ∃ σ', Runs setting g σ copying σ' ∧ Start.evaluates value v heap₁ setting g σ')
    (hpart : Performs names u s' steps (.evaluates value v heap₁) bound heap') :
    Performs (names ++ []) s s' (copying ++ steps) start bound heap' := by
  obtain ⟨hemits, hyields⟩ := hpart
  rw [append_nil]
  refine ⟨hcopying.append hemits, fun g hg setting σ hσ => ?_⟩
  obtain ⟨σ', hruns, hvalue⟩ := hcollected g (hg.left hemits.toExtends) setting σ hσ
  exact .after hruns (hyields g (hg.right hcopying.toExtends) setting σ' hvalue)

theorem objectRest_lowered (ha : heap[a]? = some (.object r))
    (ih : (Task.whole argument (.object heap.length)).Lowered (heap ++ [.object (r.without taken)]) bound heap') :
    (Task.members a taken (.cons (.patternRest argument pos) .nil)).Lowered heap bound heap' := by
  intro depth kind s hs temp hasRest steps s' htemp hrun
  obtain ⟨⟨collected, copying⟩, u, hrest, hrun⟩ := bind_ok.1 hrun
  obtain ⟨⟨first, inner⟩, u', hfirst, hrun⟩ := bind_ok.1 hrun
  obtain ⟨others, _, hothers, hrun⟩ := bind_ok.1 hrun
  obtain ⟨rfl, rfl⟩ := pure_ok.1 hothers
  obtain ⟨rfl, rfl⟩ := pure_ok.1 hrun
  obtain ⟨hcopying, hcollected⟩ := objectRest_emits hs.tidy hs.object hrest
  have hclear := hs.extends hcopying.toExtends (by simp)
  rw [append_nil]
  apply Performs.rest hcopying _ (ih depth kind u hclear collected first inner u' hfirst)
  rintro g hg setting ⟨vars, _⟩ ⟨hvalue, rfl⟩
  exact hcollected g hg setting vars _ a r hvalue ha

/-! ## Elements -/

variable {index : Nat}

theorem noElement_lowered : (Task.elements a index .nil).Lowered heap [] heap := by
  intro depth kind s hs temp steps s' htemp hrun
  obtain ⟨rfl, rfl⟩ := pure_ok.1 hrun
  refine ⟨emits_nil ⟨id, hs.tidy, fun _ _ => rfl, fun _ _ => rfl⟩, ?_⟩
  rintro g hg setting ⟨vars, _⟩ ⟨-, rfl⟩
  exact ⟨vars, .done, by simp⟩

theorem hole_lowered (ih : (Task.elements a (index + 1) more).Lowered heap bound heap') :
    (Task.elements a index (.cons .absent more)).Lowered heap bound heap' := by
  intro depth kind s hs temp steps s' htemp hrun
  exact ih depth kind s hs temp steps s' htemp hrun

theorem element_lowered {element : Pattern} (helement : ∀ argument pos, element ≠ .restPattern argument pos)
    (ha : heap[a]? = some (.array array)) (hobject : "Object" ∉ element.patternNames)
    (hnames : ∀ entry ∈ bound, entry.1 ∉ more.patternNames)
    (ihelement : (Task.whole element (array.read index)).Lowered heap bound heap₁)
    (ihmore : (Task.elements a (index + 1) more).Lowered heap₁ bound' heap₂) :
    (Task.elements a index (.cons (.present element) more)).Lowered heap (bound ++ bound') heap₂ := by
  intro depth kind s hs temp steps s' htemp hrun
  rw [toList_cons, map_cons, toOption, destructureElements] at hrun
  swap
  · exact helement
  obtain ⟨access, t, haccess, hrun⟩ := bind_ok.1 hrun
  obtain ⟨⟨first, inner⟩, u, hfirst, hrun⟩ := bind_ok.1 hrun
  obtain ⟨others, u', hothers, hrun⟩ := bind_ok.1 hrun
  obtain ⟨rfl, rfl⟩ := pure_ok.1 hrun
  obtain ⟨ht, helement⟩ := memberAccess_index s access t hs.tidy haccess
  have hclear := hs.extends ht (by simp)
  have hpart := ihelement depth kind t hclear access first inner u hfirst
  obtain ⟨k, hk⟩ := htemp
  have hmore := ihmore depth kind u (hclear.extends hpart.1.toExtends hobject) temp others u'
    ⟨k, hpart.1.kinds (ht.kinds hk)⟩ hothers
  apply Performs.part ⟨k, hk⟩ ht _ hpart hnames hmore
  rintro g hg setting ⟨vars, _⟩ ⟨hvalue, rfl⟩
  exact helement g hg setting vars _ a array hvalue ha

theorem arrayRest_lowered (ha : heap[a]? = some (.array array))
    (ih : (Task.whole argument (.object heap.length)).Lowered (heap ++ [.array (array.drop index)]) bound heap') :
    (Task.elements a index (.cons (.present (.restPattern argument pos)) .nil)).Lowered heap bound heap' := by
  intro depth kind s hs temp steps s' htemp hrun
  obtain ⟨object, t, hobject, hrun⟩ := bind_ok.1 hrun
  obtain ⟨start, t₁, hstart, hrun⟩ := bind_ok.1 hrun
  obtain ⟨sliced, u, hcall, hrun⟩ := bind_ok.1 hrun
  obtain ⟨⟨first, inner⟩, u', hfirst, hrun⟩ := bind_ok.1 hrun
  obtain ⟨others, _, hothers, hrun⟩ := bind_ok.1 hrun
  obtain ⟨rfl, rfl⟩ := pure_ok.1 hothers
  obtain ⟨rfl, rfl⟩ := pure_ok.1 hrun
  have hslice : sliceFrom temp index pos s = .ok (sliced, u) :=
    bind_ok.2 ⟨object, t, hobject, bind_ok.2 ⟨start, t₁, hstart, hcall⟩⟩
  obtain ⟨hu, hsliced⟩ := sliceFrom_makes s sliced u hs.tidy hslice
  have hclear := hs.extends hu (by simp)
  rw [append_nil]
  apply Performs.rest (emits_nil hu) _ (ih depth kind u hclear sliced first inner u' hfirst)
  rintro g hg setting ⟨vars, _⟩ ⟨hvalue, rfl⟩
  exact ⟨_, .done, hsliced g hg setting vars _ a array hvalue ha⟩

/-! ## Whole tasks -/

theorem Task.Fair.of_sublist {task' : Task} (h : task.Fair) (hnames : task'.names.Sublist task.names)
    (hkeys : task'.literalKeys.Sublist task.literalKeys) : task'.Fair :=
  ⟨h.nodup.sublist hnames, fun hmem => h.object (hnames.subset hmem), fun lit hlit => h.keys lit (hkeys.subset hlit)⟩

theorem notMem_of_nodup (hnodup : (names ++ names').Nodup) (hbound : bound.map Prod.fst = names) :
    ∀ entry ∈ bound, entry.1 ∉ names' := by
  intro entry hentry hmem
  have hfirst : entry.1 ∈ names := hbound ▸ mem_map_of_mem hentry
  exact disjoint_of_nodup_append hnodup hfirst hmem

/-- **What lowering makes of a task does it.** -/
theorem Binds.lowered (h : Binds task heap bound heap') (hfair : task.Fair) : task.Lowered heap bound heap' := by
  induction h with
  | identifier => exact identifier_lowered
  | default hv _ ih => exact default_lowered hv (ih ⟨hfair.nodup, hfair.object, hfair.keys⟩)
  | object _ ih => exact object_lowered (ih ⟨hfair.nodup, hfair.object, hfair.keys⟩)
  | array _ ih => exact array_lowered (ih ⟨hfair.nodup, hfair.object, hfair.keys⟩)
  | noMember => exact noMember_lowered
  | @property a taken key value _ _ more name r _ _ _ _ _ hkey ha hvalue _ ihvalue ihmore =>
    have hkeys : ∀ lit ∈ key.literal?.toList, lit.key = lit.propertyName := fun lit hlit =>
      hfair.keys lit (mem_append.2 (.inl (mem_append.2 (.inl hlit))))
    have hinner : value.literalKeys.Sublist ((key.literal?.toList ++ value.literalKeys) ++ more.literalKeys) :=
      (sublist_append_right _ _).trans (sublist_append_left _ _)
    have hfairValue : (Task.whole value (r.read name)).Fair :=
      hfair.of_sublist (sublist_append_left _ _) hinner
    have hfairMore : (Task.members a (taken ++ [name]) more).Fair :=
      hfair.of_sublist (sublist_append_right _ _) (sublist_append_right _ _)
    exact property_lowered hkey hkeys ha hfairValue.object (notMem_of_nodup hfair.nodup hvalue.names)
      (ihvalue hfairValue) (ihmore hfairMore)
  | objectRest ha _ ih =>
    exact objectRest_lowered ha (ih (hfair.of_sublist (sublist_append_left _ _) (sublist_append_left _ _)))
  | noElement => exact noElement_lowered
  | hole _ ih => exact hole_lowered (ih ⟨hfair.nodup, hfair.object, hfair.keys⟩)
  | @element a index element more array _ _ _ _ _ ha helement _ ihelement ihmore =>
    have hfairElement : (Task.whole element (array.read index)).Fair :=
      hfair.of_sublist (sublist_append_left _ _) (sublist_append_left _ _)
    have hfairMore : (Task.elements a (index + 1) more).Fair :=
      hfair.of_sublist (sublist_append_right _ _) (sublist_append_right _ _)
    have hnoRest : ∀ argument pos, element ≠ .restPattern argument pos := by
      rintro argument pos rfl
      cases helement
    exact element_lowered hnoRest ha hfairElement.object (notMem_of_nodup hfair.nodup helement.names)
      (ihelement hfairElement) (ihmore hfairMore)
  | arrayRest ha _ ih =>
    exact arrayRest_lowered ha (ih (hfair.of_sublist (sublist_append_left _ _) (sublist_append_left _ _)))

/-- **Destructuring preserves meaning.** A pattern with distinct names is lowered to declarators for the value of the
node `value`, where `Object` is the global one and every literal key is written as the property that it stands for. If
the value can be taken apart by the pattern, then the declarators can be run, in only one way: every name of the pattern
is declared by one of them, and has the value that the pattern gives it. The heap is the same as well, so that a value
is not looked up or made twice. -/
theorem declarators_bind {depth : Nat} {kind : DeclarationKind} {pattern : Pattern} {value : NodeId}
    {temp : Option Temp} {vars : Vars} {v : Val} {heap₁ heap₂ : Heap} (hs : s.builder.Tidy)
    (hobject : s.scopes.resolve? "Object" = none)
    (hnodup : pattern.patternNames.Nodup) (hother : "Object" ∉ pattern.patternNames)
    (hkeys : ∀ lit ∈ pattern.literalKeys, lit.key = lit.propertyName)
    (hrun : (lowerers depth).destructure (.declare kind) pattern value s = .ok ((steps, temp), s'))
    (hg : Covers g s s') (hvalue : Evaluates setting g vars heap (.nodes [value]) v heap₁)
    (hbinds : Binds (.whole pattern v) heap₁ bound heap₂) :
    bound.map Prod.fst = pattern.patternNames ∧
      ∃ vars', (∀ σ, Runs setting g ⟨vars, heap⟩ steps σ ↔ σ = ⟨vars', heap₂⟩) ∧
        ∀ entry ∈ bound, ∃ d ∈ steps, s'.scopes.local? entry.1 = some d ∧ vars' d = some entry.2 := by
  refine ⟨hbinds.names, ?_⟩
  have hlowered := hbinds.lowered ⟨hnodup, hother, hkeys⟩ depth kind s ⟨hs, hobject⟩ value steps temp s' hrun
  obtain ⟨vars', hruns, hbound⟩ := hlowered.2 g hg setting ⟨vars, heap⟩ hvalue
  refine ⟨vars', fun σ => ⟨fun h => h.unique hruns, ?_⟩, hbound⟩
  rintro rfl
  exact hruns

/-- The pattern `{x: [a, , ...b], 7: c = 5, ...rest}`. -/
def mixed : Pattern :=
  .objectPattern (.ofList [
    .patternProperty (.identifier ⟨"x", {}⟩)
      (arrayPattern [some (nameTarget "a"), none] (nameTarget "b")) false false {},
    .patternProperty (.literal { value := .num (.int 7) })
      (defaultPattern (nameTarget "c") (.literal { value := .num (.int 5) })) false false {},
    .patternRest (nameTarget "rest") {}]) {}

/-- A state with `this` as its only node. -/
def onlyThis : LowerState := { builder := { nextId := 2 : Builder }.store 1 .thisExpr {} }

/-- Where `this` is the object at the first address. -/
def thisFirst : Setting where
  runtime :=
    { same := (· == ·), typeOf := fun _ => "object", primitive := fun _ _ => .undefined, numberOf := fun _ => 0.0 / 0.0,
      textOf := Float.toString, power := Float.pow, power_finite := fun _ _ _ _ => rfl, bitNot := id,
      binary := fun _ a _ => a }
  outside := fun id _ heap => if id = 1 then some (.object 0, heap) else none

/-- All nodes but `this`. -/
def otherNodes (s : LowerState) : Graph := fun x => if x = 1 then none else s.builder.kind? x

def tens : DenseArray := ⟨[10.0, 20.0, 30.0, 40.0].map fun x => .primitive (.number x), by decide⟩

def outer : Record := (∅ : Record).insert "x" (.object 1) |>.insert "z" (.primitive (.boolean true))

theorem mixed_declarators_bind :
    ∃ steps temp s', (lowerers 4).destructure (.declare .letKind) mixed 1 onlyThis = .ok ((steps, temp), s') ∧
      ∃ vars, (∀ σ, Runs thisFirst (otherNodes s') ⟨fun _ => none, [.object outer, .array tens]⟩ steps σ ↔
          σ = ⟨vars, [.object outer, .array tens, .array (tens.drop 2), .object (outer.without ["x", "7"])]⟩) ∧
        ∀ entry ∈ [("a", Value.primitive (.number 10.0)), ("b", .object 2), ("c", .primitive (.number 5.0)),
          ("rest", .object 3)], ∃ d ∈ steps, s'.scopes.local? entry.1 = some d ∧ vars d = some entry.2 := by
  have hok : ((lowerers 4).destructure (.declare .letKind) mixed 1 onlyThis).toOption.isSome = true := by decide +kernel
  have htidy : onlyThis.builder.Tidy := by
    have hcreate : Builder.create {} .thisExpr {} = .ok (1, onlyThis.builder) := rfl
    have hgrown := (Program.ready_initialState (program []) {}).grown
    exact (Builder.Tidy.create ⟨hgrown.stored_lt, hgrown.reserved_lt, hgrown.reserved_new⟩ hcreate).1
  have hkeys : ∀ lit ∈ mixed.literalKeys, lit.key = lit.propertyName := by decide +kernel
  have hx : outer.read "x" = .object 1 := by decide +kernel
  have hseven : Literal.inPlaceOf? { value := .num (.int 5) } (outer.read "7") = some (.primitive (.number 5.0)) := by
    decide +kernel
  have hbinds : Binds (.whole mixed (.object 0)) [.object outer, .array tens]
      (([("a", .primitive (.number 10.0))] ++ [("b", .object 2)]) ++
        ([("c", .primitive (.number 5.0))] ++ [("rest", .object 3)]))
      [.object outer, .array tens, .array (tens.drop 2), .object (outer.without ["x", "7"])] := by
    apply Binds.object
    apply Binds.property rfl rfl
    · rw [hx]
      exact .array (.element rfl .identifier (.hole (.arrayRest rfl .identifier)))
    apply Binds.property
    · show propertyName? (.literal { value := .num (.int 7) }) = some "7"
      decide +kernel
    · rfl
    · exact .default hseven .identifier
    · exact .objectRest rfl .identifier
  cases hrun : (lowerers 4).destructure (.declare .letKind) mixed 1 onlyThis with
  | error e =>
    rw [hrun] at hok
    cases hok
  | ok result =>
    obtain ⟨⟨steps, temp⟩, s'⟩ := result
    have hcovers : Covers (otherNodes s') onlyThis s' := by
      intro x k hx hk
      have hne : x ≠ 1 := by
        rintro rfl
        cases hx
      exact (if_neg hne).trans hk
    have hvalue : Evaluates thisFirst (otherNodes s') (fun _ => none) [.object outer, .array tens] (.nodes [1])
        (.object 0) [.object outer, .array tens] := .outside rfl rfl
    obtain ⟨-, hresult⟩ :=
      declarators_bind htidy rfl (by decide +kernel) (by decide +kernel) hkeys hrun hcovers hvalue hbinds
    exact ⟨steps, temp, s', rfl, hresult⟩

end Destructure

end Retarget
