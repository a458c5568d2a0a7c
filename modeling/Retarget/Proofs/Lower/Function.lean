import Retarget.Lower.Function
import Retarget.Proofs.Lower.Pattern

/-!
# Functions

Parameters are declared in the scope of the function, and the function takes all that was made in it.

* `lowerParams_lowers`: parameters become bare roots, with statements for the body.
* `lowerFunction_isolated`: the parts of a function, made in a scope of its own.
* `functionDeclaration_lowers` and `functionExpression_lowers`: a function closes the names inside it, and its own
  name is awaited no more.
-/

namespace Retarget

open Syntax LowerM List Reference Kind

variable {s s₀ : LowerState} {A B F : Multiset Root} {U : Set Fact} {r : Lowerers} {fills : Bool}
  {X : Prop} {name : String} {pos : Pos}

attribute [local simp] Kind.parts Kind.references sum_root_map

theorem memberName_quiet (key : Expr) (computed : Bool) (pos : Pos) : Quiet (memberName key computed pos) := by
  unfold memberName
  split
  · exact .of_fails unhandled_fails
  split
  · exact .pure
  · exact .pure
  · exact .of_fails unhandled_fails

theorem lexicalNames_afterDirectives (body : List Stmt) : lexicalNames (afterDirectives body) = lexicalNames body := by
  induction body with
  | nil => rfl
  | cons stmt rest ih =>
    rw [afterDirectives, dropWhile_cons]
    split
    next hdirective =>
      have hnone : lexicalNames [stmt] = [] := by
        unfold directive? at hdirective
        split at hdirective
        · rfl
        · exact absurd hdirective nofun
      have hcons : lexicalNames (stmt :: rest) = lexicalNames [stmt] ++ lexicalNames rest := by simp [lexicalNames]
      rw [hcons, hnone, nil_append]
      exact ih
    next => rfl

/-! ## Parameters -/

def paramFacts (id : NodeId) : Set Fact := {.usable id, .barren id}

theorem paramFacts_subset {id : NodeId} : paramFacts id ⊆ U ∪ (madeFacts ∅ (.parameter name) id ∪ {.settled name}) := by
  rintro v (rfl | rfl)
  · exact .inr (.inl (usable_mem_madeFacts rfl rfl))
  · exact .inr (.inl (barren_mem_madeFacts rfl nofun))

theorem declareParam_lowers : Lowers fills {.calm} 0 (declareParam name pos) (root .parameter) paramFacts :=
  (node_lowers (c := .parameter) (.of_isFree rfl) rfl).declare typed_givesNew (Set.empty_subset _)
    (zero_add _).symm (fun id => bindName_binds name id) (fun _ => usable_mem_madeFacts rfl rfl)
    (fun _ => fits_mem_madeFacts (c := .parameter) rfl) (.inr rfl) fun _ => .pure (by simp) paramFacts_subset

theorem inventParam_lowers (stem : String) (pos : Pos) :
    Lowers fills {.calm} 0 (inventParam stem pos) (fun temp => root .parameter temp.id) fun temp =>
      paramFacts temp.id :=
  .skip freshName_quiet fun name =>
    (synthetic_lowers (c := .parameter) (.of_isFree rfl) rfl).declare syntheticTyped_givesNew (Set.empty_subset _)
      (zero_add _).symm (fun id => bindName_binds name id) (fun _ => usable_mem_madeFacts rfl rfl)
      (fun _ => fits_mem_madeFacts (c := .parameter) rfl) (.inr rfl) fun _ => .pure (by simp) paramFacts_subset

theorem declaredParam_lowers :
    Lowers true {.calm} 0 (do return (← declareParam name pos, ([] : List NodeId)))
      (fun result => root .parameter result.1 + roots .statement result.2) fun result => {.barren result.1} :=
  declareParam_lowers.andThen subset_rfl fun _ => .pure (by simp) fun _ hv => .inr (.inr hv)

variable {pos : Pos}

theorem Inside.takePending (h : Inside s₀ F s A) (hpending : s₀.pendingTemps = []) :
    EndsWell (takePending [] pos) s fun o s' =>
      Inside s₀ F s' (roots .statement o.toList + A) ∧ Step false ∅ s s' ∧ s'.pendingTemps = [] := by
  obtain ⟨E, hE, hready⟩ := h.ready
  have hready' : Ready s (roots .declarator [] + (A + (E + F))) := by rwa [roots_nil, zero_add]
  refine ((takePending_endsWell hready' nofun).and fun _ _ => takePending_pendingTemps).mono fun o s' hend => ?_
  obtain ⟨⟨⟨L, hL, hs'⟩, hstep, htame⟩, hempty⟩ := hend
  rw [h.step.context] at htame
  refine ⟨⟨⟨h.start, h.step.trans hstep, by simp [hpending], ⟨L + E,
    hL.add (hE.mono hready.held hstep.kinds fun t ht => by simp [ht]), ?_⟩,
    h.tame.trans hready.grown h.step.kinds hstep.kinds htame⟩, hs'.usable⟩, hstep, hempty⟩
  convert hs'.toHolds using 1
  abel

theorem Inside.facts {s' : LowerState} {V : Set Fact} (h : Inside s₀ F s A) (hstep : Step fills ∅ s s')
    (hV : ∀ v ∈ V, v.Holds s) : ∀ v ∈ V, v.Holds s' := by
  obtain ⟨E, -, hready⟩ := h.ready
  exact fun v hv => (hV v hv).of_step hready hstep

section

variable (hr : r.Sound) {param : Temp}
include hr

theorem defaultParam_lowers {fallback : Expr} :
    Lowers fills {.usable param.id} 0 (defaultParam r param fallback pos) (root .statement) := by
  unfold defaultParam
  refine isUndefined_lowers.beside subset_rfl fun test => ?_
  refine (hr.expr none fallback).before fun value => ?_
  refine (useTemp_lowers (c := .assignTarget) rfl).beside subset_rfl fun target => ?_
  refine .skip typeOf_quiet fun type => ?_
  refine (syntheticTyped_lowers (c := .expression) (.of_isFree rfl) rfl).next (B := root .expression test)
    subset_rfl ?_ fun expression => ?_
  · simp only [assignment, Kind.parts, Kind.references, parts_append, parts_one]
    abel
  refine (synthetic_lowers (c := .statement) (.of_isFree rfl) rfl).bind subset_rfl rfl fun stmt => ?_
  have hblock : (block [stmt]).Allowed {.inert stmt} :=
    .of_inert rfl rfl rfl (by simp [references, many])
  refine (synthetic_lowers (c := .statement) hblock rfl).bind (B := root .expression test) ?_ ?_ fun block => ?_
  · rintro v rfl
    exact .inr (inert_mem_madeFacts rfl)
  · simp [Kind.parts, Kind.references]
  have hif : (ifStmt test block none).Allowed {.inert block} := by
    refine .of_inert rfl rfl rfl ?_
    simp [references, one, opt, Category.carriesNames]
  refine (synthetic_lowers hif rfl).doneWith ?_ ?_
  · rintro v rfl
    exact .inr (inert_mem_madeFacts rfl)
  · simp only [Kind.parts, Kind.references, parts_append, parts_one, parts_opt,
      Option.toList_none, roots_nil]
    abel

theorem unpackParam_lowers {pattern : Pattern} :
    Lowers true {.usable param.id} 0 (unpackParam r param pattern) (root .statement) := by
  refine temp_lowers.beside subset_rfl fun value => ?_
  rw [add_zero]
  exact (declareLowered_lowers hr).weaken (Set.empty_subset _)

theorem inventedParam_lowers (stem : String) (pattern : Pattern) (pos : Pos) :
    Lowers true {.calm} 0
      (do
        let param ← inventParam stem pos
        return (param.id, [← unpackParam r param pattern]))
      (fun result => root .parameter result.1 + roots .statement result.2) fun result => {.barren result.1} := by
  refine (inventParam_lowers stem pos).andThen subset_rfl fun param => ?_
  refine (unpackParam_lowers hr).beside ?_ fun stmt => .pure ?_ ?_
  · rintro v rfl
    exact .inr (.inl rfl)
  · simp [add_comm]
  · rintro v rfl
    exact .inr (.inr rfl)

theorem lowerParam_lowers (pattern : Pattern) :
    Lowers true {.calm} 0 (lowerParam r pattern)
      (fun result => root .parameter result.1 + roots .statement result.2) fun result => {.barren result.1} := by
  unfold lowerParam
  split
  next id => exact declaredParam_lowers
  next id fallback pos =>
    refine declareParam_lowers.andThen subset_rfl fun param => ?_
    refine (defaultParam_lowers hr).beside ?_ fun stmt => .pure ?_ ?_
    · rintro v rfl
      exact .inr (.inl rfl)
    · simp [add_comm]
    · rintro v rfl
      exact .inr (.inr rfl)
  next pattern fallback pos _ =>
    refine (inventParam_lowers "param" pos).andThen subset_rfl fun param => ?_
    refine (defaultParam_lowers hr).beside ?_ fun setting => ?_
    · rintro v rfl
      exact .inr (.inl rfl)
    refine (unpackParam_lowers hr).beside ?_ fun stmt => .pure ?_ ?_
    · rintro v rfl
      exact .inr (.inl rfl)
    · simp only [roots_cons, roots_nil]
      abel
    · rintro v rfl
      exact .inr (.inr rfl)
  next => exact .of_fails malformed_fails
  next => exact inventedParam_lowers hr "param" _ _

theorem lowerRestTarget_lowers (pattern : Pattern) :
    Lowers true {.calm} 0 (lowerRestTarget r pattern)
      (fun result => root .parameter result.1 + roots .statement result.2) fun result => {.barren result.1} := by
  unfold lowerRestTarget
  split
  next id => exact declaredParam_lowers
  next => exact inventedParam_lowers hr "rest" _ _

def barrenFacts (params : List NodeId) (rest : Option NodeId) : Set Fact :=
  {fact | ∃ id ∈ params ++ rest.toList, fact = .barren id}

theorem lowerParams_lowers (patterns : List Pattern) :
    Lowers true {.calm} 0 (lowerParams r patterns)
      (fun l => roots .parameter l.params + roots .restElement l.rest.toList + roots .statement l.prologue)
      fun l => barrenFacts l.params l.rest := by
  fun_induction lowerParams r patterns with
  | case1 => exact .pure rfl (by simp [barrenFacts])
  | case2 argument pos =>
    refine (lowerRestTarget_lowers hr argument).andThen subset_rfl fun result => ?_
    obtain ⟨param, prologue⟩ := result
    dsimp only
    have hallowed : (rest param).Allowed {.barren param} := .of_isFree rfl
    refine (node_lowers (c := .restElement) hallowed rfl).bind (B := roots .statement prologue) Set.subset_union_right
      ?_ fun rest => .pure ?_ ?_
    · simp [Kind.parts, Kind.references]
    · simp
    · rintro v ⟨id, hid, rfl⟩
      obtain rfl : id = rest := by simpa using hid
      exact .inr (barren_mem_madeFacts rfl (by simp [childList]))
  | case3 => exact .of_fails malformed_fails
  | case4 pattern more _ _ ih =>
    refine (lowerParam_lowers hr pattern).andThen subset_rfl fun result => ?_
    obtain ⟨param, prologue⟩ := result
    dsimp only
    refine ih.andThen Set.subset_union_left fun others => .pure ?_ ?_
    · simp only [roots_cons, roots_append]
      abel
    · rintro v ⟨id, hid, rfl⟩
      rcases mem_cons.1 hid with rfl | hid
      · exact .inl (.inr rfl)
      · exact .inr ⟨id, hid, rfl⟩

/-! ## Bodies -/

theorem fieldValue_lowers {value : Option Expr} :
    Lowers fills ∅ 0 (fieldValue r name value pos) (root .expression) := by
  unfold fieldValue
  split
  · exact hr.expr _ _
  · exact synthetic_done rfl rfl rfl

theorem fieldInitializers_lowers {fields : List FieldInit} :
    Lowers fills ∅ 0 (fieldInitializers r fields) (roots .statement) := by
  have h : Lowers fills ∅ 0 (fieldInitializers r fields) (fun ids => (ids.map (root .statement)).sum) := by
    refine Lowers.mapM_roots fun field _ => ?_
    refine .skip (memberName_quiet field.key field.computed field.pos) fun name => ?_
    refine (synthetic_done (c := .expression) rfl rfl (by rfl)).before fun this => ?_
    refine (synthetic_done (c := .expression) rfl rfl (by rfl)).before fun property => ?_
    refine (synthetic_lowers (c := .assignTarget) (.of_isFree rfl) rfl).into (B := 0) (by simp; abel) fun target => ?_
    refine (fieldValue_lowers hr).before fun value => ?_
    refine (assignment_lowers ?_).next (B := 0) subset_rfl (add_zero _).symm
      fun expression => ?_
    · rw [add_zero, add_comm]
    · exact synthetic_done rfl rfl (by simp)
  simpa only [sum_root] using h

theorem blockStatements_lowers (body : List Stmt) (pos : Pos) (constructor : ConstructorFields) :
    Lowers true {.outsideBlocks, .calm} 0 (blockStatements r body pos constructor) (roots .statement) := by
  unfold blockStatements
  refine (hoistVars_lowers body pos).beside subset_rfl fun hoisted => ?_
  rw [add_zero]
  have hown : Lowers true ∅ 0 (statements r (afterDirectives body)) (roots .statement)
      fun _ => settledFacts (lexicalNames body) := by
    rw [← lexicalNames_afterDirectives]
    exact statements_lowers hr
  refine Lowers.forget ((declareBlock_declares body).lowers (R := roots .statement)
    (V := fun _ => settledFacts (lexicalNames body)) ?_ fun _ => subset_rfl)
  refine hown.andThen subset_rfl fun own => ?_
  rw [Set.empty_union]
  split
  · exact .pure (by rw [roots_append, add_comm]) subset_rfl
  · refine (fieldInitializers_lowers hr).before fun inits => .skip .get fun s => .pure ?_ subset_rfl
    have hsplit : ∀ n, roots .statement (own.take n) + roots .statement (own.drop n) = roots .statement own := by
      intro n
      rw [← roots_append, take_append_drop]
    simp only [roots_append]
    rw [← hsplit]
    abel

theorem valueStatements_inside (h : Inside s₀ F s (0 + A)) (hnames : s₀.scopes.names = [])
    (hpending : s₀.pendingTemps = []) (hcontext : s₀.context.inFunction = true) (value : Expr) :
    EndsWell (valueStatements r value) s fun result s' =>
      Inside s₀ F s' (roots .statement result.1 + A) ∧ Step true ∅ s s' ∧ s'.pendingTemps = [] := by
  have hreturn : ∀ id, Lowers true {.context s₀.context} (root .expression id)
      (synthetic (.returnStmt (some id)) value.pos) (root .statement) := fun id =>
    (synthetic_lowers (.of_context (Set.mem_singleton _) (by exact hcontext) rfl rfl) rfl).done (by simp)
  have hvalue : Lowers true ∅ 0 (r.expr none value) (root .expression) := hr.expr none value
  refine (h.lowers hnames hvalue (by simp) subset_rfl).bind fun id u₁ hend => ?_
  obtain ⟨h₁, hstep₁, _⟩ := hend
  refine .bind_of_ok rfl ((h₁.lowers hnames (hreturn id) ?_ subset_rfl).bind fun ret u₂ hend => ?_)
  · rintro v rfl
    exact h₁.step.context
  obtain ⟨h₂, hstep₂, _⟩ := hend
  refine (h₂.takePending hpending).bind fun temps u₃ hend => ?_
  obtain ⟨h₃, hstep₃, hempty⟩ := hend
  refine .pure ⟨?_, (hstep₁.trans hstep₂).trans hstep₃.weaken, hempty⟩
  convert h₃ using 1
  simp only [roots_append, roots_cons, roots_nil]
  abel

def FunctionParts.roots (parts : FunctionParts) : Multiset Root :=
  Retarget.roots .parameter parts.params + Retarget.roots .restElement parts.rest.toList + root .block parts.body

omit hr in
theorem functionBlock_within {params : List NodeId} {rest : Option NodeId} {before prologue own : List NodeId}
    (h : Inside s₀ F s (roots .statement own + (roots .statement before + (roots .parameter params +
      roots .restElement rest.toList + roots .statement prologue))))
    (hbarren : ∀ v ∈ barrenFacts params rest, v.Holds s) :
    EndsWell (synthetic (.block (before ++ prologue ++ own)) pos) s fun block s' =>
      (∀ type, Within s₀ F ∅ s' (FunctionParts.roots ⟨params, rest, block, type⟩)) ∧
        s'.pendingTemps = s.pendingTemps := by
  have hB : AllBarren s.builder (roots .parameter params + roots .restElement rest.toList) := by
    intro t ht
    simp only [Multiset.mem_add, mem_roots] at ht
    rcases ht with ⟨id, hid, rfl⟩ | ⟨id, hid, rfl⟩
    · exact (hbarren (.barren id) ⟨id, mem_append.2 (.inl hid), rfl⟩).2
    · exact (hbarren (.barren id) ⟨id, mem_append.2 (.inr hid), rfl⟩).2
  have hparts : Within s₀ F ∅ s ((block (before ++ prologue ++ own)).parts +
      (roots .parameter params + roots .restElement rest.toList)) := by
    convert h.toWithin using 1
    simp only [Kind.parts, Kind.references, parts_many, roots_append]
    abel
  have hblock : EndsWell (synthetic (.block (before ++ prologue ++ own)) pos) s fun block s' =>
      Within s₀ F ∅ s' (root .block block + (roots .parameter params + roots .restElement rest.toList)) :=
    .of_create syntheticTyped_eq_create fun e =>
      (hparts.create hB rfl rfl (.plain rfl rfl rfl)).mono fun _ _ h => h.1
  refine (hblock.mono fun block s' h' type => ?_).and fun _ _ => create_pendingTemps
  convert h' using 1
  rw [FunctionParts.roots, add_comm]

variable {constructor : ConstructorFields} {make : FunctionNode → Kind} {name : Option String} {isAsync : Bool}
  {params : List Pattern}

omit hr in
theorem blockStatements_keepsPending {body : List Stmt} (h : constructor.fields = []) :
    KeepsPending (blockStatements r body pos constructor) := by
  unfold blockStatements
  rw [h]
  exact (hoistVars_keepsPending body pos).bind fun _ => (declareBlock_keepsPending body).bind fun _ =>
    (statements_keepsPending r _).bind fun _ => .pure

theorem functionInner_within {body : FunctionBody} (hready : Ready s F)
    (hnames : s.scopes.names = []) (hpending : s.pendingTemps = []) (houtside : Fact.outsideBlocks.Holds s)
    (hcontext : s.context.inFunction = true) :
    EndsWell (functionInner r params body pos constructor) s fun parts s' =>
      Within s F ∅ s' parts.roots ∧ (s'.pendingTemps = [] ∨ constructor.fields ≠ []) := by
  have hstart : ∀ v ∈ ({.outsideBlocks, .calm} : Set Fact), v.Holds s := by
    rintro v (rfl | rfl)
    · exact houtside
    · exact calm_of_names hnames
  have h : Inside s F s (0 + 0) := by simpa using Inside.refl hready
  refine (h.lowers hnames (lowerParams_lowers hr params) (fun v hv => hstart v (.inr hv)) subset_rfl).bind ?_
  rintro lowered u₁ ⟨h₁, hstep₁, hbarren₁⟩
  rw [add_zero] at h₁
  refine (h₁.takePending hpending).bind fun temps u₂ ⟨h₂, hstep₂, hempty⟩ => ?_
  have hstart₂ := h₁.facts hstep₂ (h.facts hstep₁ hstart)
  have hbarren₂ := h₁.facts hstep₂ hbarren₁
  rw [← zero_add (roots .statement temps.toList + _)] at h₂
  split
  next body bodyPos =>
    have hown := h₂.lowers hnames (blockStatements_lowers hr body.toList bodyPos constructor) hstart₂ subset_rfl
    refine (hown.and fun own u₃ hrun hfields => blockStatements_keepsPending hfields _ _ _ hrun).bind ?_
    rintro own u₃ ⟨⟨h₃, hstep₃, -⟩, hkeeps⟩
    simp only [pure_bind]
    refine (functionBlock_within h₃ (h₂.facts hstep₃ hbarren₂)).bind fun block u₄ ⟨hwithin, hpending₄⟩ => .pure ?_
    refine ⟨hwithin _, ?_⟩
    by_cases hfields : constructor.fields = []
    · exact .inl (hpending₄.trans ((hkeeps hfields).trans hempty))
    · exact .inr hfields
  next value =>
    refine (valueStatements_inside hr h₂ hnames hpending hcontext value).bind ?_
    rintro ⟨own, type⟩ u₃ ⟨h₃, hstep₃, hempty₃⟩
    simp only [pure_bind]
    refine (functionBlock_within h₃ (h₂.facts hstep₃ hbarren₂)).bind fun block u₄ ⟨hwithin, hpending₄⟩ => .pure ?_
    exact ⟨hwithin _, .inl (hpending₄.trans hempty₃)⟩

/-- **The parts of a function**, made in a scope of its own. Only field initializers can leave temporaries behind. -/
theorem lowerFunction_isolated (params : List Pattern) (body : FunctionBody) (isAsync : Bool) (pos : Pos)
    (constructor : ConstructorFields) (hX : constructor.fields ≠ [] → X) :
    Isolated (lowerFunction r params body isAsync pos constructor) FunctionParts.roots
      (fun _ => {.function isAsync}) X := by
  refine inFunction_isolated fun _ _ hready hnames hpending houtside hcontext => ?_
  refine (functionInner_within hr hready hnames hpending houtside (by rw [hcontext]; rfl)).mono fun _ _ h => ?_
  exact h.imp_right (Or.imp_right hX)

omit hr in
theorem FunctionParts.parts_eq (parts : FunctionParts) (name : Option String) (isAsync : Bool) :
    Reference.parts (parts.toNode name isAsync).references = parts.roots := by
  simp only [FunctionNode.references, FunctionParts.toNode, FunctionParts.roots, parts_append,
    parts_many, parts_opt, parts_one]

/-! ## Functions and their names -/

omit hr in
theorem functionNode_eq_create (parts : FunctionParts) (s : LowerState) :
    ∃ e, typed (make (parts.toNode name isAsync)) pos (some parts.type) s =
      create (make (parts.toNode name isAsync)) e s := typed_eq_create

omit hr in
theorem Kind.of_function? {kind : Kind} {f : FunctionNode} (h : kind.function? = some f) :
    kind.references = f.references ∧ kind.refersAcross = false := by
  cases kind with
  | functionDecl | functionExpr | arrow => cases h; exact ⟨rfl, rfl⟩
  | _ => cases h

omit hr in
theorem functionNode_lowers {x : LowerM FunctionParts} {c : Category}
    (hx : Isolated x FunctionParts.roots (fun _ => {.function isAsync}) X) (hf : ∀ f, (make f).function? = some f)
    (hc : ∀ f, c.admits (make f) = true) :
    Lowers fills U 0 (x >>= fun parts => typed (make (parts.toNode name isAsync)) pos (some parts.type)) (root c)
      (fun p => {v | ∀ parts : FunctionParts, v ∈ madeFacts ∅ (make (parts.toNode name isAsync)) p})
      (fun c => {c}) X := by
  refine hx.make functionNode_eq_create (fun parts => ?_) (fun _ => takesInert_zero) (fun _ => (of_function? (hf _)).2)
    (fun _ => hc _) fun _ _ => .function (hf _)
  rw [Kind.parts, (of_function? (hf _)).1, parts.parts_eq, add_zero]

def declaredFunction : Tree .function → List String
  | .function id .. => (id.map (·.name)).toList

/-- **A function declaration** closes the names inside the function and declares its own. -/
theorem functionDeclaration_lowers (f : Tree .function) :
    Lowers true ∅ 0 (functionDeclaration r f) (root .statement) fun _ => settledFacts (declaredFunction f) := by
  unfold functionDeclaration
  split
  next id params body isAsync generator pos =>
  dsimp only
  split
  · exact .of_fails unhandled_fails.bind
  split
  · exact .of_fails malformed_fails
  next id =>
  have hisolated := lowerFunction_isolated (X := False) hr params.toList (.block body) isAsync pos {} (· rfl)
  have hsettled : settledFacts (declaredFunction (.function (some id) params body isAsync generator pos)) ⊆
      {.settled id.name} := by
    rintro v ⟨name, hname, rfl⟩
    exact congrArg _ (mem_singleton.1 hname)
  intro s F hready _
  refine reserved?_endsWell.bind fun o u ⟨hu, hwaits, hnone⟩ => ?_
  subst hu
  cases o with
  | some d =>
    rw [zero_add] at hready
    refine (hisolated u F hready).bind fun parts v ⟨hwithin, hscopes⟩ => ?_
    have hd := hwithin.step.waits_of_unfilled hready (hwaits d rfl)
    have hlocal := ScopeStack.mem_of_local? (hwaits d rfl).1
    have hparts : (functionDecl (parts.toNode (some id.name) isAsync)).parts = parts.roots := parts.parts_eq _ _
    rw [← hparts] at hwithin
    refine (hwithin.fill true (c := .statement) hscopes hd.2 rfl rfl rfl nofun
      (.inr ⟨rfl, hlocal, rfl⟩) (.inner rfl)).bind fun _ w ⟨hw, hscopes', hfilled⟩ => ?_
    have hw' : Lowered true u F (root .statement d) {.fits .statement d, .settled id.name} w := by
      refine hw.weaken ?_
      rintro v (rfl | rfl)
      · exact hw.facts _ (fits_mem_madeFacts rfl)
      · rintro d' ⟨hlocal', hreserved⟩
        rw [hscopes', hd.1] at hlocal'
        exact hfilled (Option.some.inj hlocal' ▸ hreserved)
    refine hw'.next ((setType_lowers (c := .statement)).beside (by simp) fun _ => .pure ?_ ?_)
    · rw [zero_add]
    · exact hsettled.trans (by simp)
  | none =>
    have hnode : Lowers true ∅ 0
        (do
          let parts ← lowerFunction r params.toList (.block body) isAsync pos
          typed (.functionDecl (parts.toNode (some id.name) isAsync)) pos (some parts.type)) (root .statement) _ :=
      functionNode_lowers hisolated (fun _ => rfl) fun _ => rfl
    have hdeclare :=
      hnode.declare (hisolated.make_givesNew functionNode_eq_create) (Set.empty_subset {.settled id.name})
      (zero_add 0).symm (fun created => bindName_binds id.name created) (fun _ _ => usable_mem_madeFacts rfl rfl)
      (fun _ _ => fits_mem_madeFacts (c := .statement) rfl) (.inl rfl) (k := Pure.pure) (Q := root .statement)
      (W := fun _ => {.settled id.name}) fun _ => .pure (add_zero _) (by simp)
    simp only [bind_assoc] at hdeclare
    refine (hdeclare u F hready ?_).mono fun _ _ h => h.weaken fun v hv => h.facts v (hsettled hv)
    rintro v rfl
    exact hnone rfl

/-- **A function expression** closes the names inside the function, its own included. -/
theorem functionExpression_lowers (hint : Option String) (f : Tree .function) :
    Lowers fills ∅ 0 (functionExpression r hint f) (root .expression) := by
  unfold functionExpression
  split
  next id params body isAsync generator pos =>
  dsimp only
  split
  · exact .of_fails unhandled_fails.bind
  have hisolated := lowerFunction_isolated (X := False) hr params.toList (.block body) isAsync pos {} (· rfl)
  split
  · exact Lowers.forget (functionNode_lowers hisolated (fun _ => rfl) fun _ => rfl)
  next id =>
  intro s F hready _
  rw [zero_add] at hready
  refine selfNamed_endsWell hready hisolated.lowers fun self parts u hwithin hscopes hreserved hle => ?_
  have hparts : (functionExpr (parts.toNode (some id.name) isAsync)).parts = parts.roots := parts.parts_eq _ _
  rw [← hparts] at hwithin
  refine (hwithin.fill fills (c := .expression) hscopes hreserved rfl rfl rfl
    (fun _ hd => hd) (.inl hle) (.inner rfl)).bind fun _ v ⟨hv, _, _⟩ => ?_
  refine hv.next ((setType_lowers (c := .expression)).beside ?_ fun _ => .ret ?_)
  · rintro v rfl
    exact fits_mem_madeFacts rfl
  · rw [zero_add]

theorem arrowFunction_lowers {hint : Option String} {body : Tree .arrowBody} :
    Lowers fills ∅ 0 (arrowFunction r hint params body isAsync pos) (root .expression) :=
  Lowers.forget (functionNode_lowers (lowerFunction_isolated hr params (arrowBody body) isAsync pos {} (· rfl))
    (fun _ => rfl) fun _ => rfl)

end

end Retarget
