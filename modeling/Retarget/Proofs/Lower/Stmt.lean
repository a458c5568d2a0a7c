import Retarget.Lower.Stmt
import Retarget.Proofs.Lower.Expr

/-!
# Statements

Loops, handlers and switches enter a scope. The names in it are closed by the node of the loop, the handler or the
switch, or by the block below it.

* `lowerIf_lowers`: a conditional statement, which carries no names.
* `lowerSingle_lowers` and `lowerStmt_lowers`: statements become roots, and declare the names of the block they are in.
-/

namespace Retarget

open Syntax LowerM List Reference Kind Lowers

variable {s s₀ : LowerState} {A B C F : Multiset Root} {U : Set Fact} {r : Lowerers} {fills : Bool} {c : Category}
  {P : Set FunctionContext} {J : FunctionContext → Set FunctionContext} {α : Type} {x : LowerM α}
  {R : α → Multiset Root} {V : α → Set Fact}

attribute [local simp] Kind.parts Kind.references sum_root_map

/-- **A context of its own**: the jumps that are made in it are allowed in it. -/
theorem Lowers.inContext (hx : Lowers fills U A x R V) (enter leave : FunctionContext → FunctionContext)
    (hleave : ∀ c, leave (enter c) = c) (hU : ∀ {s c} {u : Fact}, u ∈ U → u.Holds s → u.Holds { s with context := c })
    (hV : ∀ {a s c} {v : Fact}, v ∈ V a → v.Holds s → v.Holds { s with context := c }) :
    Lowers fills U A
      (do
        modify fun s => { s with context := enter s.context }
        let a ← x
        modify fun s => { s with context := leave s.context }
        return a) R V fun c => {enter c} := by
  intro s F hs hfacts
  set s₁ : LowerState := { s with context := enter s.context }
  have hs₁ : Ready s₁ (A + F) := ⟨⟨hs.held, hs.pending⟩, hs.usable⟩
  refine .bind_of_ok rfl ((hx s₁ F hs₁ fun u hu => hU hu (hfacts u hu)).bind fun a u h => ?_)
  obtain ⟨⟨L, hL, hready⟩, hstep, hpending, hfacts', htame⟩ := h
  have hback : leave u.context = s.context := by rw [hstep.context, hleave]
  exact ⟨⟨L, hL, ⟨hready.held, hready.pending⟩, hready.usable⟩,
    { hstep with context := hback }, hpending,
    fun v hv => hV hv (hfacts' v hv), htame⟩

theorem inLoop_within (h : Inside s₀ F s A P)
    (hx : ∀ u₀ u, u₀.context = s₀.context.loop → Inside u₀ F u A P → u.builder = s.builder →
      EndsWell x u fun a s' => Within u₀ F ∅ s' (R a) P) :
    EndsWell (inLoop x) s fun a s' => Within s₀ F ∅ s' (R a) P := by
  have hcontext : s.context.loop = s₀.context.loop := by rw [h.step.context]
  have hentered := h.toWithin.recontext s.context.loop
  refine .bind_of_ok rfl (EndsWell.bind (hx _ _ hcontext ⟨hentered, h.usable⟩ rfl) fun a s' h' => ?_)
  have hback : { s'.context with loopDepth := s'.context.loopDepth - 1 } = s₀.context := by
    rw [h'.step.context]
    exact h.step.context
  change Within s₀ F ∅ { s' with context := { s'.context with loopDepth := s'.context.loopDepth - 1 } } (R a) P
  rw [hback]
  exact h'.recontext s₀.context

theorem inSwitch_isolated (hx : Lowers fills {.calm} 0 x R V) : Isolated (inSwitch x) R fun c => {c.switch} := by
  have h := hx.forget.inContext .switch (fun c => { c with switchDepth := c.switchDepth - 1 })
    (fun _ => rfl) (by rintro s c u rfl h; exact h) (by simp)
  exact h.isolated

theorem Inside.take (h : Inside s₀ F s B P) (hnames : s₀.scopes.names = []) (hx : Lowers fills ∅ 0 x R V J)
    (hP : J s₀.context ⊆ P) : EndsWell x s fun a s' => Inside s₀ F s' (R a + B) P := by
  rw [← zero_add B] at h
  exact (h.lowers hnames hx (by simp) hP).mono fun _ _ h' => h'.1

theorem headTarget_quiet (left : Tree .forHead) : Quiet (headTarget left) := by
  cases left with
  | headPattern p => exact .pure
  | headDeclaration d =>
    cases d with
    | declaration kind declarators pos =>
      cases declarators with
      | nil => exact .of_fails malformed_fails
      | cons declarator more =>
        cases more with
        | nil =>
          cases declarator with
          | declarator target init pos =>
            change Quiet (ite (init.toOption.isSome = true) _ _)
            split
            · exact .of_fails malformed_fails.bind
            · exact .pure
        | cons =>
          cases declarator
          exact .of_fails malformed_fails

theorem expression_admits_forInit {k : Kind} (hk : Category.expression.admits k = true) :
    Category.forInit.admits k = true := by
  cases k <;> first | rfl | exact hk

theorem exprStmts_lowers (pos : Pos) : ∀ ids : List NodeId,
    Lowers fills ∅ (roots .expression ids) (ids.mapM fun expression => node (.exprStmt expression) pos)
      (roots .statement)
  | [] => .ret rfl
  | id :: ids => by
    rw [mapM_cons, roots_cons]
    refine (node_lowers (c := .statement) (.of_isFree rfl) rfl).next subset_rfl rfl fun stmt => ?_
    refine (exprStmts_lowers pos ids).next subset_rfl (add_comm _ _) fun stmts => .ret ?_
    rw [roots_cons, add_comm]

theorem lexicalNames_variableStmt {d : Tree .declaration} {name : String}
    (h : name ∈ lexicalNames [.variableStmt d]) : name ∈ d.patternNames := by
  cases d with
  | declaration kind declarators pos =>
    cases kind with
    | varKind => exact absurd h (by simp [lexicalNames])
    | letKind | constKind => simpa [lexicalNames] using h

section

variable (hr : r.Sound)
include hr

/-! ## Loops -/

theorem forInit_lowers (init : Tree .forInit) :
    Lowers true ∅ 0 (forInit r init) fun o => roots .forInit o.toList := by
  have hsome : ∀ id, Lowers true ∅ (root .forInit id) (pure (some id)) fun o => roots .forInit o.toList :=
    fun id => .ret (by simp)
  have hexpr : ∀ id, Lowers true ∅ (root .expression id + 0) (pure (some id)) fun o => roots .forInit o.toList :=
    fun id => recast (hsome id) fun _ => expression_admits_forInit
  unfold forInit
  split
  next declarators pos =>
    refine (varAssignments_lowers hr).before fun assignments => ?_
    split
    · exact .ret rfl
    next id => exact hexpr id
    · refine (synthetic_lowers (c := .forInit) (.of_isFree rfl) rfl).into (B := 0) (by simp) fun id => ?_
      exact hsome id
  · refine (lexicalDeclaration_lowers hr (c := .forInit) (fun _ _ => rfl) _).before fun id => ?_
    exact hsome id
  · exact (hr.expr none _).before hexpr

omit hr in
theorem loopItem_lowers (pos : Pos) :
    Lowers fills ∅ 0 (loopItem pos) (fun item => root .declarator item.id) fun item => paramFacts item.id := by
  refine .skip freshName_quiet fun name => ?_
  have hallowed : (declarator name none).Allowed ∅ := .of_isFree rfl
  refine (synthetic_lowers hallowed rfl).bind subset_rfl (zero_add _).symm fun id =>
    .pure (add_zero _) ?_
  rintro v (rfl | rfl)
  · exact .inr (usable_mem_madeFacts rfl rfl)
  · exact .inr (barren_mem_madeFacts rfl nofun)

omit hr in
theorem loopStart_lowers {y : NodeId → LowerM NodeId} {itemPos pos : Pos}
    (hy : ∀ value, Lowers true ∅ (root .expression value) (y value) (root .statement)) :
    Lowers true ∅ 0
      (do
        let item ← loopItem itemPos
        let value ← useTemp item pos
        return (item.id, [← y value]))
      (fun result => root .declarator result.1 + roots .statement result.2) fun result => {.barren result.1} := by
  refine (loopItem_lowers itemPos).andThen subset_rfl fun item => ?_
  refine temp_lowers.beside ?_ fun value => ?_
  · rintro v rfl
    exact .inr (.inl rfl)
  refine (hy value).next (Set.empty_subset _) rfl fun stmt => .pure ?_ ?_
  · simp [add_comm]
  · rintro v rfl
    exact .inr (.inr rfl)

theorem loopBinding_lowers {kind : Option DeclarationKind} {target : Pattern} {pos : Pos} :
    Lowers true ∅ 0 (loopBinding r kind target pos)
      (fun result => root .declarator result.1 + roots .statement result.2) fun result => {.barren result.1} := by
  have hassign : ∀ value, Lowers true ∅ (root .expression value)
      (do
        let expression ← assignLowered r target value target.pos
        synthetic (.exprStmt expression) target.pos) (root .statement) := fun value =>
    (assignLowered_lowers hr).next subset_rfl (add_zero _).symm fun expression =>
      synthetic_done rfl rfl (by simp)
  unfold loopBinding
  split
  · simpa only [bind_assoc] using loopStart_lowers hassign
  · simpa only [bind_assoc] using loopStart_lowers hassign
  next kind id _ =>
    refine declareName_lowers.bind (B := 0) subset_rfl rfl fun binding => .pure ?_ ?_
    · simp
    · rintro v rfl
      exact .inr (.inl (barren_mem_madeFacts rfl nofun))
  next kind _ _ => exact loopStart_lowers fun value => declareLowered_lowers hr

/-- **A loop over a collection** closes the names of its binding. -/
theorem lowerForEach_lowers {iterate : IterationKind} {left : Tree .forHead} {right : Expr} {body : Stmt} {pos : Pos} :
    Lowers fills ∅ 0 (lowerForEach r iterate left right body pos) (root .statement) := by
  refine (hr.expr none right).before fun iterable => ?_
  refine forget (Isolated.make (J := fun c => {c, c.loop})
    (R := fun result => root .statement result.2 + root .declarator result.1)
    (k := fun result => .forEach iterate result.1 iterable result.2) ?_ ?_ (fun result => ?_) (fun _ => ?_)
    (fun _ => rfl) (fun _ => rfl) fun _ _ => .around rfl rfl)
  · refine inScope_isolated fun s F hready hnames => ?_
    have h : Inside s F s (0 + 0) {s.context, s.context.loop} := Inside.refl hready
    have hhead : Lowers true ∅ 0 (headTarget left) fun _ => 0 := .of_quiet (headTarget_quiet left)
    refine (h.lowers hnames hhead (by simp) (by simp)).bind fun ⟨kind, target⟩ u₁ ⟨h₁, _, _⟩ => ?_
    refine (h₁.lowers hnames (loopBinding_lowers hr) (by simp) (by simp)).bind ?_
    rintro ⟨binding, before⟩ u₂ ⟨h₂, -, hbarren⟩
    rw [add_zero, add_comm] at h₂
    have hB : AllBarren u₂.builder (root .declarator binding) := fun t ht => mem_root.1 ht ▸ (hbarren _ rfl).2
    refine (inLoop_within h₂ fun u₀ u hcontext hu hbuilder => ?_).bind fun body s' h' => .pure h'
    exact (bodyAfter_within hr hu (hbuilder ▸ hB) (fun _ => rfl) (.inr hcontext)).mono fun _ _ h => h.1
  · rintro ⟨binding, body⟩ s
    exact typed_eq_create
  · simp only [Kind.parts, Kind.references, parts_append, parts_one]
    abel
  · intro t ht
    rw [mem_root.1 ht]
    exact ⟨rfl, rfl⟩

/-! ## Handlers -/

theorem catchParam_lowers (pattern : Pattern) : Lowers true {.calm} 0 (catchParam r pattern)
      (fun result => root .parameter result.1 + roots .statement result.2) fun result => {.barren result.1} := by
  unfold catchParam
  split
  next id => exact declaredParam_lowers
  next =>
    refine .skip freshName_quiet fun name => ?_
    have hallowed : (parameter name).Allowed ∅ := .of_isFree rfl
    refine (synthetic_lowers (c := .parameter) hallowed rfl).bind (Set.empty_subset _) (zero_add _).symm
      fun param => ?_
    refine (syntheticIdent_lowers (c := .expression) rfl).beside ?_ fun value => ?_
    · rintro v rfl
      exact .inr (usable_mem_madeFacts rfl rfl)
    refine (declareLowered_lowers hr).next (Set.empty_subset _) rfl fun stmt => .pure ?_ ?_
    · simp [add_comm]
    · rintro v rfl
      exact .inr (barren_mem_madeFacts rfl nofun)

theorem optionalParam_lowers {pattern : Option Pattern} : Lowers true {.calm} 0 (pattern.mapM (catchParam r))
      (fun param => roots .statement ((param.map (·.2)).getD []) + roots .parameter (param.map (·.1)).toList)
      fun param => barrenFacts [] (param.map (·.1)) := by
  cases pattern with
  | none => exact .pure rfl (by simp [barrenFacts])
  | some pattern =>
    have h : Lowers true {.calm} 0 (catchParam r pattern >>= fun param => pure (some param))
        (fun param => roots .statement ((param.map (·.2)).getD []) + roots .parameter (param.map (·.1)).toList)
        fun param => barrenFacts [] (param.map (·.1)) := by
      refine (catchParam_lowers hr pattern).andThen subset_rfl fun param => .pure ?_ ?_
      · simp [add_comm]
      · rintro v ⟨id, hid, rfl⟩
        obtain rfl : id = param.1 := by simpa using hid
        exact .inr rfl
    rwa [Option.mapM_some]

/-- **A handler** closes the names of its parameter. -/
theorem lowerCatch_isolated (handler : Tree .catchClause) : Isolated (lowerCatch r handler) (root .catchClause) := by
  cases handler with
  | catchClause param body pos =>
    refine inScope_isolated fun s F hready hnames => ?_
    refine ((optionalParam_lowers hr).inside hready hnames).bind fun param u₁ hend => ?_
    obtain ⟨h₁, hbarren⟩ := hend
    have hB : AllBarren u₁.builder (roots .parameter (param.map (·.1)).toList) := by
      intro t ht
      obtain ⟨id, hid, rfl⟩ := mem_roots.1 ht
      exact (hbarren (.barren id) ⟨id, hid, rfl⟩).2
    refine (blockAfter_within hr h₁ hB (c := .block) (fun _ => rfl) rfl).bind fun body u₂ hend => ?_
    obtain ⟨h₂, _, _⟩ := hend
    have hparts : Within s F ∅ u₂ ((catchClause (param.map (·.1)) body).parts + 0) := by
      convert h₂ using 1
      simp only [Kind.parts, Kind.references, parts_append, parts_one, parts_opt]
      abel
    refine .of_create typed_eq_create fun e =>
      (hparts.create (c := .catchClause) allBarren_zero rfl rfl (.plain rfl rfl rfl)).mono fun p s' hend => ?_
    obtain ⟨h', _⟩ := hend
    rwa [add_zero] at h'

/-! ## Switches -/

theorem lowerCase_lowers (c : Tree .switchCase) :
    Lowers true ∅ 0 (lowerCase r c) (root .switchCase) fun _ => settledFacts (lexicalNames (caseBody c)) := by
  cases c with
  | switchCase test consequent pos =>
    refine (optional_lowers hr test.toOption).before fun test => ?_
    refine (statements_lowers hr).andThen subset_rfl fun ids => ?_
    refine (node_lowers (c := .switchCase) (.of_isFree rfl) rfl).conseq (B := 0) subset_rfl ?_ (by simp) ?_
    · simp only [Kind.parts, Kind.references, parts_append, parts_opt, parts_many]
      abel
    · intro id
      exact Set.subset_union_right.trans Set.subset_union_left

theorem switchCases_isolated {cases : List (Tree .switchCase)} : Isolated (inSwitch do
        cases.forM fun c => declareBlock (caseBody c)
        cases.mapM (lowerCase r)) (roots .switchCase) fun c => {c.switch} := by
  have hcases : Lowers true ∅ 0 (cases.mapM (lowerCase r)) (roots .switchCase)
      fun _ => settledFacts (cases.flatMap fun c => lexicalNames (caseBody c)) := by
    have hone : ∀ c ∈ cases, Lowers true ∅ 0 (lowerCase r c) (root .switchCase)
        fun _ => ∅ ∪ settledFacts (lexicalNames (caseBody c)) := fun c _ => by
      rw [Set.empty_union]
      exact lowerCase_lowers hr c
    refine (mapM hone).conseq (B := 0) subset_rfl rfl (by simp [sum_root]) ?_
    rintro ids v ⟨name, hname, rfl⟩
    obtain ⟨c, hc, hname⟩ := mem_flatMap.1 hname
    exact .inr (.inr ⟨c, hc, name, hname, rfl⟩)
  have hdeclares := Declares.forM (fun c : Tree .switchCase => declareBlock_declares (caseBody c)) cases
  exact inSwitch_isolated (hdeclares.lowers hcases fun _ => subset_rfl)

/-! ## All statements -/

theorem lowerAlternate_lowers {alternate : Option Stmt} :
    Lowers true ∅ 0 (lowerAlternate r alternate) (fun o => roots .statement o.toList)
      fun o => {fact | ∃ id ∈ o, fact = .inert id} := by
  unfold lowerAlternate
  split
  · exact .pure rfl (by simp)
  · refine (hr.ifStmt _ _ _ _).andThen subset_rfl fun ids => .pure (add_zero _) ?_
    exact Set.subset_union_right
  · refine (bodyAfter_lowers hr).andThen subset_rfl fun id => .pure (by simp) ?_
    rintro v ⟨id', hid, rfl⟩
    cases hid
    exact .inr rfl

/-- **A conditional statement** carries no names. -/
theorem lowerIf_lowers {test : Expr} {consequent : Stmt} {alternate : Tree (.opt .stmt)} {pos : Pos} :
    Lowers true ∅ 0 (lowerSingle r (.ifStmt test consequent alternate pos)) (root .statement)
      fun id => {.inert id} := by
  refine (hr.expr none test).before fun test => ?_
  refine (bodyAfter_lowers hr).andThen subset_rfl fun consequent => ?_
  refine (lowerAlternate_lowers hr).andThen (Set.empty_subset _) fun alternate => ?_
  have hallowed : (ifStmt test consequent alternate).Allowed
      (∅ ∪ {.inert consequent} ∪ {fact | ∃ id ∈ alternate, fact = .inert id}) := by
    refine .of_inert rfl rfl rfl fun r hr hcarries => ?_
    simp only [references, one, opt, mem_append, mem_singleton, mem_map,
      Option.mem_toList] at hr
    rcases hr with (rfl | rfl) | ⟨id, hid, rfl⟩
    · cases hcarries
    · exact .inl (.inr rfl)
    · exact .inr ⟨id, hid, rfl⟩
  refine (node_lowers (c := .statement) hallowed rfl).conseq (B := 0) subset_rfl ?_ (by simp) fun id => ?_
  · simp only [Kind.parts, Kind.references, parts_append, parts_one, parts_opt]
    abel
  · rintro v rfl
    exact .inr (inert_mem_madeFacts rfl)

theorem loopBody_lowers (body : Stmt) : Lowers fills ∅ 0 (inLoop (bodyAfter r [] body)) (root .statement)
    (fun id => {.inert id}) fun c => {c.loop} :=
  (bodyAfter_lowers hr).inContext .loop (fun c => { c with loopDepth := c.loopDepth - 1 })
    (fun _ => rfl) (by simp) (by rintro a s c v rfl h; exact h)

omit hr in
/-- **A loop with a test** settles the jumps in its body. -/
theorem loop_lowers {x : LowerM (NodeId × NodeId)} {k : NodeId → NodeId → Kind}
    (hx : Lowers fills ∅ 0 x (fun a => root .expression a.1 + root .statement a.2) (fun a => {.inert a.2})
      fun c => {c, c.loop}) (pos : Pos)
    (hparts : ∀ test body, (k test body).parts = root .expression test + root .statement body)
    (hbody : ∀ test body, ∀ r ∈ (k test body).references, r.category.carriesNames = true → r.target = body)
    (howned : ∀ test body, (k test body).refersAcross = false)
    (hfunction : ∀ test body, (k test body).function? = none) (hcalm : ∀ test body, (k test body).allowedAt {} = true)
    (hc : ∀ test body, Category.statement.admits (k test body) = true)
    (hinside : ∀ test body c, (k test body).inside c = c.loop) :
    Lowers fills ∅ 0 (x >>= fun a => node (k a.1 a.2) pos) (root .statement) := by
  refine hx.settle (fun _ s => typed_eq_create) (fun a => ?_) (fun a => hparts _ _) (fun a => hc _ _)
    (by simp) fun a c => ?_
  · refine .of_inert (hfunction _ _) (hcalm _ _) (howned _ _) fun r hr hcarries => ?_
    rw [hbody _ _ r hr hcarries]
    rfl
  · rw [← hinside a.1 a.2]
    exact .around (hfunction _ _) (hcalm _ _)

/-- **A `for` loop** closes the names that are declared in its head. -/
theorem lowerFor_isolated {init : Tree (.opt .forInit)} {test update : Tree (.opt .expr)} {body : Stmt} {pos : Pos} :
    Isolated (lowerSingle r (.forStmt init test update body pos)) (root .statement) := by
  refine inScope_isolated fun s F hready hnames => ?_
  have hexpr : ∀ e : Option Expr, Lowers true ∅ 0 (e.mapM (r.expr none)) _ _ := optional_lowers hr
  have hbody : Lowers true ∅ 0 (inLoop (bodyAfter r [] body)) _ _ _ := loopBody_lowers hr body
  have hrest : ∀ init u, Inside s F u (roots .forInit init.toList + 0) {s.context, s.context.loop} →
      EndsWell
        (do
          let test ← test.toOption.mapM (r.expr none)
          let update ← update.toOption.mapM (r.expr none)
          let body ← inLoop (bodyAfter r [] body)
          node (.forStmt init test update body) pos) u fun p s' => Within s F ∅ s' (root .statement p) := by
    intro init u₁ h₁
    refine (h₁.take hnames (hexpr _) (by simp)).bind fun test u₂ h₂ => ?_
    refine (h₂.take hnames (hexpr _) (by simp)).bind fun update u₃ h₃ => ?_
    refine (h₃.take hnames hbody (by simp)).bind fun body u₄ h₄ => ?_
    have hparts : Within s F ∅ u₄ ((forStmt init test update body).parts + 0) {s.context, s.context.loop} := by
      convert h₄.toWithin using 1
      simp only [Kind.parts, Kind.references, parts_append, parts_one, parts_opt]
      abel
    refine .of_create typed_eq_create fun e =>
      (hparts.create (c := .statement) allBarren_zero rfl rfl (.around rfl rfl)).mono fun p s' hend => ?_
    obtain ⟨h', _⟩ := hend
    rwa [add_zero] at h'
  have hstart : Inside s F s 0 {s.context, s.context.loop} := .refl hready
  split
  next init _ => exact (hstart.take hnames (forInit_lowers hr init) (by simp)).bind hrest
  next => exact EndsWell.bind (.pure hstart) hrest

attribute [local simp] references

/-- **A statement that becomes one statement** declares the names that its block awaits from it. -/
theorem lowerSingle_lowers (stmt : Stmt) :
    Lowers true ∅ 0 (lowerSingle r stmt) (root .statement) fun _ => settledFacts (lexicalNames [stmt]) := by
  have hnameless : ∀ {x : LowerM NodeId}, lexicalNames [stmt] = [] →
      Lowers true ∅ 0 x (root .statement) (fun _ => ∅) →
      Lowers true ∅ 0 x (root .statement) fun _ => settledFacts (lexicalNames [stmt]) := by
    intro x hnames hx
    have hempty : settledFacts (lexicalNames [stmt]) = ∅ := by simp [hnames, settledFacts]
    rwa [hempty]
  have htest : ∀ test, Lowers true ∅ 0 (r.expr none test) (root .expression) (fun _ => ∅) fun c => {c, c.loop} :=
    fun test => (hr.expr none test).widen (by simp)
  have hbody : ∀ body, Lowers true ∅ 0 (inLoop (bodyAfter r [] body)) (root .statement) (fun id => {.inert id})
      fun c => {c, c.loop} := fun body => (loopBody_lowers hr body).widen (by simp)
  cases stmt with
  | exprStmt value directive pos =>
    refine hnameless rfl ((hr.expr none value).before fun id => ?_)
    exact node_done rfl rfl (by simp)
  | blockStmt b => exact hnameless rfl (blockAfter_lowers hr (fun _ => rfl) b).forget
  | emptyStmt pos => exact hnameless rfl (node_done rfl rfl rfl)
  | variableStmt d =>
    refine (lexicalDeclaration_lowers hr (c := .statement) (fun _ _ => rfl) d).conseq (B := 0) subset_rfl rfl (by simp)
      fun _ => ?_
    rw [Set.empty_union]
    rintro v ⟨name, hname, rfl⟩
    exact ⟨name, lexicalNames_variableStmt hname, rfl⟩
  | functionStmt f =>
    cases f with
    | function id params body isAsync generator pos =>
      have hnames : lexicalNames [.functionStmt (.function id params body isAsync generator pos)] =
          declaredFunction (.function id params body isAsync generator pos) := by cases id <;> rfl
      rw [hnames]
      exact functionDeclaration_lowers hr (.function id params body isAsync generator pos)
  | classStmt c =>
    cases c with
    | classLike id superClass members bodyPos pos =>
      have hnames : lexicalNames [.classStmt (.classLike id superClass members bodyPos pos)] =
          declaredClass (.classLike id superClass members bodyPos pos) := by cases id <;> rfl
      rw [hnames]
      exact classDeclaration_lowers hr _
  | returnStmt argument pos =>
    refine hnameless rfl (.get fun s => ?_)
    split
    · exact .of_fails malformed_fails.bind
    next hfunction =>
      refine (optional_lowers hr argument.toOption).before fun argument => ?_
      have hallowed : (returnStmt argument).allowedAt s.context = true := by simpa [allowedAt] using hfunction
      exact (node_lowers (.of_context (.inr rfl) hallowed rfl rfl) rfl).done (by simp)
  | ifStmt test consequent alternate pos => exact hnameless rfl (lowerIf_lowers hr).forget
  | forStmt init test update body pos => exact hnameless rfl (lowerFor_isolated hr).lowers
  | forIn left right body pos => exact hnameless rfl (lowerForEach_lowers hr)
  | forOf left right body isAwait pos =>
    refine hnameless rfl ?_
    dsimp only [lowerSingle]
    split
    · exact .of_fails unhandled_fails.bind
    · exact lowerForEach_lowers hr
  | whileStmt test body pos =>
    have hparts : Lowers true ∅ 0
        (do
          let test ← r.expr none test
          let body ← inLoop (bodyAfter r [] body)
          return (test, body)) (fun a => root .expression a.1 + root .statement a.2) (fun a => {.inert a.2})
          fun c => {c, c.loop} := by
      refine (htest test).before fun test => (hbody body).andThen subset_rfl fun body => .pure ?_ Set.subset_union_right
      abel
    have h := loop_lowers (k := .whileStmt) hparts pos (fun _ _ => by simp [Kind.parts])
      (by simp [one, Category.carriesNames]) (fun _ _ => rfl) (fun _ _ => rfl)
      (fun _ _ => rfl) (fun _ _ => rfl) fun _ _ _ => rfl
    simp only [bind_assoc, pure_bind] at h
    exact hnameless rfl h
  | doWhile test body pos =>
    have hparts : Lowers true ∅ 0
        (do
          let body ← inLoop (bodyAfter r [] body)
          let test ← r.expr none test
          return (test, body)) (fun a => root .expression a.1 + root .statement a.2) (fun a => {.inert a.2})
          fun c => {c, c.loop} := by
      refine (hbody body).andThen subset_rfl fun body => (htest test).before fun test => .pure ?_ Set.subset_union_right
      abel
    have h := loop_lowers (k := fun test body => .doWhile body test) hparts pos
      (fun _ _ => by simp [Kind.parts])
      (by simp [one, Category.carriesNames]) (fun _ _ => rfl) (fun _ _ => rfl)
      (fun _ _ => rfl) (fun _ _ => rfl) fun _ _ _ => rfl
    simp only [bind_assoc, pure_bind] at h
    exact hnameless rfl h
  | breakStmt label pos =>
    refine hnameless rfl ?_
    dsimp only [lowerSingle]
    split
    · exact .of_fails unhandled_fails.bind
    refine .get fun s => ?_
    split
    · exact .of_fails malformed_fails.bind
    next hcontext =>
      have hallowed : breakStmt.allowedAt s.context = true := by
        simpa [allowedAt, imp_iff_not_or] using hcontext
      exact (node_lowers (.of_context (.inr rfl) hallowed rfl rfl) rfl).done (by simp)
  | continueStmt label pos =>
    refine hnameless rfl ?_
    dsimp only [lowerSingle]
    split
    · exact .of_fails unhandled_fails.bind
    refine .get fun s => ?_
    split
    · exact .of_fails malformed_fails.bind
    next hcontext =>
      have hallowed : continueStmt.allowedAt s.context = true := by
        simpa [allowedAt] using hcontext
      exact (node_lowers (.of_context (.inr rfl) hallowed rfl rfl) rfl).done (by simp)
  | throwStmt argument pos =>
    refine hnameless rfl ((hr.expr none argument).before fun id => ?_)
    exact node_done rfl rfl (by simp)
  | tryStmt body handler finalizer pos =>
    have hblock : ∀ b, Lowers true ∅ 0 (blockAfter r [] b) (root .block) := fun b =>
      (blockAfter_lowers hr (fun _ => rfl) b).forget
    refine hnameless rfl ((hblock body).before fun block => ?_)
    refine (mapOption (fun h => (lowerCatch_isolated hr h).lowers) handler.toOption).before fun handler => ?_
    refine (mapOption hblock finalizer.toOption).before fun finalizer => ?_
    exact node_done rfl rfl (by simp; abel)
  | switchStmt discriminant cases pos =>
    refine hnameless rfl ((hr.expr none discriminant).before fun discriminant => ?_)
    refine forget ((switchCases_isolated hr).make
      (fun _ s => typed_eq_create) (fun ids => ?_) (fun ids => ?_) (fun _ => rfl)
      (fun _ => rfl) fun _ _ => .inner rfl)
    · simp only [Kind.parts, Kind.references, parts_append, parts_one, parts_many]
      abel
    · intro t ht
      rw [mem_root.1 ht]
      exact ⟨rfl, rfl⟩
  | unsupportedStmt kind pos => exact .of_fails unhandled_fails

/-- **A statement** becomes roots and declares the names that its block awaits from it. -/
theorem lowerStmt_lowers (stmt : Stmt) :
    Lowers true ∅ 0 (lowerStmt r stmt) (roots .statement) fun _ => settledFacts (lexicalNames [stmt]) := by
  unfold lowerStmt
  split
  next declarators pos =>
    refine (varAssignments_lowers hr).before fun assignments => ?_
    rw [add_zero]
    have hempty : settledFacts (lexicalNames [.variableStmt (.declaration .varKind declarators pos)]) = ∅ := by
      simp [lexicalNames, settledFacts]
    rw [hempty]
    exact exprStmts_lowers pos assignments
  next =>
    refine (lowerSingle_lowers hr stmt).andThen subset_rfl fun id => .pure (by simp) ?_
    exact Set.subset_union_right

end

end Retarget
