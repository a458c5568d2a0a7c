import Retarget.Lower.Class
import Retarget.Proofs.Lower.Function

/-!
# Classes

A class owns its constructor, its methods and its static fields. Instance methods refer to the prototype of the class,
which is a node of its own.

* `lowerClass_lowers`: the parts of a class become roots.
* `classDeclaration_lowers` and `classExpression_lowers`: a class takes its parts, and its own name is awaited no more.
-/

namespace Retarget

open Syntax LowerM Reference Lowers

variable {s s₀ : LowerState} {A B F : Multiset Root} {U : Set Fact} {r : Lowerers} {fills : Bool}
  {X : Prop}

attribute [local simp] Kind.parts Kind.references sum_root_map

theorem classMembers_quiet {members : List (Tree .classMember)} : Quiet (classMembers members) := by
  induction members with
  | nil => exact .pure
  | cons member more ih =>
    cases member with
    | method key value role computed isStatic pos =>
      cases value
      refine ih.bind fun others => ?_
      split <;> exact .pure
    | field key value computed isStatic pos =>
      refine ih.bind fun others => ?_
      split <;> exact .pure
    | staticBlock pos => exact .of_fails unhandled_fails

/-! ## Constructors -/

theorem forwardArguments_lowers {pos : Pos} {derived : Bool} :
    Lowers fills {.calm} 0 (forwardArguments pos derived)
      (fun result => roots .restElement result.1.toList + roots .statement result.2)
      fun result => barrenFacts [] result.1 := by
  cases derived with
  | false => exact .pure rfl (by simp [barrenFacts])
  | true =>
    refine (synthetic_lowers (c := .parameter) (.of_isFree rfl) rfl).declare syntheticTyped_givesNew
      (Set.empty_subset _) (zero_add _).symm (bindName_binds "args")
      (fun _ => usable_mem_madeFacts rfl rfl) (fun _ => fits_mem_madeFacts (c := .parameter) rfl) (.inr rfl)
      fun args => ?_
    have hrest : (Kind.rest args).Allowed {.barren args} := .of_isFree rfl
    refine (synthetic_lowers (c := .restElement) hrest rfl).bind ?_ rfl fun rest => ?_
    · rintro v rfl
      exact .inr (.inl (barren_mem_madeFacts rfl (by simp [Kind.childList])))
    refine (synthetic_done (c := .expression) rfl rfl (by rfl)).before fun callee => ?_
    refine (syntheticIdent_lowers (c := .expression) rfl).beside ?_ fun forwarded => ?_
    · rintro v rfl
      exact .inl (.inr (.inl (usable_mem_madeFacts rfl rfl)))
    refine (synthetic_lowers (c := .expression) (.of_isFree rfl) rfl).into (B := root .restElement rest) (by simp; abel)
      fun call => ?_
    refine (synthetic_lowers (c := .statement) (.of_isFree rfl) rfl).into (B := root .restElement rest) (by simp)
      fun stmt => .pure ?_ ?_
    · simp [add_comm]
    · rintro v ⟨id, hid, rfl⟩
      obtain rfl : id = rest := by simpa using hid
      exact .inr (barren_mem_madeFacts rfl (by simp [Kind.childList]))

section

variable (hr : r.Sound)
include hr

theorem methodFunction_isolated (m : MethodSource) (constructor : ConstructorFields)
    (hX : constructor.fields ≠ [] → X) :
    Isolated (methodFunction r m constructor) FunctionParts.roots (fun _ => {.function m.isAsync}) X := by
  unfold methodFunction
  split
  · exact .of_fails unhandled_fails.bind
  · exact lowerFunction_isolated hr _ _ _ _ _ hX

theorem synthesizedConstructor_lowers {name : String} {derived : Bool} {fields : List FieldInit} {pos : Pos} :
    Lowers fills U 0 (synthesizedConstructor r name derived fields pos) (root .functionExpression) := by
  refine forget (Isolated.make (J := fun _ => {.function false})
    (R := fun result => FunctionParts.roots ⟨[], result.1, result.2, none⟩)
    (k := fun result => .functionExpr ⟨some name, [], result.1, result.2, false⟩) ?_ ?_ (fun result => ?_)
    (fun _ => takesInert_zero) (fun _ => rfl) (fun _ => rfl) fun _ _ => .inner rfl)
  · refine inFunction_isolated fun s F hready hnames hpending _ _ => ?_
    have hforward : Lowers false {.calm} 0 (forwardArguments pos derived) _ _ := forwardArguments_lowers
    refine (hforward.inside hready hnames).bind fun ⟨rest, forwarding⟩ u₁ ⟨h₁, hbarren₁⟩ => ?_
    rw [← zero_add (_ + _)] at h₁
    have hfields : Lowers false ∅ 0 (fieldInitializers r fields) _ _ := fieldInitializers_lowers hr
    refine (h₁.lowers hnames hfields (by simp) subset_rfl).bind ?_
    rintro inits u₂ ⟨h₂, hstep₂, -⟩
    refine (h₂.takePending hpending).bind fun temps u₃ ⟨h₃, hstep₃, hempty⟩ => ?_
    have hblock : Inside s F u₃ (roots .statement inits + (roots .statement temps.toList + (roots .parameter [] +
        roots .restElement rest.toList + roots .statement forwarding))) := by
      convert h₃ using 1
      abel
    have hbarren := h₂.facts hstep₃ (h₁.facts hstep₂ hbarren₁)
    exact (functionBlock_within hblock hbarren).bind fun block u₄ ⟨hwithin, hpending₄⟩ =>
      .pure ⟨hwithin none, .inl (hpending₄.trans hempty)⟩
  · rintro ⟨rest, body⟩ s
    exact syntheticTyped_eq_create
  · rw [add_zero]
    exact FunctionParts.parts_eq ⟨[], result.1, result.2, none⟩ (some name) false

/-- A written constructor can leave temporaries of the field initializers behind. -/
theorem classConstructor_lowers {name : String} {derived : Bool} {members : ClassMembers} {pos : Pos} :
    Lowers fills ∅ 0 (classConstructor r name derived members pos) (root .functionExpression) (fun _ => ∅)
      (fun c => {c}) (members.fields ≠ []) := by
  unfold classConstructor
  split
  · exact forget (functionNode_lowers (methodFunction_isolated hr _ _ id) (fun _ => rfl) fun _ => rfl)
  · exact (synthesizedConstructor_lowers hr).widen fun _ => subset_rfl

/-! ## Members -/

theorem classMethod_lowers {prototype : NodeId} {m : MethodSource} :
    Lowers fills {.fits .prototype prototype} 0 (classMethod r prototype m) fun result => root .method result.2 := by
  refine .skip (memberName_quiet m.key m.computed m.pos) fun key => ?_
  have hvalue : Lowers fills ∅ 0
      (do
        let parts ← methodFunction r m
        typed (.functionExpr (parts.toNode (some key) m.isAsync)) m.functionPos (some parts.type))
      (root .functionExpression) :=
    forget (functionNode_lowers (methodFunction_isolated hr m {} (· rfl)) (fun _ => rfl) fun _ => rfl)
  have hmethod : ∀ value home, home = none ∨ home = some prototype →
      (Kind.method key value (methodKind m.role) m.isStatic home).Allowed {.fits .prototype prototype} := by
    rintro value home (rfl | rfl)
    all_goals refine ⟨⟨rfl, .inl rfl⟩, .inr ⟨rfl, ?_⟩, ?_, ?_⟩
    all_goals simp [Kind.references, one, cross, Category.carriesNames]
  rw [← bind_assoc]
  refine hvalue.before fun value => ?_
  have hhome := ite_eq_or_eq (m.isStatic = true) none (some prototype)
  exact (node_lowers (hmethod value _ hhome) rfl).into (by simp) fun id =>
    .ret (add_zero _)

theorem staticField_lowers (field : FieldInit) :
    Lowers fills ∅ 0 (staticField r field) fun result => root .property result.2 := by
  refine .skip (memberName_quiet field.key field.computed field.pos) fun name => ?_
  refine (synthetic_done (c := .expression) rfl rfl (by rfl)).before fun key => ?_
  refine (fieldValue_lowers hr).before fun value => ?_
  exact (node_lowers (.of_isFree rfl) rfl).into (by simp; abel) fun property =>
    .ret (add_zero _)

/-- **The parts of a class** become roots. -/
theorem lowerClass_lowers (name : String) (c : Tree .classLike) :
    Lowers fills ∅ 0 (lowerClass r name c) fun body => parts body.references := by
  unfold lowerClass
  split
  next superClass members _ pos =>
  refine (optional_lowers hr superClass.toOption).before fun parent => ?_
  refine (synthetic_lowers (c := .prototype) (.of_isFree rfl) rfl).bind subset_rfl (zero_add _).symm
    fun prototype => ?_
  refine .skip classMembers_quiet fun members => ?_
  have hnames (fields : List FieldInit) := Quiet.mapM (fun field => memberName_quiet field.key field.computed field.pos)
    fields
  refine (of_quiet (hnames members.fields)).bind_run (Set.empty_subset _) (zero_add _).symm ?_
  intro fieldNames _ _ hrun
  have hlength := length_of_mapM hrun
  let V : ClassNode → Set Fact := fun _ => {v | members.fields ≠ [] ∧ v = .listsFields}
  refine forget (excuse (V := V) ?_ fun _ hfields => ⟨hfields, rfl⟩)
  refine (classConstructor_lowers hr).before
    fun constructor => ?_
  refine ((mapM_roots fun m _ => classMethod_lowers hr).widen fun _ => subset_rfl).beside ?_ fun methods => ?_
  · rintro v rfl
    exact .inl (.inr (fits_mem_madeFacts rfl))
  refine ((mapM_roots fun field _ => staticField_lowers hr field).widen fun _ => subset_rfl).before
    fun staticFields => ?_
  refine ((synthetic_lowers (c := .classMetadata) (.of_isFree rfl) rfl).widen fun _ => subset_rfl).bind
    (Set.empty_subset _) (zero_add _).symm fun metadata => .pure ?_ ?_
  · simp only [sum_root_map, ClassNode.references, parts_append, parts_one, parts_opt,
      parts_many]
    abel
  · rintro v ⟨hfields, rfl⟩
    refine .inr (listsFields_mem_madeFacts ?_)
    rw [Kind.listsFields, Bool.not_eq_true', List.isEmpty_eq_false_iff, ← List.length_pos_iff, hlength]
    exact List.length_pos_iff.2 hfields

/-! ## Classes and their names -/

def declaredClass : Tree .classLike → List String
  | .classLike id .. => (id.map (·.name)).toList

/-- **A class declaration** takes its parts and declares its own name. -/
theorem classDeclaration_lowers (c : Tree .classLike) :
    Lowers true ∅ 0 (classDeclaration r c) (root .statement) fun _ => settledFacts (declaredClass c) := by
  unfold classDeclaration
  split
  · exact .of_fails malformed_fails
  next id superClass members bodyPos pos =>
  have hsettled : settledFacts (declaredClass (.classLike (some id) superClass members bodyPos pos)) ⊆
      {.settled id.name} := by
    rintro v ⟨name, hname, rfl⟩
    exact congrArg _ (List.mem_singleton.1 hname)
  have hallowed : ∀ body, (Kind.classDecl body).Allowed ∅ := fun _ => .of_isFree rfl
  intro s F hready _
  refine reserved?_endsWell.bind fun o u ⟨hu, hwaits, hnone⟩ => ?_
  subst hu
  cases o with
  | some d =>
    have hclass : ∀ c, Lowers false ∅ 0 (lowerClass r id.name c) _ _ := lowerClass_lowers hr id.name
    refine (hclass _ u F hready (by simp)).bind fun body v hv => ?_
    have hd := hv.step.waits_of_unfilled hready (hwaits d rfl)
    have hv' : Lowered true u (0 + F) (Kind.classDecl body).parts ∅ v := by
      rw [zero_add]
      exact ⟨hv.ready, hv.step.weaken, hv.pending, by simp, hv.tame⟩
    refine hv'.andThen fun L hready' => ?_
    rw [add_zero] at hready'
    refine (hready'.fill (hallowed body) (by simp) hd (c := .statement) rfl rfl rfl pos).bind fun _ w hw => .pure ?_
    exact hv.step.context ▸ hw.weaken fun v hv => hw.facts v (.inr (hsettled hv))
  | none =>
    have hdeclare : Lowers true {.settled id.name} 0
        (do
          let body ← lowerClass r id.name (.classLike (some id) superClass members bodyPos pos)
          let created ← node (.classDecl body) pos
          bindName id.name created
          pure created) (root .statement) fun _ => {.settled id.name} := by
      refine (lowerClass_lowers hr id.name _).before fun body => ?_
      exact (node_lowers (hallowed body) rfl).declare typed_givesNew (Set.empty_subset _) rfl
        (bindName_binds id.name) (fun _ => usable_mem_madeFacts rfl rfl)
        (fun _ => fits_mem_madeFacts (c := .statement) rfl) (.inl rfl) fun _ => .pure (add_zero _) (by simp)
    refine (hdeclare u F hready ?_).mono fun _ _ h => h.weaken fun v hv => h.facts v (hsettled hv)
    rintro v rfl
    exact hnone rfl

/-- **A class expression** takes its parts and closes its own name. -/
theorem classExpression_lowers (hint : Option String) (c : Tree .classLike) :
    Lowers fills ∅ 0 (classExpression r hint c) (root .expression) := by
  unfold classExpression
  split
  next superClass members bodyPos pos =>
    have hnamed : ∀ name, Lowers fills ∅ 0
        (do node (.classExpr (← lowerClass r name (.classLike none superClass members bodyPos pos))) pos)
        (root .expression) := fun name =>
      (lowerClass_lowers hr name _).before fun body =>
        node_done rfl rfl (by simp)
    split
    · exact .skip .pure hnamed
    · exact .skip freshName_quiet hnamed
  next id superClass members bodyPos pos =>
    intro s F hready _
    rw [zero_add] at hready
    refine selfNamed_endsWell hready (lowerClass_lowers hr id.name _)
      fun self body u hwithin hscopes hreserved hle => ?_
    have hfill : Within s F {self} u (Kind.classExpr body).parts := hwithin
    exact (hfill.fill fills hscopes hreserved rfl rfl rfl
      (fun _ hd => hd) (.inl hle) (.plain rfl rfl rfl)).bind fun _ v ⟨hv, _, _⟩ => .pure (hv.weaken (by simp))

end

end Retarget
