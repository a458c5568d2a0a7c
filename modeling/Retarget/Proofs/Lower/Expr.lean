import Retarget.Lower.Expr
import Retarget.Proofs.Lower.Class

/-!
# Expressions

* `lowerExpr_lowers`: every expression becomes one node, with the nodes of its parts below it.
-/

namespace Retarget

open Syntax LowerM Lowers

variable {A B C : Multiset Root} {U : Set Fact} {r : Lowerers} {fills : Bool} {c : Category} {pos : Pos}
  {symbol : String}

attribute [local simp] Kind.parts Kind.references sum_root_map

theorem lowerIdentifier_lowers (id : Identifier) :
    Lowers fills ∅ 0 (lowerIdentifier id) (root .expression) := by
  refine (resolve?_lowers id.name).andThen subset_rfl fun binding => ?_
  rw [Set.empty_union]
  have hname : ∀ type, Lowers fills (usableFacts binding) 0 (typed (.identifier id.name binding) id.pos type)
      (root .expression) := fun type =>
    (typed_lowers (.identifier id.name binding) rfl).done Reference.parts_cross.symm
  cases binding with
  | some binding => exact .skip .get fun s => hname _
  | none =>
    dsimp only
    split
    · exact node_done rfl rfl rfl
    · exact hname _

theorem lowerLiteral_lowers (lit : Literal) : Lowers fills ∅ 0 (lowerLiteral lit) (root .expression) := by
  unfold lowerLiteral
  dsimp only
  split
  · exact .of_fails unhandled_fails.bind
  split
  · exact .of_fails unhandled_fails.bind
  split
  · exact typed_done rfl rfl rfl
  · exact typed_done rfl rfl rfl
  · exact typed_done rfl rfl rfl
  · exact typed_done rfl rfl rfl
  · exact .of_fails malformed_fails

theorem operator_quiet {α : Type} {kind : String} {ofSymbol? : String → Option α} :
    Quiet (operator kind ofSymbol? symbol pos) := by
  unfold operator
  split
  · exact .pure
  · exact .of_fails malformed_fails

theorem elementType_quiet (elements : List ListItem) : Quiet (elementType elements) := by
  refine (Quiet.mapM (fun item => ?_) elements).bind fun types => ?_
  · split
    · exact .pure
    · exact typeOf_quiet
  · split <;> exact .pure

theorem noteUpdated_quiet {target : NodeId} {type : Option TypeDescriptor} : Quiet (noteUpdated target type) := by
  refine kindOf_quiet.bind fun kind => ?_
  split
  · refine Quiet.get.bind fun s => ?_
    split
    · exact recordType_quiet
    · exact .pure
  · exact .pure

section

variable (hr : r.Sound) {target : Pattern}
include hr

/-! ## Templates, arrays and objects -/

theorem templateParts_lowers (quasis : List TemplateElement) (expressions : List Expr) :
    Lowers fills ∅ 0 (templateParts r quasis expressions) (roots .templatePart) := by
  have hpart : ∀ k, Category.expression.admits k = true → Category.templatePart.admits k = true := by
    intro k hk
    cases k <;> first | rfl | exact hk
  induction quasis generalizing expressions with
  | nil => exact .ret rfl
  | cons quasi quasis ih =>
    refine (node_done (c := .templatePart) rfl rfl (by rfl)).before fun element => ?_
    cases expressions with
    | nil =>
      refine (ih []).before fun parts => .ret ?_
      rw [roots_cons, add_zero, add_comm]
    | cons expression expressions =>
      refine (hr.expr none expression).before fun value => recast ?_ hpart
      refine (ih expressions).before fun parts => .ret ?_
      simp only [roots_cons]
      abel

theorem lowerTemplate_lowers {quasis : List TemplateElement} {expressions : List Expr} :
    Lowers fills ∅ 0 (lowerTemplate r quasis expressions pos) (root .expression) := by
  unfold lowerTemplate
  split
  · exact .of_fails malformed_fails.bind
  · refine (templateParts_lowers hr quasis expressions).before fun parts => ?_
    exact typed_done rfl rfl (by simp)

theorem lowerItem_lowers {e : Expr} :
    Lowers fills ∅ 0 (lowerItem r e) fun item => root .expression item.value := by
  unfold lowerItem
  split <;> exact (hr.expr none _).before fun id => .ret (add_zero _)

theorem lowerArray_lowers (elements : List (Option Expr)) (pos : Pos) :
    Lowers fills ∅ 0 (lowerArray r elements pos) (root .expression) := by
  refine (mapM_roots (R := fun item => root .expression item.value) fun element _ => ?_).before fun items =>
    .skip (elementType_quiet items) fun type => ?_
  · cases element with
    | some element => exact lowerItem_lowers hr
    | none =>
      exact (synthetic_done rfl rfl (by rfl)).before fun id => .ret (add_zero _)
  exact typed_done rfl rfl (by simp)

theorem objectKey_lowers {key : Expr} {computed : Bool} :
    Lowers fills ∅ 0 (objectKey r key computed) fun result => root .expression result.1 := by
  have hname : ∀ name, Lowers fills ∅ 0
      (do return (← typed (.string name) key.pos (some .string), some name))
      fun result => root .expression result.1 := fun name =>
    (typed_done rfl rfl (by rfl)).before fun id => .ret (add_zero _)
  unfold objectKey
  split
  · exact (hr.expr none key).before fun id => .ret (add_zero _)
  split
  · exact hname _
  · exact hname _
  · exact .of_fails unhandled_fails.bind

theorem objectMember_lowers (member : Tree .objectMember) :
    Lowers fills ∅ 0 (objectMember r member) fun result => root .objectMember result.1 := by
  cases member with
  | property key value role computed method shorthand pos =>
    unfold objectMember
    dsimp only
    split
    · exact .of_fails unhandled_fails.bind
    refine (objectKey_lowers hr).before fun ⟨key, name⟩ => ?_
    refine (hr.expr name value).before fun value => .skip typeOf_quiet fun type => ?_
    exact (node_lowers (.of_isFree rfl) rfl).into (by simp; abel) fun id =>
      .ret (add_zero _)
  | spreadMember argument pos =>
    refine (hr.expr none argument).before fun argument => ?_
    exact (node_lowers (.of_isFree rfl) rfl).next subset_rfl rfl
      fun id => .ret (add_zero _)

theorem lowerObject_lowers {members : List (Tree .objectMember)} :
    Lowers fills ∅ 0 (lowerObject r members pos) (root .expression) := by
  refine (mapM_roots fun member _ => objectMember_lowers hr member).before fun members => ?_
  exact typed_done rfl rfl (by simp)

/-! ## Assignments and calls -/

theorem updateTarget_lowers (e : Expr) : Lowers fills ∅ 0 (updateTarget r e) (root .assignTarget) := by
  unfold updateTarget
  split
  · exact assignableIdentifier_lowers
  · exact lowerMember_lowers hr (fun _ _ _ => rfl)
  · exact .of_fails malformed_fails

theorem compoundTarget_lowers : Lowers fills ∅ 0 (compoundTarget r symbol target) (root .assignTarget) := by
  unfold compoundTarget
  split
  · exact assignableIdentifier_lowers
  · exact lowerMember_lowers hr (fun _ _ _ => rfl)
  · exact .of_fails malformed_fails

theorem lowerAssignment_lowers {value : Expr} :
    Lowers fills ∅ 0 (lowerAssignment r symbol target value pos) (root .expression) := by
  refine .skip operator_quiet fun op => ?_
  split
  · exact assignPattern_lowers hr
  refine (compoundTarget_lowers hr).before fun target => ?_
  refine (hr.expr none value).before fun value => ?_
  have hlast : ∀ type, Lowers fills ∅ (root .expression value + (root .assignTarget target + 0))
      (do
        noteUpdated target type
        typed (.assign op target value) pos type) (root .expression) := by
    refine fun type => .skip noteUpdated_quiet fun _ => ?_
    exact typed_done rfl rfl (by simp; abel)
  split
  · exact .skip typeOf_quiet fun _ => .skip typeOf_quiet fun _ => hlast _
  · exact .skip unionType_quiet hlast

theorem lowerCall_lowers {callee : Expr} {arguments : List Expr} {optional : Bool}
    {make : NodeId → List ListItem → Bool → Kind}
    (hfree : ∀ callee items spread, (make callee items spread).isFree = true)
    (hc : ∀ callee items spread, Category.expression.admits (make callee items spread) = true)
    (hparts : ∀ callee items spread,
      (make callee items spread).parts = root .expression callee + roots .expression (items.map (·.value))) :
    Lowers fills ∅ 0 (lowerCall r callee arguments optional pos make) (root .expression) := by
  unfold lowerCall
  split
  · exact .of_fails unhandled_fails.bind
  refine (hr.expr none callee).before fun callee => ?_
  refine (mapM_roots fun e _ => lowerItem_lowers hr).before fun items => ?_
  refine node_done (hfree _ _ _) (hc _ _ _) ?_
  rw [hparts, sum_root_map, add_zero, add_comm]

/-! ## All expressions -/

/-- **An expression becomes one node.** -/
theorem lowerExpr_lowers (hint : Option String) (e : Expr) :
    Lowers fills ∅ 0 (lowerExpr r hint e) (root .expression) := by
  cases e with
  | identifier id => exact lowerIdentifier_lowers id
  | literal lit => exact lowerLiteral_lowers lit
  | template quasis expressions pos => exact lowerTemplate_lowers hr
  | thisExpr pos => exact node_done rfl rfl rfl
  | superExpr pos => exact node_done rfl rfl rfl
  | array elements pos => exact lowerArray_lowers hr _ pos
  | object members pos => exact lowerObject_lowers hr
  | functionExpr f => exact functionExpression_lowers hr hint f
  | arrow params body isAsync pos => exact arrowFunction_lowers hr
  | classExpr c => exact classExpression_lowers hr hint c
  | unary symbol argument before pos =>
    refine .skip operator_quiet fun op => (hr.expr none argument).before fun argument => ?_
    exact typed_done rfl rfl (by simp)
  | update symbol argument before pos =>
    refine .skip operator_quiet fun op => (updateTarget_lowers hr argument).before fun argument => ?_
    exact typed_done rfl rfl (by simp)
  | binary symbol left right pos =>
    refine .skip operator_quiet fun op => ?_
    refine (hr.expr none left).before fun left => (hr.expr none right).before fun right => ?_
    refine .skip typeOf_quiet fun _ => .skip typeOf_quiet fun _ => ?_
    exact typed_done rfl rfl (by simp; abel)
  | logical symbol left right pos =>
    refine .skip operator_quiet fun op => ?_
    refine (hr.expr none left).before fun left => (hr.expr none right).before fun right => ?_
    refine .skip unionType_quiet fun _ => ?_
    exact typed_done rfl rfl (by simp; abel)
  | assign symbol target value pos => exact lowerAssignment_lowers hr
  | conditional test consequent alternate pos =>
    refine (hr.expr none test).before fun test => (hr.expr none consequent).before fun consequent => ?_
    refine (hr.expr none alternate).before fun alternate => .skip unionType_quiet fun _ => ?_
    exact typed_done rfl rfl (by simp; abel)
  | call callee arguments optional pos | newExpr callee arguments optional pos =>
    exact lowerCall_lowers hr (fun _ _ _ => rfl) (fun _ _ _ => rfl)
      fun _ _ _ => by simp [Kind.parts, Kind.references]
  | memberExpr m => exact lowerMember_lowers hr (fun _ _ _ => rfl)
  | sequence expressions pos =>
    have hlast : ∀ ids type, Lowers fills ∅ (roots .expression ids + 0) (typed (.sequence ids) pos type)
        (root .expression) := fun ids type =>
      typed_done rfl rfl (by simp)
    refine (mapM_roots fun e _ => hr.expr none e).before fun ids => ?_
    rw [sum_root]
    split
    · exact .skip typeOf_quiet (hlast ids)
    · exact .skip .pure (hlast ids)
  | awaitExpr argument pos =>
    refine .get fun s => ?_
    split
    · exact .of_fails malformed_fails.bind
    next hasync =>
      refine (hr.expr none argument).before fun argument => ?_
      have hallowed : (Kind.awaitExpr argument).allowedAt s.context = true := by simpa [Kind.allowedAt] using hasync
      exact (node_lowers (.of_context (.inr rfl) hallowed rfl rfl) rfl).done (by simp)
  | spread argument pos => exact .of_fails malformed_fails
  | parenthesized expression pos => exact hr.expr none expression
  | unsupportedExpr kind pos => exact .of_fails unhandled_fails

end

end Retarget
