import Retarget.Optimize.DeadCode
import Retarget.Optimize.Fold
import Retarget.Proofs.Optimize.Edit

/-!
# What the passes plan

* `Fold.Becomes` and `DeadCode.Becomes` list what a node can become, with what the pass has seen of other nodes.
* `Fold.run_ok`: folding always succeeds.
* `DeadCode.Becomes.suits`: what is left of dead code fits.
-/

namespace Retarget

open Relation List Option Kind Reference Builder

variable {b : Builder} {id : NodeId} {old new : Kind}

/-! ## Categories -/

variable {kind : Kind} {r : Reference} {c : Category} {source : NodeId} {α : Type}

theorem Kind.category_of_not_owned (hr : r ∈ kind.references) (howned : r.owned = false) :
    r.category = .binding ∨ r.category = .prototype := by
  cases kind <;>
    simp only [references, FunctionNode.references, ClassNode.references, one, opt,
      many, items, cross, mem_append, List.mem_map, mem_mapIdx,
      mem_singleton, not_mem_nil] at hr <;>
    grind

def Kind.isLocal (kind : Kind) : Bool := !Category.binding.admits kind && !Category.prototype.admits kind

theorem Builder.Suits.check (h : b.Suits id old new) (hid : b.kind? id = some old)
    (hacyclic : ∀ x, ¬Encloses b.kind? x x) (hlocal : old.isLocal = true) : b.check id new = .ok () := by
  refine check_eq_ok.2 ⟨h.scalar, fun r hr => ?_⟩
  obtain ⟨target, htarget, hadmits⟩ := h.resolved r hr
  refine ⟨fun heq => ?_, .inl ⟨target, htarget, hadmits⟩⟩
  cases howned : r.owned with
  | true =>
    have hchild : r.target ∈ new.children := mem_map_of_mem (mem_filter.2 ⟨hr, howned⟩)
    exact hacyclic id (h.inside id (heq ▸ hchild))
  | false =>
    rw [isLocal] at hlocal
    obtain hc | hc := category_of_not_owned hr howned <;> simp_all

def Kind.isComputed : Kind → Bool
  | .binary .. | .logical .. | .unary .. | .conditional .. | .call .. => true
  | _ => false

theorem Category.eq_of_admits_isComputed (hc : c.admits old = true) (hold : old.isComputed = true) :
    c = .expression ∨ c = .templatePart ∨ c = .forInit := by
  cases old <;> simp only [isComputed, Bool.false_eq_true] at hold <;>
  · cases c with
    | expression => exact .inl rfl
    | templatePart => exact .inr (.inl rfl)
    | forInit => exact .inr (.inr rfl)
    | _ => exact nomatch hc

theorem Category.admits_expression (hc : c.admits old = true) (hold : old.isComputed = true)
    (hnew : new.isExpression = true) : c.admits new = true := by
  obtain rfl | rfl | rfl := Category.eq_of_admits_isComputed hc hold
  · exact hnew
  · cases new with
    | templateElement => rfl
    | _ => exact hnew
  · cases new with
    | variableDecl => rfl
    | _ => exact hnew

theorem Category.admits_statement (hc : c.admits old = true) (hold : old matches .ifStmt .. | .whileStmt ..)
    (hnew : new.isStatement = true) : c.admits new = true := by
  cases old <;> simp at hold <;>
  · cases c with
    | statement => exact hnew
    | _ => exact nomatch hc

theorem Builder.Suits.copy (hresolved : Module.Resolved b.kind?) (hcopyable : b.Copyable)
    (howns : Owns b.kind? id source) (hsource : b.kind? source = some new) (hnew : new.isBinding = false)
    (stands : ∀ c : Category, c.admits old = true → c.admits new = true) : b.Suits id old new where
  stands := stands
  scalar := hcopyable source new hsource hnew
  resolved := hresolved source new hsource
  inside := fun _ hc => .tail (.single howns) (.of_eq hsource hc)

theorem Module.Resolved.admits_child (h : Module.Resolved b.kind?) (hid : b.kind? id = some old)
    (hr : r ∈ old.references) (hnew : b.kind? r.target = some new) : r.category.admits new = true := by
  obtain ⟨target, htarget, hadmits⟩ := h id old hid r hr
  rw [hnew] at htarget
  cases htarget
  exact hadmits

/-! ## Folding -/

namespace Fold

inductive Becomes (b : Builder) : Kind → Kind → Prop
  | binary {operator left right kind kind' new} (hleft : b.kind? left = some kind)
      (hright : b.kind? right = some kind') (h : binary? operator kind kind' = some new) :
      Becomes b (.binary operator left right) new
  | unary {operator argument kind new} (hargument : b.kind? argument = some kind)
      (h : unary? operator kind = some new) : Becomes b (.unary operator argument) new

theorem becomes (h : b.Plans plan id old new) : Becomes b old new := by
  obtain ⟨-, e, hplan, hnew⟩ := h
  cases old <;> simp only [plan, reduceCtorEq] at hplan
  case binary operator left right =>
    obtain ⟨kind, hleft, hplan⟩ := bind_eq_some_iff.1 hplan
    obtain ⟨kind', hright, hplan⟩ := bind_eq_some_iff.1 hplan
    obtain ⟨literal, hliteral, hplan⟩ := bind_eq_some_iff.1 hplan
    cases hplan
    cases hnew
    exact .binary hleft hright hliteral
  case unary operator argument =>
    obtain ⟨kind, hargument, hplan⟩ := bind_eq_some_iff.1 hplan
    obtain ⟨literal, hliteral, hplan⟩ := bind_eq_some_iff.1 hplan
    cases hplan
    cases hnew
    exact .unary hargument hliteral

def IsResult (kind : Kind) : Prop :=
  (∃ x : Float, kind = .number x ∧ x.isFinite = true) ∨ (∃ s, kind = .string s) ∨ ∃ t, kind = .boolean t

variable {x : Float} {operator : BinaryOperator}

theorem isResult_number? (h : number? x = some new) : IsResult new := by
  rw [number?] at h
  split at h
  next hfinite =>
    cases h
    exact .inl ⟨x, rfl, hfinite⟩
  next => exact absurd h nofun

theorem isResult_numbers? {y : Float} (h : numbers? operator x y = some new) : IsResult new := by
  cases operator with
  | add | sub | mul | div | rem | exp => exact isResult_number? h
  | eq | notEq | strictEq | strictNotEq | lt | ltEq | gt | gtEq =>
    exact .inr (.inr ⟨_, (some.inj h).symm⟩)
  | _ => exact absurd h nofun

theorem isResult_equality? [DecidableEq α] {x y : α} (h : equality? operator x y = some new) : IsResult new := by
  cases operator with
  | eq | notEq | strictEq | strictNotEq => exact .inr (.inr ⟨_, (some.inj h).symm⟩)
  | _ => exact absurd h nofun

theorem isResult_binary? {kind' : Kind} (h : binary? operator kind kind' = some new) : IsResult new := by
  unfold binary? at h
  split at h
  next => exact isResult_numbers? h
  next =>
    split at h
    next => exact .inr (.inl ⟨_, (some.inj h).symm⟩)
    next => exact isResult_equality? h
  next => exact isResult_equality? h
  next => exact absurd h nofun

theorem isResult_unary? {operator : UnaryOperator} (h : unary? operator kind = some new) : IsResult new := by
  unfold unary? at h
  split at h
  next => exact isResult_number? h
  next => exact isResult_number? h
  next =>
    obtain ⟨t, -, rfl⟩ := map_eq_some_iff.1 h
    exact .inr (.inr ⟨_, rfl⟩)
  next => exact .inr (.inl ⟨_, (some.inj h).symm⟩)
  next => exact .inr (.inl ⟨_, (some.inj h).symm⟩)
  next => exact .inr (.inl ⟨_, (some.inj h).symm⟩)
  next => exact absurd h nofun

theorem Becomes.isResult (h : Becomes b old new) : IsResult new := by
  cases h with
  | binary _ _ h => exact isResult_binary? h
  | unary _ h => exact isResult_unary? h

theorem IsResult.plain (h : IsResult new) :
    new.isExpression = true ∧ scalarError? new = none ∧ new.references = [] := by
  obtain ⟨x, rfl, hfinite⟩ | ⟨s, rfl⟩ | ⟨t, rfl⟩ := h
  · exact ⟨rfl, by simp [scalarError?, hfinite], rfl⟩
  · exact ⟨rfl, rfl, rfl⟩
  · exact ⟨rfl, rfl, rfl⟩

theorem IsResult.check (h : IsResult new) : b.check id new = .ok () := by
  obtain ⟨-, hscalar, hreferences⟩ := h.plain
  exact check_eq_ok.2 ⟨hscalar, by simp [hreferences]⟩

/-- **Folding succeeds.** -/
theorem run_ok (b : Builder) : ∃ r, run b = .ok r :=
  editList_ok (fun _ _ _ _ _ _ _ _ _ => trivial)
    (fun _ _ _ _ _ hplans => (becomes hplans).isResult.check) trivial

end Fold

/-! ## Elimination of dead code -/

namespace DeadCode

variable {statements live : List NodeId}

theorem splitAfter?_eq_some {test : α → Bool} {list front tail : List α}
    (h : splitAfter? test list = some (front, tail)) : list = front ++ tail := by
  induction list generalizing front with
  | nil => exact absurd h nofun
  | cons a more ih =>
    rw [splitAfter?] at h
    split at h
    next =>
      cases h
      rfl
    next =>
      obtain ⟨⟨front', tail'⟩, hmore, heq⟩ := map_eq_some_iff.1 h
      cases heq
      rw [ih hmore]
      rfl

theorem liveStatements?_sublist (h : liveStatements? b statements = some live) :
    live.Sublist statements ∧ live.length < statements.length := by
  obtain ⟨⟨front, tail⟩, hsplit, h⟩ := bind_eq_some_iff.1 h
  dsimp only at h
  split at h
  next => exact absurd h nofun
  next hlength =>
    cases h
    have hle : (tail.filter (holds b isDeclaration)).length ≤ tail.length := length_filter_le _ _
    rw [splitAfter?_eq_some hsplit, length_append, length_append]
    exact ⟨filter_sublist.append_left _, by omega⟩

inductive Becomes (b : Builder) : Kind → Kind → Prop
  | block {body live} (h : liveStatements? b body = some live) : Becomes b (.block body) (.block live)
  | switchCase {test consequent live} (h : liveStatements? b consequent = some live) :
    Becomes b (.switchCase test consequent) (.switchCase test live)
  | taken {test consequent alternate new} (htest : truthiness? b test = some true)
      (h : b.kind? consequent = some new) (hnew : new.isBinding = false) :
      Becomes b (.ifStmt test consequent alternate) new
  | otherwise {test consequent alternate new} (htest : truthiness? b test = some false)
      (h : b.kind? alternate = some new) (hnew : new.isBinding = false) :
      Becomes b (.ifStmt test consequent (some alternate)) new
  | skipped {test consequent} (htest : truthiness? b test = some false) :
    Becomes b (.ifStmt test consequent none) .empty
  | never {test body} (htest : truthiness? b test = some false) : Becomes b (.whileStmt test body) .empty
  | chosen {test consequent alternate truthy new} (htest : truthiness? b test = some truthy)
      (h : b.kind? (if truthy then consequent else alternate) = some new) (hnew : new.isBinding = false) :
      Becomes b (.conditional test consequent alternate) new
  | decided {operator left right kind isLeft new} (hleft : b.kind? left = some kind)
      (hdecided : givesLeft? operator kind = some isLeft)
      (h : b.kind? (if isLeft then left else right) = some new) (hnew : new.isBinding = false) :
      Becomes b (.logical operator left right) new

theorem kind?_copy (h : (Edit.copy source).kind? b = some new) : b.kind? source = some new ∧ new.isBinding = false := by
  obtain ⟨hsource, hnew⟩ := filter_eq_some_iff.1 h
  exact ⟨hsource, by simpa using hnew⟩

theorem becomes (h : b.Plans plan id old new) : Becomes b old new := by
  obtain ⟨-, e, hplan, hnew⟩ := h
  cases old <;> simp only [plan, reduceCtorEq] at hplan
  case block body =>
    obtain ⟨live, hlive, rfl⟩ := map_eq_some_iff.1 hplan
    cases hnew
    exact .block hlive
  case switchCase test consequent =>
    obtain ⟨live, hlive, rfl⟩ := map_eq_some_iff.1 hplan
    cases hnew
    exact .switchCase hlive
  case ifStmt test consequent alternate =>
    obtain ⟨truthy, htest, rfl⟩ := map_eq_some_iff.1 hplan
    cases truthy with
    | true =>
      obtain ⟨h, hbinding⟩ := kind?_copy hnew
      exact .taken htest h hbinding
    | false =>
      cases alternate with
      | some alternate =>
        obtain ⟨h, hbinding⟩ := kind?_copy hnew
        exact .otherwise htest h hbinding
      | none =>
        cases hnew
        exact .skipped htest
  case whileStmt test body =>
    split at hplan
    next htest =>
      cases hplan
      cases hnew
      exact .never htest
    next => exact absurd hplan nofun
  case conditional test consequent alternate =>
    obtain ⟨truthy, htest, rfl⟩ := map_eq_some_iff.1 hplan
    obtain ⟨h, hbinding⟩ := kind?_copy hnew
    exact .chosen htest h hbinding
  case logical operator left right =>
    obtain ⟨isLeft, hleft, rfl⟩ := map_eq_some_iff.1 hplan
    obtain ⟨kind, hleft, hdecided⟩ := bind_eq_some_iff.1 hleft
    obtain ⟨h, hbinding⟩ := kind?_copy hnew
    exact .decided hleft hdecided h hbinding

theorem resolved_live {field : String} (hlive : live.Sublist statements)
    (h : ∀ r ∈ many field statements .statement,
      ∃ target, b.kind? r.target = some target ∧ r.category.admits target = true) :
    ∀ r ∈ many field live .statement,
      ∃ target, b.kind? r.target = some target ∧ r.category.admits target = true := by
  intro r hr
  obtain ⟨i, hi, rfl⟩ := mem_mapIdx.1 hr
  obtain ⟨k, hk, heq⟩ := getElem_of_mem (hlive.subset (getElem_mem hi))
  have hold := h _ (mem_mapIdx.2 ⟨k, hk, rfl⟩)
  rw [heq] at hold
  exact hold

attribute [local simp] children_eq references childList

/-- **Dead code is replaced by what suits.** -/
theorem Becomes.suits (hb : Module.Resolved b.kind?) (hcopyable : b.Copyable) (hid : b.kind? id = some old)
    (h : Becomes b old new) : b.Suits id old new := by
  have hresolved := hb id old hid
  have howns (c : NodeId) (hc : c ∈ old.children) : Owns b.kind? id c := .of_eq hid hc
  cases h with
  | block hlive =>
    obtain ⟨hlive, -⟩ := liveStatements?_sublist hlive
    refine ⟨fun c hc => ?_, rfl, resolved_live hlive hresolved, fun c hc => .single (howns c ?_)⟩
    · cases c <;> exact hc
    · rw [children_eq] at hc ⊢
      exact hlive.subset hc
  | switchCase hlive =>
    obtain ⟨hlive, -⟩ := liveStatements?_sublist hlive
    rw [references, forall_mem_append] at hresolved
    refine ⟨fun c hc => ?_, rfl, ?_, fun c hc => .single (howns c ?_)⟩
    · cases c <;> exact hc
    · rw [references, forall_mem_append]
      exact ⟨hresolved.1, resolved_live hlive hresolved.2⟩
    · rw [children_eq] at hc ⊢
      exact (hlive.append_left _).subset hc
  | @taken test consequent alternate new htest h hnew =>
    refine .copy hb hcopyable (howns consequent (by simp)) h hnew fun c hc => ?_
    have hr : ⟨"consequent", consequent, .statement, true⟩ ∈ (ifStmt test consequent alternate).references := by
      simp [one]
    exact c.admits_statement hc rfl (hb.admits_child hid hr h)
  | @otherwise test consequent alternate new htest h hnew =>
    refine .copy hb hcopyable (howns alternate (by simp)) h hnew fun c hc => ?_
    have hr : ⟨"alternate", alternate, .statement, true⟩ ∈
        (ifStmt test consequent (some alternate)).references := by
      simp [opt]
    exact c.admits_statement hc rfl (hb.admits_child hid hr h)
  | skipped htest | never htest =>
    exact ⟨fun c hc => c.admits_statement hc rfl rfl, rfl, by simp, by simp⟩
  | @chosen test consequent alternate truthy new htest h hnew =>
    refine .copy hb hcopyable (howns _ ?_) h hnew fun c hc => ?_
    · cases truthy <;> simp
    have hr : ⟨if truthy then "consequent" else "alternate", if truthy then consequent else alternate, .expression,
        true⟩ ∈ (conditional test consequent alternate).references := by
      cases truthy <;> simp [one]
    exact c.admits_expression hc rfl (hb.admits_child hid hr h)
  | @decided operator left right kind isLeft new hleft hdecided h hnew =>
    refine .copy hb hcopyable (howns _ ?_) h hnew fun c hc => ?_
    · cases isLeft <;> simp
    have hr : ⟨if isLeft then "left" else "right", if isLeft then left else right, .expression, true⟩ ∈
        (logical operator left right).references := by
      cases isLeft <;> simp [one]
    exact c.admits_expression hc rfl (hb.admits_child hid hr h)

theorem Becomes.isLocal (h : Becomes b old new) : old.isLocal = true := by cases h <;> rfl

theorem run_eq_ok {changed : Bool} {b' : Builder} (h : run b = .ok (changed, b')) :
    ∃ edited, (b.setBody ((liveStatements? b b.body).getD b.body)).editAll plan = .ok (edited, b') := by
  obtain ⟨⟨edited, b''⟩, hrun, h⟩ := Except.bind_eq_ok.1 h
  cases h
  exact ⟨edited, hrun⟩

end DeadCode

end Retarget
