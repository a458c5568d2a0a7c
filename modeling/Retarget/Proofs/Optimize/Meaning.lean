import Retarget.Proofs.Optimize.Term
import Retarget.Proofs.Optimize.Weight

/-!
# Passes keep the values of expressions

Nodes are edited in place while others still refer to them, so that a node may have several owners in between. What
a node stands for does not depend on its owners, and one edit keeps the value of every node:

* `Unfolds.rewrite`: if an edit keeps the value of the edited node, it keeps the values of all nodes.
* `Fold.Becomes.keeps` and `DeadCode.Becomes.keeps`: the edits of the passes keep the value of the edited node.
* `passes_keep_values`: every expression of a valid module has the same value before and after a pass, for all values
  of the names in it.
-/

namespace Retarget

open Option Kind Term Builder Value DeadCode

variable {g : NodeId → Option Kind} {n x : NodeId} {t : Term} {old new kind : Kind} {value : Primitive}

/-! ## One edit -/

def Term.parts : Term → List Term
  | literal _ | name .. => []
  | unary _ t => [t]
  | binary _ t t' | logical _ t t' => [t, t']
  | conditional t t' t'' => [t, t', t'']

theorem Term.parts_induction {P : Term → Prop} (step : ∀ t, (∀ s ∈ t.parts, P s) → P t) (t : Term) : P t := by
  induction t with
  | literal | name => exact step _ (by simp [parts])
  | unary _ _ ih => exact step _ (by simp [parts, ih])
  | binary _ _ _ ih ih' | logical _ _ _ ih ih' => exact step _ (by simp [parts, ih, ih'])
  | conditional _ _ _ ih ih' ih'' => exact step _ (by simp [parts, ih, ih', ih''])

/-- The node `x` still stands for something with the value of `t`. -/
def Kept (g : NodeId → Option Kind) (x : NodeId) (t : Term) : Prop := ∃ t', Unfolds g x t' ∧ t'.Same t

/-- The kind `new` keeps the value of the node `n`, provided that the values of the nodes below are kept. -/
def Keeps (g : NodeId → Option Kind) (n : NodeId) (new : Kind) : Prop :=
  ∀ t, Unfolds g n t →
    (∀ s ∈ t.parts, ∀ c, Unfolds g c s → Kept (Function.update g n (some new)) c s) →
    Kept (Function.update g n (some new)) n t

attribute [local simp] Term.parts

/-- **An edit that keeps the value of its node keeps all values.** -/
theorem Unfolds.rewrite (hnew : Keeps g n new) (h : Unfolds g x t) : Kept (Function.update g n (some new)) x t := by
  induction t using parts_induction generalizing x with
  | step t ih =>
    by_cases hx : x = n
    · subst hx
      exact hnew t h fun s hs c => ih s hs
    have hg : Function.update g n (some new) x = g x := Function.update_of_ne hx ..
    cases h with
    | literal h hvalue => exact ⟨_, .literal (hg.trans h) hvalue, .refl _⟩
    | name h => exact ⟨_, .name (hg.trans h), .refl _⟩
    | unary h hvalue ht =>
      obtain ⟨s, hs, hsame⟩ := ih _ (by simp) ht
      exact ⟨_, .unary (hg.trans h) hvalue hs, fun Object runtime env => by simp only [eval, hsame Object runtime env]⟩
    | binary h ht ht' =>
      obtain ⟨s, hs, hsame⟩ := ih _ (by simp) ht
      obtain ⟨s', hs', hsame'⟩ := ih _ (by simp) ht'
      exact ⟨_, .binary (hg.trans h) hs hs', fun Object runtime env => by
        simp only [eval, hsame Object runtime env, hsame' Object runtime env]⟩
    | logical h ht ht' =>
      obtain ⟨s, hs, hsame⟩ := ih _ (by simp) ht
      obtain ⟨s', hs', hsame'⟩ := ih _ (by simp) ht'
      exact ⟨_, .logical (hg.trans h) hs hs', fun Object runtime env => by
        simp only [eval, hsame Object runtime env, hsame' Object runtime env]⟩
    | conditional h ht ht' ht'' =>
      obtain ⟨s, hs, hsame⟩ := ih _ (by simp) ht
      obtain ⟨s', hs', hsame'⟩ := ih _ (by simp) ht'
      obtain ⟨s'', hs'', hsame''⟩ := ih _ (by simp) ht''
      exact ⟨_, .conditional (hg.trans h) hs hs' hs'', fun Object runtime env => by
        simp only [eval, hsame Object runtime env, hsame' Object runtime env, hsame'' Object runtime env]⟩

theorem Keeps.literal (h : ∀ t, Unfolds g n t → ∃ value, new.primitive? = some value ∧ (literal value).Same t) :
    Keeps g n new := by
  intro t ht _
  obtain ⟨value, hvalue, hsame⟩ := h t ht
  exact ⟨.literal value, .literal (Function.update_self ..) hvalue, hsame⟩

theorem Keeps.copy {source : NodeId} (hsource : g source = some new)
    (h : ∀ t, Unfolds g n t → ∃ s ∈ t.parts, Unfolds g source s ∧ s.Same t) : Keeps g n new := by
  intro t ht ih
  obtain ⟨s, hs, hunfolds, hsame⟩ := h t ht
  obtain ⟨s', hs', hsame'⟩ := ih s hs source hunfolds
  refine ⟨s', hs'.congr ?_, hsame'.trans hsame⟩
  by_cases heq : source = n
  · rw [heq]
  · rw [Function.update_self, Function.update_of_ne heq, hsource]

theorem Keeps.of_not_unfolds (h : ∀ t, ¬Unfolds g n t) : Keeps g n new := fun t ht _ => absurd ht (h t)

/-! ## Folding -/

theorem Kind.primitive?_number {x : Float} :
    (number x).primitive? = some value ↔ x.isFinite = true ∧ value = .number x := by
  rw [primitive?]
  split
  next hfinite => simp [hfinite, eq_comm]
  next hfinite => simp [hfinite]

theorem Kind.truthiness?_of_primitive? (h : kind.primitive? = some value) : kind.truthiness? = some value.truthy := by
  cases kind <;> simp only [primitive?, some.injEq, reduceCtorEq] at h
  case number x =>
    obtain ⟨-, rfl⟩ := primitive?_number.1 h
    rfl
  all_goals
    subst h
    rfl

theorem Unfolds.of_truthiness? {truthy : Bool} (h : Unfolds g x t) (hx : g x = some kind)
    (htruthy : kind.truthiness? = some truthy) :
    ∃ value, t = .literal value ∧ kind.primitive? = some value ∧ value.truthy = truthy := by
  cases h with
  | literal h hvalue =>
    rw [hx] at h
    cases h
    rw [truthiness?_of_primitive? hvalue] at htruthy
    exact ⟨_, rfl, hvalue, some.inj htruthy⟩
  | name h | unary h | binary h | logical h | conditional h =>
    rw [hx] at h
    cases h
    exact absurd htruthy nofun

namespace Fold

variable {operator : BinaryOperator} {kind' : Kind} {a b : Primitive}

/-- The literal `new` has the value that the operator gives to two values. -/
def Gives (operator : BinaryOperator) (a b : Primitive) (new : Kind) : Prop :=
  ∃ value, new.primitive? = some value ∧
    ∀ (Object : Type) (runtime : Runtime Object),
      (primitive a).binary runtime operator (.primitive b) = .primitive value

theorem number?_eq_some {x : Float} (h : number? x = some new) : new.primitive? = some (.number x) := by
  rw [number?] at h
  split at h
  next hfinite =>
    cases h
    exact if_pos hfinite
  next => cases h

theorem numbers?_gives {x y : Float} (hx : x.isFinite = true) (hy : y.isFinite = true)
    (h : numbers? operator x y = some new) : Gives operator (.number x) (.number y) new := by
  cases operator with
  | add | sub | mul | div | rem => exact ⟨_, number?_eq_some h, fun _ _ => rfl⟩
  | exp =>
    refine ⟨_, number?_eq_some h, fun Object runtime => ?_⟩
    rw [← runtime.power_finite x y hx hy]
    rfl
  | eq | notEq | strictEq | strictNotEq | lt | ltEq | gt | gtEq =>
    cases h
    exact ⟨_, rfl, fun _ _ => rfl⟩
  | _ => exact absurd h nofun

theorem equality?_gives {α : Type} [DecidableEq α] {embed : α → Primitive} {x y : α}
    (hstrict : (embed x).strictEq (embed y) = decide (x = y))
    (hloose : ∀ (Object : Type) (runtime : Runtime Object), (embed x).looseEq runtime (embed y) = decide (x = y))
    (h : equality? operator x y = some new) : Gives operator (embed x) (embed y) new := by
  cases operator with
  | eq =>
    cases h
    exact ⟨_, rfl, fun Object runtime => congrArg Value.boolean (hloose Object runtime)⟩
  | strictEq =>
    cases h
    exact ⟨_, rfl, fun Object runtime => congrArg Value.boolean hstrict⟩
  | notEq =>
    cases h
    refine ⟨_, rfl, fun Object runtime => ?_⟩
    rw [decide_not, ← hloose Object runtime]
    rfl
  | strictNotEq =>
    cases h
    refine ⟨_, rfl, fun Object runtime => ?_⟩
    rw [decide_not, ← hstrict]
    rfl
  | _ => exact absurd h nofun

/-- **A binary operator is folded to its value.** -/
theorem binary?_gives (h : binary? operator kind kind' = some new) (ha : kind.primitive? = some a)
    (hb : kind'.primitive? = some b) : Gives operator a b new := by
  unfold binary? at h
  split at h
  next x y =>
    obtain ⟨hx, rfl⟩ := primitive?_number.1 ha
    obtain ⟨hy, rfl⟩ := primitive?_number.1 hb
    exact numbers?_gives hx hy h
  next x y =>
    cases ha
    cases hb
    split at h
    next hadd =>
      cases h
      subst hadd
      exact ⟨_, rfl, fun _ _ => rfl⟩
    next => exact equality?_gives rfl (fun _ _ => rfl) h
  next x y =>
    cases ha
    cases hb
    exact equality?_gives rfl (fun _ _ => rfl) h
  next => cases h

/-- **A unary operator is folded to its value.** -/
theorem unary?_gives {operator : UnaryOperator} (h : unary? operator kind = some new) (ha : kind.primitive? = some a) :
    ∃ value, new.primitive? = some value ∧
      ∀ (Object : Type) (runtime : Runtime Object), (primitive a).unary runtime operator = .primitive value := by
  unfold unary? at h
  split at h
  next x =>
    obtain ⟨-, rfl⟩ := primitive?_number.1 ha
    exact ⟨_, number?_eq_some h, fun _ _ => rfl⟩
  next x =>
    obtain ⟨-, rfl⟩ := primitive?_number.1 ha
    exact ⟨_, number?_eq_some h, fun _ _ => rfl⟩
  next =>
    obtain ⟨truthy, htruthy, rfl⟩ := map_eq_some_iff.1 h
    rw [truthiness?_of_primitive? ha] at htruthy
    cases htruthy
    exact ⟨_, rfl, fun _ _ => rfl⟩
  next x =>
    obtain ⟨-, rfl⟩ := primitive?_number.1 ha
    cases h
    exact ⟨_, rfl, fun _ _ => rfl⟩
  next =>
    cases ha
    cases h
    exact ⟨_, rfl, fun _ _ => rfl⟩
  next =>
    cases ha
    cases h
    exact ⟨_, rfl, fun _ _ => rfl⟩
  next => exact absurd h nofun

theorem truthiness?_of_binary? (h : binary? operator kind kind' = some new) :
    (∃ t, kind.truthiness? = some t) ∧ ∃ t, kind'.truthiness? = some t := by
  unfold binary? at h
  split at h
  case h_4 => exact absurd h nofun
  all_goals exact ⟨⟨_, rfl⟩, _, rfl⟩

theorem truthiness?_of_unary? {operator : UnaryOperator} (h : unary? operator kind = some new) :
    ∃ t, kind.truthiness? = some t := by
  unfold unary? at h
  split at h
  case h_3 =>
    obtain ⟨t, ht, -⟩ := map_eq_some_iff.1 h
    exact ⟨t, ht⟩
  case h_7 => exact absurd h nofun
  all_goals exact ⟨_, rfl⟩

theorem Becomes.keeps {b : Builder} (hn : b.kind? n = some old) (h : Becomes b old new) : Keeps b.kind? n new := by
  cases h with
  | binary hleft hright h =>
    refine .literal fun t ht => ?_
    obtain ⟨⟨_, hk⟩, _, hk'⟩ := truthiness?_of_binary? h
    obtain ⟨s, s', rfl, hs, hs'⟩ := ht.ofKind hn
    obtain ⟨a, rfl, ha, -⟩ := hs.of_truthiness? hleft hk
    obtain ⟨a', rfl, ha', -⟩ := hs'.of_truthiness? hright hk'
    obtain ⟨value, hvalue, heval⟩ := binary?_gives h ha ha'
    exact ⟨value, hvalue, fun Object runtime env => (heval Object runtime).symm⟩
  | unary hargument h =>
    refine .literal fun t ht => ?_
    obtain ⟨_, hk⟩ := truthiness?_of_unary? h
    obtain ⟨s, rfl, hs⟩ := ht.ofKind hn
    obtain ⟨a, rfl, ha, -⟩ := hs.of_truthiness? hargument hk
    obtain ⟨value, hvalue, heval⟩ := unary?_gives h ha
    exact ⟨value, hvalue, fun Object runtime env => (heval Object runtime).symm⟩

end Fold

/-! ## Elimination of dead code -/

variable {Object : Type} {b' : Builder} {changed : Bool} {m : Module}

namespace DeadCode

theorem isNullish_iff (h : kind.primitive? = some value) :
    value.isNullish = true ↔ kind = .null ∨ kind = .undefined := by
  cases kind with
  | number x =>
    obtain ⟨-, rfl⟩ := primitive?_number.1 h
    simp [Primitive.isNullish]
  | string | boolean | null | undefined =>
    cases h
    simp [Primitive.isNullish]
  | _ => exact absurd h nofun

theorem decides_eq {operator : LogicalOperator} {isLeft : Bool} (h : givesLeft? operator kind = some isLeft)
    (hvalue : kind.primitive? = some value) : (primitive value : Value Object).decides operator = isLeft := by
  obtain ⟨truthy, htruthy, rfl⟩ := map_eq_some_iff.1 h
  rw [truthiness?_of_primitive? hvalue] at htruthy
  cases htruthy
  cases operator with
  | and | or => rfl
  | nullish =>
    rw [decides, isNullish, Bool.eq_iff_iff, Bool.not_eq_true', ← Bool.not_eq_true,
      isNullish_iff hvalue, not_or, decide_eq_true_iff]

theorem Kind.isExpression_of_primitive? (h : kind.primitive? = some value) : kind.isExpression = true := by
  cases kind with
  | number | string | boolean | null | undefined => rfl
  | _ => exact absurd h nofun

theorem not_unfolds (hn : g n = some old) (hold : old.isExpression = false) : ¬Unfolds g n t := by
  intro h
  cases h with
  | literal h hvalue =>
    rw [hn] at h
    cases h
    rw [Kind.isExpression_of_primitive? hvalue] at hold
    exact nomatch hold
  | name h | unary h | binary h | logical h | conditional h =>
    rw [hn] at h
    cases h
    exact nomatch hold

theorem Becomes.keeps {b : Builder} (hn : b.kind? n = some old) (h : Becomes b old new) : Keeps b.kind? n new := by
  cases h with
  | chosen htest h =>
    obtain ⟨kind, hkind, htruthy⟩ := bind_eq_some_iff.1 htest
    refine .copy h fun t ht => ?_
    obtain ⟨s, s', s'', rfl, hs, hs', hs''⟩ := ht.ofKind hn
    obtain ⟨value, rfl, -, rfl⟩ := hs.of_truthiness? hkind htruthy
    cases hvalue : value.truthy with
    | true =>
      refine ⟨s', by simp, hs', fun Object runtime env => ?_⟩
      simp [eval, truthy, hvalue]
    | false =>
      refine ⟨s'', by simp, hs'', fun Object runtime env => ?_⟩
      simp [eval, truthy, hvalue]
  | @decided operator _ _ _ isLeft _ hleft hdecided h =>
    obtain ⟨truthy, htruthy, -⟩ := map_eq_some_iff.1 hdecided
    refine .copy h fun t ht => ?_
    obtain ⟨s, s', rfl, hs, hs'⟩ := ht.ofKind hn
    obtain ⟨value, rfl, hvalue, -⟩ := hs.of_truthiness? hleft htruthy
    have hdecides (Object : Type) : (primitive value : Value Object).decides operator = isLeft :=
      decides_eq hdecided hvalue
    cases isLeft with
    | true =>
      refine ⟨.literal value, by simp, hs, fun Object runtime env => ?_⟩
      simp [eval, hdecides]
    | false =>
      refine ⟨s', by simp, hs', fun Object runtime env => ?_⟩
      simp [eval, hdecides]
  -- The others are statements, which have no value.
  | _ => exact .of_not_unfolds fun t => not_unfolds hn rfl

end DeadCode

/-! ## The passes -/

theorem Builder.editAll_kept {plan : Builder → Kind → Option Edit} {b : Builder}
    (hkeeps : ∀ (b : Builder) n old new, b.Plans plan n old new → Keeps b.kind? n new)
    (h : b.editAll plan = .ok (changed, b')) (hx : Unfolds b.kind? x t) : Kept b'.kind? x t := by
  refine editList_induction (P := fun b' => Kept b'.kind? x t) ?_ ⟨t, hx, .refl t⟩ h
  rintro b n old new b' ⟨t', hx, hsame⟩ hplans - hb'
  obtain ⟨t'', hx, hsame'⟩ := hx.rewrite (hkeeps b n old new hplans)
  exact ⟨t'', hb'.kind?_eq ▸ hx, hsame'.trans hsame⟩

theorem Fold.run_kept {b : Builder} (h : run b = .ok (changed, b')) (hx : Unfolds b.kind? x t) : Kept b'.kind? x t :=
  editAll_kept (fun _ _ _ _ hplans => (becomes hplans).keeps hplans.1) h hx

theorem DeadCode.run_kept {b : Builder} (h : run b = .ok (changed, b')) (hx : Unfolds b.kind? x t) :
    Kept b'.kind? x t := by
  obtain ⟨edited, hrun⟩ := run_eq_ok h
  exact editAll_kept (fun _ _ _ _ hplans => (becomes hplans).keeps hplans.1) hrun hx

/-- The node `x` of a program has the value `v`. -/
def HasValue (g : NodeId → Option Kind) {Object : Type} (runtime : Runtime Object) (env : Environment Object)
    (x : NodeId) (v : Value Object) : Prop := ∃ t, Unfolds g x t ∧ t.eval runtime env = v

theorem Kept.hasValue_iff {runtime : Runtime Object} {env : Environment Object} {v : Value Object} (h : Kept g x t) :
    HasValue g runtime env x v ↔ v = t.eval runtime env := by
  obtain ⟨t', hx, hsame⟩ := h
  rw [← hsame Object runtime env]
  constructor
  · rintro ⟨s, hs, rfl⟩
    rw [hs.eq hx]
  · rintro rfl
    exact ⟨t', hx, rfl⟩

theorem Builder.editable_ofModule (hm : m.Sound)
    (hscalars : ∀ id kind, m.kind? id = some kind → scalarError? kind = none) : (ofModule m).Editable :=
  ⟨hm.resolved, hm.forest.acyclic, hscalars⟩

/-- **Passes keep the values of expressions.** A node of a valid module that stands for a term has one value, whatever
the runtime and the values of the names are, and it has that value after constants are folded and after dead code
is eliminated. Folding always succeeds, and so does the elimination of dead code if the values in the nodes are
fine. -/
theorem passes_keep_values (hm : m.isValid = true) (hx : Unfolds (ofModule m).kind? x t)
    {Object : Type} (runtime : Runtime Object) (env : Environment Object) :
    ∃ v, (∀ w, HasValue (ofModule m).kind? runtime env x w ↔ w = v) ∧
      (∃ changed b, Fold.run (.ofModule m) = .ok (changed, b) ∧ ∀ w, HasValue b.kind? runtime env x w ↔ w = v) ∧
      (∀ changed b, run (.ofModule m) = .ok (changed, b) →
        ∀ w, HasValue b.kind? runtime env x w ↔ w = v) ∧
      ((∀ id kind, m.kind? id = some kind → scalarError? kind = none) →
        ∃ r, run (.ofModule m) = .ok r) := by
  have hsound : m.Sound := (Module.isValid_iff.1 hm).1
  obtain ⟨⟨changed, b⟩, hfold⟩ := Fold.run_ok (.ofModule m)
  refine ⟨t.eval runtime env, fun w => ?_, ⟨changed, b, hfold, fun w => ?_⟩, fun changed b hrun w => ?_, ?_⟩
  · exact Kept.hasValue_iff ⟨t, hx, .refl t⟩
  · exact (Fold.run_kept hfold hx).hasValue_iff
  · exact (run_kept hrun hx).hasValue_iff
  · exact fun hscalars => run_ok (editable_ofModule hsound hscalars)

/-- The expression `2 * 3 > 5 && x`. -/
def guarded : Module :=
  .numbered [.number 2.0, .number 3.0, .binary .mul 1 2, .number 5.0, .binary .gt 3 4, .identifier "x" none,
    .logical .and 5 6, .exprStmt 7] [8]

def Runtime.bare : Runtime Empty where
  same := fun a _ => a.elim
  typeOf := Empty.elim
  primitive := fun _ => Empty.elim
  numberOf := fun _ => 0.0 / 0.0
  textOf := Float.toString
  power := (· ^ ·)
  power_finite := fun _ _ _ _ => rfl
  bitNot := id
  binary := fun _ a _ => a

theorem guarded_keeps_value :
    ∃ changed b, Fold.run (.ofModule guarded) = .ok (changed, b) ∧
      HasValue b.kind? Runtime.bare (fun _ _ => .primitive .null) 7 (.primitive .null) := by
  have hunfolds : Unfolds (ofModule guarded).kind? 7 (.logical .and
      (.binary .gt (.binary .mul (.literal (.number 2.0)) (.literal (.number 3.0))) (.literal (.number 5.0)))
      (.name "x" none)) := by
    have h (x : NodeId) (value : Float) (hx : (ofModule guarded).kind? x = some (.number value))
        (hvalue : value.isFinite = true) : Unfolds (ofModule guarded).kind? x (.literal (.number value)) :=
      .literal hx (primitive?_number.2 ⟨hvalue, rfl⟩)
    have hproduct : Unfolds (ofModule guarded).kind? 3 (.binary .mul _ _) :=
      .binary rfl (h 1 2.0 rfl rfl) (h 2 3.0 rfl rfl)
    exact .logical rfl (.binary rfl hproduct (h 4 5.0 rfl rfl)) (.name rfl)
  obtain ⟨v, hbefore, ⟨changed, b, hrun, hafter⟩, -⟩ :=
    passes_keep_values (by decide) hunfolds Runtime.bare fun _ _ => .primitive .null
  exact ⟨changed, b, hrun, (hafter _).2 ((hbefore _).1 ⟨_, hunfolds, rfl⟩)⟩

end Retarget
