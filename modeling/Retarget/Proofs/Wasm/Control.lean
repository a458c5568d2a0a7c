import Retarget.Proofs.Wasm.Simulation
import Retarget.Proofs.Wasm.Statement
import Retarget.Wasm.Generate

/-!
# The course of generated statements

The code of a statement ends when the statement does. How the statement ends decides how the code is left: it runs out,
branches to the block that the jump is for, or returns.

* `Makes b scope g X R`: the generator gives code that follows the course `R`.
* `exits labels`: the outcomes of code inside blocks with these labels.
* `functionBody_simulates`: the body of a function ends when its statements do, and then with the same value and with
  the same contents of the slots.
-/

namespace Retarget.Wasm

open Numeric Surrounded List Gen Completion

/-- The generator gives code that follows the course, and takes no scratch local back. -/
def Makes {ε α : Type} (b : Binary) (scope : NumericScope) (g : ReaderT NumericScope (StateT Nat (Except ε)) Code)
    (X : Shows α) (R : Course α) : Prop :=
  ∀ m, ∃ code n, g scope m = .ok (code, n) ∧ m ≤ n ∧ Follows b scope n [] code X R

def Values (b : Binary) (scope : NumericScope) (r : NodeId → Gen Code) (eval : Evaluation) (e : NodeId) : Prop :=
  Makes b scope (r e) (.next fun x => [.f64 x]) (.of eval e)

def Tests (b : Binary) (scope : NumericScope) (r : NodeId → Gen Code) (eval : Evaluation) (e : NodeId) : Prop :=
  Makes b scope (condition r e) (.next fun x => [.truth (truthy x)]) (.of eval e)

/-- The code of each expression of a statement, and of each condition, behaves like its evaluation. -/
structure Provides (b : Binary) (scope : NumericScope) (r : NodeId → Gen Code) (eval : Evaluation) (s : Statement) :
    Prop where
  value : ∀ e ∈ s.values, Values b scope r eval e
  test : ∀ e ∈ s.tests, Tests b scope r eval e

variable {b : Binary} {e : NodeId} {m : Nat} {ids : List NodeId} {t : Formula} {test : Option NodeId}

theorem Provides.part {scope : NumericScope} {r : NodeId → Gen Code} {eval : Evaluation} {s t : Statement}
    (h : Provides b scope r eval s) (hvalues : t.values ⊆ s.values) (htests : t.tests ⊆ s.tests) :
    Provides b scope r eval t :=
  ⟨fun e he => h.value e (hvalues he), fun e he => h.test e (htests he)⟩

/-- How code in blocks with these labels ends if its statement ends like this. -/
def exitOf (labels : Labels) : Completion → Outcome × List Value
  | .normal => (.next, [])
  | .broke => (.branch (labels.idxOf .breakTo), [])
  | .continued => (.branch (labels.idxOf .continueTo), [])
  | .returned x => (.ret, [.f64 x])

def exits (labels : Labels) : Shows Completion := fun c o outs => (o, outs) = exitOf labels c

/-- The generator gives code for a statement in blocks with these labels. -/
def Renders {ε : Type} (b : Binary) (scope : NumericScope) (eval : Evaluation) (labels : Labels)
    (g : ReaderT NumericScope (StateT Nat (Except ε)) Code) (s : Statement) : Prop :=
  Makes b scope g (exits labels) (s.Ends eval)

/-- The outcomes of a test that leaves the loop when it fails. -/
def testExits : Shows Bool := fun again o outs => o = (if again then .next else .branch 1) ∧ outs = []

/-- The outcomes of the body of a loop, if it is a block of its own. -/
def bodyExits : Shows Completion
  | .normal, o, outs | .continued, o, outs => o = .next ∧ outs = []
  | .broke, o, outs => o = .branch 1 ∧ outs = []
  | .returned x, o, outs => o = .ret ∧ outs = [.f64 x]

/-- The outcomes of code in the block around a loop, where the loop is the block `depth`. -/
def endExits (depth : Nat) : Shows Completion
  | .normal, o, outs => (o = .branch depth ∨ o = .next) ∧ outs = []
  | .returned x, o, outs => o = .ret ∧ outs = [.f64 x]
  | _, _, _ => False

/-- The outcomes of a round of a loop: it branches to the loop again, or it leaves the block around. -/
def roundExits : Shows (Option Completion)
  | none, o, outs => o = .branch 0 ∧ outs = []
  | some c, o, outs => endExits 1 c o outs

section Rules

variable {b : Binary} {scope : NumericScope} {n : Nat} {labels : Labels} {eval : Evaluation} {code body rest : Code}
  {R : Course Completion} {S : Course (Option Completion)}

/-- **The blocks around a loop.** -/
theorem loop_follows (h : Follows b scope n [] code roundExits S) :
    Follows b scope n [] [.block [.loop code]] (exits labels) (.Iterates S) := by
  have hloop : Follows b scope n [] [.loop code] (endExits 0) (.Iterates S) := by
    refine h.loop (fun o stack hX => hX.1) fun c o stack hX => ?_
    cases c with
    | normal =>
      obtain ⟨rfl | rfl, rfl⟩ := hX
      · exact ⟨by decide, .inl rfl, rfl⟩
      · exact ⟨by decide, .inr rfl, rfl⟩
    | returned x =>
      obtain ⟨rfl, rfl⟩ := hX
      exact ⟨by decide, rfl, rfl⟩
    | broke | continued => cases hX
  refine hloop.block fun c o stack hX => ?_
  cases c with
  | normal => obtain ⟨rfl | rfl, rfl⟩ := hX <;> rfl
  | returned x =>
    obtain ⟨rfl, rfl⟩ := hX
    rfl
  | broke | continued => cases hX

theorem tested_follows (h : Follows b scope n [] code testExits (check eval test))
    (hrest : Follows b scope n [] rest roundExits S) :
    Follows b scope n [] (code ++ rest) roundExits ((check eval test).andThen stops? fun _ => S) := by
  refine h.andThen (fun _ => []) (fun _ _ => hrest) (fun again o stack hleaves hX => ?_)
    fun again o stack c hleaves hX => ?_
  · cases again with
    | false => cases hleaves
    | true => exact hX
  · cases again with
    | true => cases hleaves
    | false =>
      cases hleaves
      obtain ⟨rfl, rfl⟩ := hX
      exact ⟨by decide, .inl rfl, rfl⟩

theorem test_follows (h : Follows b scope n [] code (.next fun x => [.truth (truthy x)]) (.of eval e)) :
    Follows b scope n [] (code ++ [.isZero, .brIf 1]) testExits (check eval (some e)) := by
  refine h.bind fun x => .of_finish ⟨rfl, rfl⟩ fun below l g => ?_
  have hzero : Instr.isZero.step ⟨.truth (truthy x) :: below, l, g⟩ = some ⟨.truth (!truthy x) :: below, l, g⟩ := by
    cases truthy x <;> rfl
  refine .step hzero (runs_singleton_iff.2 (instrRuns_brIf_iff.2 ⟨?_, rfl⟩))
  cases truthy x <;> rfl

/-- A round whose body is a block of its own, so that `continue` leaves the block. -/
theorem round_follows (h : Follows b scope n [] body (exits (.continueTo :: .other :: .breakTo :: labels)) R)
    (hrest : Follows b scope n [] rest roundExits S) :
    Follows b scope n [] (.block body :: rest) roundExits (R.andThen leavesRound? fun _ => S) := by
  have hblock : Follows b scope n [] [.block body] bodyExits R := by
    refine h.block fun c o stack hX => ?_
    cases c <;> cases hX <;> exact ⟨rfl, rfl⟩
  refine hblock.andThen (fun _ => []) (fun _ _ => hrest) (fun c o stack hleaves hX => ?_)
    fun c o stack end? hleaves hX => ?_
  · cases c with
    | normal | continued => exact hX
    | broke | returned => cases hleaves
  · cases c with
    | normal | continued => cases hleaves
    | broke | returned =>
      cases hleaves
      obtain ⟨rfl, rfl⟩ := hX
      first | exact ⟨by decide, .inl rfl, rfl⟩ | exact ⟨by decide, rfl, rfl⟩

theorem branch_follows : Follows b scope n [] [.br 0] roundExits (perform eval none) :=
  .of_finish ⟨rfl, rfl⟩ fun _ _ _ => runs_singleton_iff.2 (instrRuns_br_iff.2 ⟨rfl, rfl⟩)

/-- A round whose body stands in the loop itself, so that `continue` branches to the loop. -/
theorem repeat_follows (h : Follows b scope n [] body (exits (.continueTo :: .breakTo :: labels)) R) :
    Follows b scope n [] (body ++ [.br 0]) roundExits
      (R.andThen leavesRound? fun _ => perform eval none) := by
  -- Only what ends normally gets to the branch, but `continue` ends the round in the same way.
  have hleaves : R.andThen leavesRound? (fun _ => perform eval none) =
      R.andThen (fun c => c.leavesRow?.map (·.leavesRound?.getD none)) fun _ => perform eval none := by
    funext σ end? σ'
    refine propext (exists_congr fun c => exists_congr fun σ₁ => and_congr_right fun _ => ?_)
    cases c <;> exact Iff.rfl
  rw [hleaves]
  refine h.andThen (fun _ => []) (fun _ _ => branch_follows) (fun c o stack hleaves hX => ?_)
    fun c o stack end? hleaves hX => ?_
  · cases c with
    | normal =>
      cases hX
      exact ⟨rfl, rfl⟩
    | broke | continued | returned => cases hleaves
  · cases c with
    | normal => cases hleaves
    | broke =>
      cases hleaves
      cases hX
      exact ⟨by simp, .inl rfl, rfl⟩
    | continued =>
      cases hleaves
      cases hX
      exact ⟨by simp, rfl, rfl⟩
    | returned x =>
      cases hleaves
      cases hX
      exact ⟨by decide, rfl, rfl⟩

theorem row_follows {R' : Course Completion} (h : Follows b scope n [] code (exits labels) R)
    (h' : Follows b scope n [] rest (exits labels) R') :
    Follows b scope n [] (code ++ rest) (exits labels) (R.andThen leavesRow? fun _ => R') := by
  refine h.andThen (fun _ => []) (fun _ _ => h') (fun c o stack hleaves hX => ?_) fun c o stack c' hleaves hX => ?_
  · cases c with
    | normal =>
      cases hX
      exact ⟨rfl, rfl⟩
    | broke | continued | returned => cases hleaves
  · cases c with
    | normal => cases hleaves
    | broke | continued | returned =>
      cases hleaves
      cases hX
      exact ⟨by simp, rfl⟩

theorem retest_follows (h : Follows b scope n [] code (.next fun x => [.truth (truthy x)]) (.of eval e)) :
    Follows b scope n [] (code ++ [.brIf 0]) roundExits
      ((check eval (some e)).andThen stops? fun _ => .finish none) := by
  have hcourse : (check eval (some e)).andThen stops? (fun _ => .finish none) = (Course.of eval e).andThen goesOn
      fun x => .finish (if truthy x then none else some .normal) := by
    funext σ end? σ'
    refine propext ⟨?_, ?_⟩
    · rintro ⟨again, σ₂, ⟨x, σ₁, hx, rfl, rfl⟩, h⟩
      refine ⟨x, σ₂, hx, ?_⟩
      cases htruthy : truthy x <;> simpa [htruthy, stops?, goesOn, Course.finish] using h
    · rintro ⟨x, σ₁, hx, h⟩
      refine ⟨truthy x, σ₁, ⟨x, σ₁, hx, rfl, rfl⟩, ?_⟩
      cases htruthy : truthy x <;> simpa [htruthy, stops?, goesOn, Course.finish] using h
  rw [hcourse]
  refine h.bind fun x => .of_finish ?_ fun below l g => runs_singleton_iff.2 (instrRuns_brIf_iff.2 ⟨rfl, rfl⟩)
  cases truthy x with
  | true => exact ⟨rfl, rfl⟩
  | false => exact ⟨.inr rfl, rfl⟩

end Rules

namespace StmtGen

variable {id : NodeId} {init : Option NodeId}

section Statements

variable {b : Binary} {scope : NumericScope} {labels : Labels} {eval : Evaluation} {r : Generators} {s t : Statement}
  {R S : Course Completion}

theorem lift_produces {α : Type} {g : Gen α} {post : α → Nat → Prop} (h : Produces g scope m post) :
    Produces (lift labels g) scope m post := by
  obtain ⟨a, n, ha, hpost⟩ := h
  exact ⟨a, n, lift_ok.2 ha, hpost⟩

theorem effect_makes (h : Values b scope r.expr eval e) :
    Renders b scope eval labels (effect r labels e) (.effect e) := by
  refine fun m => Produces.bind (lift_produces (h m)) fun code n ⟨hle, hfollows⟩ => .pure ⟨hle, ?_⟩
  exact hfollows.bind fun x => .of_finish rfl fun below l g => .step rfl .nil

variable {p : Place} {node : Node} {ε : Type} {f : NodeId → ReaderT NumericScope (StateT Nat (Except ε)) Code}
  {bodyId : NodeId} {update : Option NodeId}

theorem assign_turns {σ : Store} {x : Float} (hσ : σ.Fits scope) (hp : scope.Has p.slot) :
    Turns m m (storeCode p ++ [.drop]) [.f64 x] σ [] (σ.write p x) :=
  (store_turns hσ hp).append .drop

theorem declarator_makes {name : String} (hnode : scope.module.node? id = some node)
    (hkind : node.kind = .declarator name init) (hp : scope.slot? (some node.id) = some p.slot)
    (h : ∀ e ∈ init.toList, Values b scope r.expr eval e) :
    Renders b scope eval labels (declarator r id) (.declare p init) := by
  intro m
  have hfind : Gen.node id scope m = .ok (node, m) := by
    refine bind_ok.2 ⟨scope, m, read_ok.2 ⟨rfl, rfl⟩, Surrounded.lift_ok.2 ⟨?_, rfl⟩⟩
    rw [Module.find, hnode]
  obtain ⟨nodeId, kind, span, type, synthetic⟩ := node
  cases hkind
  have hhas := NumericScope.has_of_slot? hp
  cases init with
  | none =>
    refine Produces.known hfind (.known rfl (.known (slot_eq hp) (.known store_eq (.pure ⟨Nat.le_refl m, ?_⟩))))
    refine .of_turns m fun σ hσ => ?_
    refine ⟨.normal, σ.write p (0.0 / 0.0), [], fun _ _ => Iff.rfl, rfl, hσ.write p _, ?_⟩
    exact (Turns.const _).append (assign_turns hσ hhas)
  | some e =>
    refine Produces.known hfind (Produces.bind (h e (.head _) m) fun code n hcode => ?_)
    refine .known (slot_eq hp) (.known store_eq (.pure ⟨hcode.1, ?_⟩))
    rw [append_assoc]
    refine hcode.2.bind fun x => .of_turns n fun σ hσ => ?_
    exact ⟨.normal, σ.write p x, [], fun _ _ => Iff.rfl, rfl, hσ.write p x, assign_turns hσ hhas⟩

theorem nil_makes : Renders b scope eval labels (do return (← [].mapM f).flatten) Statement.skip :=
  fun m => ⟨[], m, rfl, Nat.le_refl m, .of_finish rfl fun _ _ _ => .nil⟩

theorem cons_makes (h : Renders b scope eval labels (f id) s)
    (h' : Renders b scope eval labels (do return (← ids.mapM f).flatten) t) :
    Renders b scope eval labels (do return (← (id :: ids).mapM f).flatten) (.seq s t) := by
  intro m
  obtain ⟨code, n, hcode, hle, hfollows⟩ := h m
  obtain ⟨rest, k, hrest, hle', hfollows'⟩ := h' n
  obtain ⟨codes, u, hcodes, hrest⟩ := bind_ok.1 hrest
  obtain ⟨rfl, rfl⟩ := pure_ok.1 hrest
  refine ⟨code ++ codes.flatten, u, bind_ok.2 ⟨code :: codes, u, ?_, rfl⟩, Nat.le_trans hle hle', ?_⟩
  · rw [mapM_cons]
    exact bind_ok.2 ⟨code, n, hcode, bind_ok.2 ⟨codes, u, hcodes, rfl⟩⟩
  · exact row_follows (hfollows.weaken hle') hfollows'

theorem jump_makes {wanted : Label} {reason : String} {c : Completion} (hmem : wanted ∈ labels)
    (hexit : exitOf labels c = (.branch (labels.idxOf wanted), [])) :
    Makes b scope (jump labels node wanted reason) (exits labels) (.finish c) := by
  intro m
  have hdepth : labels.idxOf? wanted = some (labels.idxOf wanted) := by
    rw [idxOf_eq_getD_idxOf?]
    cases hfound : labels.idxOf? wanted with
    | none => exact absurd hmem (List.idxOf?_eq_none_iff.1 hfound)
    | some depth => rfl
  refine ⟨[.br (labels.idxOf wanted)], m, ?_, Nat.le_refl m, .of_finish hexit.symm fun below l g => ?_⟩
  · rw [jump, hdepth]
    rfl
  · exact runs_singleton_iff.2 (instrRuns_br_iff.2 ⟨rfl, rfl⟩)

theorem ifStatement_makes {test consequent : NodeId} {alternate : Option NodeId}
    (htest : Tests b scope r.expr eval test)
    (hs : Renders b scope eval (.other :: labels) (body r (.other :: labels) consequent) s)
    (ht : ∀ id ∈ alternate, Renders b scope eval (.other :: labels) (body r (.other :: labels) id) t)
    (hskip : alternate = none → t = .skip) :
    Renders b scope eval labels (ifStatement r labels test consequent alternate) (.choose test s t) := by
  intro m
  have hblock {n : Nat} {code : Code} {R : Course Completion}
      (h : Follows b scope n [] code (exits (.other :: labels)) R) :
      Follows b scope n [] [.block code] (exits labels) R := by
    refine h.block fun c o stack hX => ?_
    cases c <;> cases hX <;> simp [exits, exitOf, Outcome.pass, idxOf_cons_ne]
  refine Produces.bind (lift_produces (htest m)) fun test' n htest => ?_
  refine Produces.bind (hs n) fun first k hs => ?_
  obtain ⟨hle, htest⟩ := htest
  obtain ⟨hle', hs⟩ := hs
  cases alternate with
  | none =>
    cases hskip rfl
    refine .pure ⟨Nat.le_trans hle hle', (htest.weaken hle').bind fun x => ?_⟩
    refine .of_block (hblock ?_) fun outer l g o s' => instrRuns_ifThen_iff
    cases truthy x with
    | true => exact hs
    | false => exact .of_finish rfl fun _ _ _ => .nil
  | some id =>
    refine Produces.bind (ht id rfl k) fun second j ht => ?_
    obtain ⟨hle'', ht⟩ := ht
    refine .pure ⟨by omega, ?_⟩
    refine (htest.weaken (by omega)).bind fun x => ?_
    refine .of_block (hblock ?_) fun outer l g o s' => instrRuns_ifElse_iff
    cases truthy x with
    | true => exact hs.weaken hle''
    | false => exact ht

theorem whileStatement_makes {test : NodeId} (htest : Tests b scope r.expr eval test)
    (hs : Renders b scope eval (.continueTo :: .breakTo :: labels)
      (body r (.continueTo :: .breakTo :: labels) bodyId) s) :
    Renders b scope eval labels (whileStatement r labels test bodyId) (.loop (some test) none s) := by
  refine fun m => Produces.bind (lift_produces (htest m)) fun test' n ⟨hle, htest⟩ => ?_
  refine Produces.bind (hs n) fun code k ⟨hle', hs⟩ => .pure ⟨Nat.le_trans hle hle', ?_⟩
  rw [append_assoc]
  exact loop_follows (tested_follows (test_follows (htest.weaken hle')) (repeat_follows hs))

theorem doWhileStatement_makes {test : NodeId} (hs : Renders b scope eval (.continueTo :: .other :: .breakTo :: labels)
      (body r (.continueTo :: .other :: .breakTo :: labels) bodyId) s) (htest : Tests b scope r.expr eval test) :
    Renders b scope eval labels (doWhileStatement r labels bodyId test) (.doWhile s test) := by
  refine fun m => Produces.bind (hs m) fun code n ⟨hle, hs⟩ => ?_
  refine Produces.bind (lift_produces (htest n)) fun test' k ⟨hle', htest⟩ => .pure ⟨Nat.le_trans hle hle', ?_⟩
  exact loop_follows (round_follows (hs.weaken hle') (retest_follows htest))

theorem forTest_makes (h : ∀ e ∈ test.toList, Tests b scope r.expr eval e) :
    Makes b scope (forTest r labels test) testExits (check eval test) := by
  intro m
  cases test with
  | none => exact ⟨[], m, rfl, Nat.le_refl m, .of_finish ⟨rfl, rfl⟩ fun _ _ _ => .nil⟩
  | some e =>
    exact Produces.bind (lift_produces (h e (.head _) m)) fun _ _ ⟨hle, hfollows⟩ => .pure ⟨hle, test_follows hfollows⟩

theorem forUpdate_makes (h : ∀ e ∈ update.toList, Values b scope r.expr eval e) :
    Makes b scope (do return (← forUpdate r labels update) ++ [.br 0]) roundExits (perform eval update) := by
  intro m
  cases update with
  | none => exact ⟨[.br 0], m, rfl, Nat.le_refl m, branch_follows⟩
  | some e =>
    obtain ⟨code, n, hcode, hle, hfollows⟩ := h e (.head _) m
    refine Produces.known (bind_ok.2 ⟨code, n, lift_ok.2 hcode, rfl⟩) (.pure ⟨hle, ?_⟩)
    rw [append_assoc]
    refine hfollows.bind fun x => .of_finish ⟨rfl, rfl⟩ fun below l g => ?_
    exact .step rfl (runs_singleton_iff.2 (instrRuns_br_iff.2 ⟨rfl, rfl⟩))

theorem forStatement_makes (hinit : Renders b scope eval labels (forInit r labels init) s)
    (htest : Makes b scope (forTest r (.other :: .breakTo :: labels) test) testExits (check eval test))
    (hbody : Renders b scope eval (.continueTo :: .other :: .breakTo :: labels)
      (body r (.continueTo :: .other :: .breakTo :: labels) bodyId) t)
    (hupdate : Makes b scope (do return (← forUpdate r (.other :: .breakTo :: labels) update) ++ [.br 0]) roundExits
      (perform eval update)) :
    Renders b scope eval labels (forStatement r labels init test update bodyId) (.seq s (.loop test update t)) := by
  refine fun m => Produces.bind (hinit m) fun first n₁ ⟨hle₁, hinit⟩ => ?_
  refine Produces.bind (htest n₁) fun test' n₂ ⟨hle₂, htest⟩ => Produces.bind (hbody n₂) fun code n₃ ⟨hle₃, hbody⟩ => ?_
  obtain ⟨tail, n₄, htail, hle₄, hupdate⟩ := hupdate n₃
  obtain ⟨update', n₅, hupdate', htail⟩ := bind_ok.1 htail
  obtain ⟨rfl, rfl⟩ := pure_ok.1 htail
  refine .known hupdate' (.pure ⟨by omega, row_follows (hinit.weaken (by omega)) (loop_follows ?_)⟩)
  rw [append_assoc]
  exact tested_follows (htest.weaken (by omega)) (round_follows (hbody.weaken hle₄) hupdate)

theorem returnStatement_makes {value : Option NodeId} (h : ∀ e ∈ value.toList, Values b scope r.expr eval e) :
    Renders b scope eval labels (returnStatement true r labels node value) (.ret value) := by
  intro m
  cases value with
  | none =>
    refine ⟨[nan, .ret], m, rfl, Nat.le_refl m, .of_finish rfl fun below l g => ?_⟩
    exact .step rfl (runs_singleton_iff.2 (instrRuns_ret_iff.2 ⟨rfl, rfl⟩))
  | some e =>
    refine Produces.bind (lift_produces (h e (.head _) m)) fun code n ⟨hle, hfollows⟩ => .pure ⟨hle, ?_⟩
    refine hfollows.bind fun x => ?_
    exact .of_finish rfl fun below l g => runs_singleton_iff.2 (instrRuns_ret_iff.2 ⟨rfl, rfl⟩)

end Statements

/-! ## Statements of a module -/

section Module

variable {α : Type} {b : Binary} {scope : NumericScope} {returns inLoop : Bool} {labels : Labels} {eval : Evaluation}
  {r : Generators} {expr : NodeId → Gen Code} {s t : Statement} {X : Shows α} {R : Course α} {kind : Kind} {depth : Nat}

theorem makes_of_node {f : Node → StmtGen Code} (h : scope.module.kind? id = some kind)
    (hf : ∀ nodeId span type synthetic, Makes b scope (f ⟨nodeId, kind, span, type, synthetic⟩) X R) :
    Makes b scope (lift labels (node id) >>= f) X R := by
  obtain ⟨nodeId, span, type, synthetic, hnode⟩ := node_eq h
  exact fun m => Produces.known (lift_ok.2 (hnode m)) (hf nodeId span type synthetic m)

theorem row_makes (hr : ∀ c ∈ ids, ∀ s, Builds scope returns inLoop (.stmt c) s → Provides b scope expr eval s →
      Renders b scope eval labels (r.stmt labels c) s) (h : Builds scope returns inLoop (.row ids) s)
    (hs : Provides b scope expr eval s) : Renders b scope eval labels (statements r labels ids) s := by
  induction ids generalizing s with
  | nil =>
    cases h
    exact nil_makes
  | cons id ids ih =>
    obtain ⟨hid, hids⟩ := forall_mem_cons.1 hr
    cases h with
    | cons hfirst hrest =>
      refine cons_makes (hid _ hfirst ?_) (ih hids hrest ?_)
      · exact hs.part (subset_append_left ..) (subset_append_left ..)
      · exact hs.part (subset_append_right ..) (subset_append_right ..)

theorem declarators_makes (h : Builds scope returns inLoop (.declarators ids) s) (hs : Provides b scope r.expr eval s) :
    Renders b scope eval labels (do return (← ids.mapM (declarator r)).flatten) s := by
  induction ids generalizing s with
  | nil =>
    cases h
    exact nil_makes
  | cons id ids ih =>
    cases h with
    | declare hnode hkind hp hrest =>
      refine cons_makes (declarator_makes hnode hkind hp fun e he => hs.value e (mem_append_left _ he)) ?_
      exact ih hrest (hs.part (subset_append_right ..) (subset_append_right ..))

theorem init_makes
    (hr : ∀ c ∈ init.toList.filter (declares scope.module), ∀ s, Builds scope returns inLoop (.stmt c) s →
      Provides b scope r.expr eval s → Renders b scope eval labels (r.stmt labels c) s)
    (h : Builds scope returns inLoop (.init init) s) (hs : Provides b scope r.expr eval s) :
    Renders b scope eval labels (forInit r labels init) s := by
  cases h with
  | initNone => exact fun m => ⟨[], m, rfl, Nat.le_refl m, .of_finish rfl fun _ _ _ => .nil⟩
  | @initDeclaration _ id kind ids _ h hbuilds =>
    have hmem : id ∈ (some id).toList.filter (declares scope.module) :=
      mem_filter.2 ⟨mem_singleton_self id, by rw [declares, h]⟩
    exact makes_of_node h fun _ _ _ _ => hr id hmem _ hbuilds hs
  | @initEffect _ id kind h hkind =>
    have heffect : Renders b scope eval labels (effect r labels id) (.effect id) :=
      effect_makes (hs.value id (mem_singleton_self id))
    refine makes_of_node h fun _ _ _ _ => ?_
    cases kind <;> first | exact absurd rfl (hkind _ _) | exact heffect

/-- The body of a compound statement; what a block holds is not nested deeper there. -/
theorem body_makes {c : NodeId} (hkind : scope.module.kind? c = some kind)
    (hdeep : Makes b scope (stmt returns expr (depth + 1) labels c) X R)
    (hflat : Makes b scope (stmt returns expr depth labels c) X R) :
    Makes b scope (body ⟨expr, stmt returns expr depth⟩ labels c) X R := by
  obtain ⟨node, hnode, rfl⟩ := NodeTable.kind?_eq_some.1 hkind
  have hfind : scope.module.find .wasm c = pure node := by
    rw [Module.find, Module.node?, hnode]
    rfl
  intro m
  by_cases hblock : ∃ ids, node.kind = .block ids
  · obtain ⟨ids, hblock⟩ := hblock
    obtain ⟨code, n, hcode, hrest⟩ := hdeep m
    obtain ⟨node', u, hnode', hcode⟩ := bind_ok.1 hcode
    obtain ⟨hsame, rfl⟩ := node_ok (lift_ok.1 hnode')
    cases hfind.symm.trans hsame
    have hmany : scope.module.statementsOf .wasm c = .ok ids := by
      rw [Module.statementsOf, hfind, pure_bind, hblock]
      rfl
    refine ⟨code, n, bind_ok.2 ⟨scope, m, read_ok.2 ⟨rfl, rfl⟩, ?_⟩, hrest⟩
    simp only [hblock] at hcode
    simpa only [hmany] using hcode
  · obtain ⟨code, n, hcode, hrest⟩ := hflat m
    have hsingle : scope.module.statementsOf .wasm c = .ok [c] := by
      rw [Module.statementsOf, hfind, pure_bind]
      split
      · exact absurd ⟨_, ‹_›⟩ hblock
      · rfl
    refine ⟨code, n, bind_ok.2 ⟨scope, m, read_ok.2 ⟨rfl, rfl⟩, ?_⟩, hrest⟩
    simp only [hsingle]
    refine bind_ok.2 ⟨[code], n, bind_ok.2 ⟨code, n, hcode, rfl⟩, pure_ok.2 ⟨?_, rfl⟩⟩
    simp

/-- The blocks around a statement in a loop can be left by its jumps. -/
def Encloses (labels : Labels) (inLoop : Bool) : Prop := inLoop = true → .breakTo ∈ labels ∧ .continueTo ∈ labels

theorem Encloses.cons (h : Encloses labels inLoop) (label : Label) : Encloses (label :: labels) inLoop :=
  fun hin => ⟨.tail _ (h hin).1, .tail _ (h hin).2⟩

/-- The generator gives code for every statement that the node stands for. -/
def Treats (b : Binary) (scope : NumericScope) (returns : Bool) (expr : NodeId → Gen Code) (eval : Evaluation)
    (depth : Nat) (id : NodeId) : Prop :=
  ∀ inLoop labels s, Builds scope returns inLoop (.stmt id) s → Encloses labels inLoop →
    Provides b scope expr eval s → Renders b scope eval labels (stmt returns expr depth labels id) s

/-- The code of a statement from the code of what is directly below it, which is generated one level less deep or, in
the body of a compound statement, two levels. -/
theorem stmt_makes (hr : ∀ c ∈ nested scope.module id, Treats b scope returns expr eval depth c ∧
      Treats b scope returns expr eval (depth + 1) c) : Treats b scope returns expr eval (depth + 1) id := by
  intro inLoop labels s h hlabels hs
  have hbody {c : NodeId} {l : Labels} {inside : Bool} {t : Statement} (hc : c ∈ nested scope.module id)
      (hbuilds : Builds scope returns inside (.stmt c) t) (hl : Encloses l inside)
      (ht : Provides b scope expr eval t) :
      Renders b scope eval l (body ⟨expr, stmt returns expr depth⟩ l c) t := by
    obtain ⟨kind, hkind⟩ := hbuilds.kind
    exact body_makes hkind ((hr c hc).2 _ _ _ hbuilds hl ht) ((hr c hc).1 _ _ _ hbuilds hl ht)
  cases h with
  | effect hkind => exact makes_of_node hkind fun _ _ _ _ => effect_makes (hs.value _ (mem_singleton_self _))
  | declaration hkind _ hbuilds =>
    refine makes_of_node hkind fun _ _ _ _ m => lift_produces ?_
    exact declarators_makes hbuilds hs m
  | block hkind hbuilds =>
    refine makes_of_node hkind fun _ _ _ _ => row_makes (fun c hc s hc' => ?_) hbuilds hs
    exact (hr c (by rwa [nested, hkind])).1 _ _ s hc' hlabels
  | empty hkind => exact makes_of_node hkind fun _ _ _ _ => nil_makes (f := stmt returns expr depth labels)
  | ifThen hkind hbuilds =>
    have hc := hbody (l := .other :: labels) (by simp [nested, hkind]) hbuilds (hlabels.cons _)
      (hs.part (subset_append_left ..) fun e he => .tail _ (mem_append_left _ he))
    exact makes_of_node hkind fun _ _ _ _ => ifStatement_makes (hs.test _ (.head _)) hc (by simp) fun _ => rfl
  | ifElse hkind hbuilds hbuilds' =>
    have hc := hbody (l := .other :: labels) (by simp [nested, hkind]) hbuilds (hlabels.cons _)
      (hs.part (subset_append_left ..) fun e he => .tail _ (mem_append_left _ he))
    have ha := hbody (l := .other :: labels) (by simp [nested, hkind]) hbuilds' (hlabels.cons _)
      (hs.part (subset_append_right ..) fun e he => .tail _ (mem_append_right _ he))
    refine makes_of_node hkind fun _ _ _ _ => ifStatement_makes (hs.test _ (.head _)) hc ?_ (by simp)
    rintro _ ⟨⟩
    exact ha
  | whileLoop hkind hbuilds =>
    have hc := hbody (l := .continueTo :: .breakTo :: labels) (by simp [nested, hkind]) hbuilds (by simp [Encloses])
      (hs.part (subset_append_left ..) (subset_append_right ..))
    exact makes_of_node hkind fun _ _ _ _ => whileStatement_makes (hs.test _ (.head _)) hc
  | doLoop hkind hbuilds =>
    have hc := hbody (l := .continueTo :: .other :: .breakTo :: labels) (by simp [nested, hkind]) hbuilds
      (by simp [Encloses]) (hs.part (List.Subset.refl _) (subset_cons_self ..))
    exact makes_of_node hkind fun _ _ _ _ => doWhileStatement_makes hc (hs.test _ (.head _))
  | @forLoop _ _ init test update bodyId first second hkind hinit hbuilds =>
    have hfirst : Provides b scope expr eval first :=
      hs.part (subset_append_left ..) (subset_append_left ..)
    have hloop : Provides b scope expr eval (.loop test update second) :=
      hs.part (subset_append_right ..) (subset_append_right ..)
    have hc := hbody (l := .continueTo :: .other :: .breakTo :: labels) (by simp [nested, hkind]) hbuilds
      (by simp [Encloses]) (hloop.part (subset_append_left ..) (subset_append_right ..))
    have hbefore : Renders b scope eval labels (forInit ⟨expr, stmt returns expr depth⟩ labels init) first := by
      refine init_makes (fun c hc s hc' => ?_) hinit hfirst
      exact (hr c (by rw [nested, hkind]; exact .tail _ hc)).1 _ _ s hc' hlabels
    exact makes_of_node hkind fun _ _ _ _ => forStatement_makes hbefore
      (forTest_makes fun e he => hloop.test e (mem_append_left _ he)) hc
      (forUpdate_makes fun e he => hloop.value e (mem_append_right _ he))
  | leave hkind => exact makes_of_node hkind fun _ _ _ _ => jump_makes (hlabels rfl).1 rfl
  | again hkind => exact makes_of_node hkind fun _ _ _ _ => jump_makes (hlabels rfl).2 rfl
  | ret hkind hreturns =>
    cases hreturns
    exact makes_of_node hkind fun _ _ _ _ => returnStatement_makes hs.value

/-- A module has levels enough for every statement that can be read. -/
theorem stmt_treats (h : Builds scope returns inLoop (.stmt id) s) :
    Treats b scope returns expr eval scope.module.levels id := by
  have hacc := h.acc id (mem_singleton_self id)
  refine IdMap.descent (Q := fun fuel id => ∀ depth ≥ fuel, Treats b scope returns expr eval depth id)
    (fun x c => mem_nodes_of_nested) (fun fuel id ih depth hdepth => ?_)
    (fun _ => not_transGen_of_acc hacc) _ (Nat.le_refl _)
  obtain ⟨depth, rfl⟩ : ∃ d, depth = d + 1 := ⟨depth - 1, by omega⟩
  exact stmt_makes fun c hc => ⟨ih c hc depth (by omega), ih c hc (depth + 1) (by omega)⟩

end Module

end StmtGen

theorem bodyCode_eq {stmt : Labels → NodeId → StmtGen Code} {scope : NumericScope} {labels : Labels} {codes : List Code}
    {n : Nat} (h : ids.mapM (stmt labels) scope m = .ok (codes, n)) :
    bodyCode stmt scope labels m ids = .ok (codes.flatten, n) := by
  induction ids generalizing codes m with
  | nil =>
    obtain ⟨rfl, rfl⟩ := pure_ok.1 h
    rfl
  | cons id ids ih =>
    rw [mapM_cons] at h
    obtain ⟨code, u, hcode, h⟩ := bind_ok.1 h
    obtain ⟨rest, v, hrest, h⟩ := bind_ok.1 h
    obtain ⟨rfl, rfl⟩ := pure_ok.1 h
    simp only [bodyCode, hcode, ih hrest]
    rfl

/-- The code of a numeric expression behaves like the evaluation of its formula. -/
theorem makes_of_yields {scope : NumericScope} {g : Gen Code} {v : Float → Value} {eval : Evaluation}
    (h : Yields scope g t v) (heval : ∀ σ, eval e σ = some (t.eval σ)) :
    Makes b scope g (.next fun x => [v x]) (.of eval e) := by
  intro m
  obtain ⟨code, n, hcode, hturns⟩ := h m
  have hfits : (⟨List.replicate scope.function.slotCount 0.0, List.replicate scope.plan.globals.length 0.0⟩ :
      Store).Fits scope := ⟨by simp, by simp⟩
  refine ⟨code, n, hcode, (hturns _ hfits).1, .of_turns m fun σ hσ => ?_⟩
  refine ⟨(t.eval σ).1, (t.eval σ).2, _, fun x σ' => ?_, ⟨rfl, rfl⟩, t.eval_fits hσ, hturns σ hσ⟩
  rw [Course.of, heval, Option.some.injEq, Prod.ext_iff]
  exact ⟨fun h => ⟨h.1.symm, h.2.symm⟩, fun h => ⟨h.1.symm, h.2.symm⟩⟩

/-- **Generated control flow is that of the statements.** Let the code of the expressions and conditions in the body of
a
function behave like their evaluation. Then the code of the body ends exactly when its statements do, and it does so
with the value that they return, which is NaN if they return none, and with the slots and globals as they leave them. -/
theorem functionBody_simulates {b : Binary} {scope : NumericScope} {returns : Bool} {eval : Evaluation} {s : Statement}
    (h : Builds scope returns false (.row scope.function.body) s)
    (hexpr : Provides b scope (expr scope.module.levels) eval s) :
    ∃ body, functionBody scope returns = .ok body ∧ ∀ (σ : Store) (scratch : List Float), σ.Fits scope →
      (σ.locals ++ scratch).length = scope.function.params.length + body.locals →
        ((∃ o s', Runs b body.code ⟨[], σ.locals ++ scratch, σ.globals⟩ o s') ↔ ∃ c σ', s.Ends eval σ c σ') ∧
        ∀ c σ', s.Ends eval σ c σ' → ∃ o scratch', (o = .next ∨ o = .ret) ∧ scratch'.length = scratch.length ∧
          Runs b body.code ⟨[], σ.locals ++ scratch, σ.globals⟩ o
            ⟨if returns then [.f64 c.result] else [], σ'.locals ++ scratch', σ'.globals⟩ := by
  have hrow : Renders b scope eval [] (StmtGen.statements ⟨expr scope.module.levels,
      StmtGen.stmt returns (expr scope.module.levels) scope.module.levels⟩ [] scope.function.body) s :=
    StmtGen.row_makes (fun c _ t hc => StmtGen.stmt_treats hc false [] t hc fun hin => by cases hin) h hexpr
  obtain ⟨code, n, hcode, -, hfollows⟩ := hrow 0
  obtain ⟨codes, u, hcodes, hcode⟩ := bind_ok.1 hcode
  obtain ⟨rfl, rfl⟩ := pure_ok.1 hcode
  have hbody : functionBody scope returns =
      .ok ⟨scope.function.locals.length + u, if returns then codes.flatten ++ [nan] else codes.flatten⟩ := by
    simp only [functionBody, bodyCode_eq hcodes]
    rfl
  refine ⟨_, hbody, fun σ scratch hσ hlength => ?_⟩
  have hu : u ≤ scratch.length := by
    rw [length_append, hσ.locals_eq, NumericFunction.slotCount] at hlength
    dsimp only at hlength
    omega
  obtain ⟨hsound, hcomplete⟩ := hfollows σ scratch [] hσ hu
  have hends : ∀ c σ', s.Ends eval σ c σ' → ∃ o scratch', (o = .next ∨ o = .ret) ∧ scratch'.length = scratch.length ∧
      Runs b (if returns then codes.flatten ++ [nan] else codes.flatten) ⟨[], σ.locals ++ scratch, σ.globals⟩ o
        ⟨if returns then [.f64 c.result] else [], σ'.locals ++ scratch', σ'.globals⟩ := by
    intro c σ' hc
    obtain ⟨-, o, outs, scratch', hX, hkept, hruns⟩ := hsound c σ' hc
    have hsuits := h.suits hc
    cases c with
    | broke | continued => cases hsuits
    | normal =>
      cases hX
      refine ⟨.next, scratch', .inl rfl, hkept, ?_⟩
      cases returns with
      | false => exact hruns
      | true => exact hruns.append (.step rfl .nil)
    | returned x =>
      cases hX
      cases hsuits
      exact ⟨.ret, scratch', .inr rfl, hkept, runs_append_iff.2 ⟨.ret, _, hruns, rfl, rfl⟩⟩
  refine ⟨⟨?_, ?_⟩, hends⟩
  · rintro ⟨o, s', hruns⟩
    cases returns with
    | false => exact hcomplete o s' hruns
    | true =>
      obtain ⟨o₁, s₁, hruns, -⟩ := runs_append_iff.1 hruns
      exact hcomplete o₁ s₁ hruns
  · rintro ⟨c, σ', hc⟩
    obtain ⟨o, scratch', -, -, hruns⟩ := hends c σ' hc
    exact ⟨o, _, hruns⟩

namespace Countdown

/-- `while (x) { if (x == 1) break; x--; } return x;`, where `x` is a parameter. -/
def scope : NumericScope where
  module := .numbered [.identifier "x" (some 20), .number 1.0, .binary .eq 1 2, .breakStmt, .ifStmt 3 4 none,
    .update .decrement false 1, .exprStmt 6, .block [5, 7], .whileStmt 1 8, .returnStmt (some 1)] []
  plan := ⟨[], [], none⟩
  function := ⟨21, "f", [20], [], [9, 10]⟩

def statement : Statement :=
  .seq (.loop (some 1) none (.seq (.choose 3 .leave .skip) (.seq (.effect 6) .skip))) (.seq (.ret (some 1)) .skip)

def formula? : NodeId → Option Formula
  | 1 => some (.name (.local 0))
  | 3 => some (.comparison .eq (.name (.local 0)) (.literal 1.0))
  | 6 => some (.update .decrement false (.local 0))
  | _ => none

def eval : Evaluation := fun e σ => (formula? e).map (·.eval σ)

theorem builds : Builds scope true false (.row scope.function.body) statement := by
  have hwhile : scope.module.kind? 9 = some (.whileStmt 1 8) := by decide +kernel
  have hblock : scope.module.kind? 8 = some (.block [5, 7]) := by decide +kernel
  have hif : scope.module.kind? 5 = some (.ifStmt 3 4 none) := by decide +kernel
  refine .cons (.whileLoop hwhile (.block hblock (.cons (.ifThen hif (.leave ?_)) (.cons (.effect ?_) .nil))))
    (.cons (.ret ?_ rfl) .nil)
  all_goals decide +kernel

theorem reads (h : formula? e = some t) : Reads scope (.expr e) t := by
  have hx : Names scope 1 (.local 0) := ⟨"x", some 20, by decide +kernel, by decide +kernel⟩
  have hone : scope.module.kind? 2 = some (.number 1.0) := by decide +kernel
  have hequal : scope.module.kind? 3 = some (.binary .eq 1 2) := by decide +kernel
  have hupdate : scope.module.kind? 6 = some (.update .decrement false 1) := by decide +kernel
  unfold formula? at h
  split at h <;> cases h
  · exact .name hx
  · exact .comparison hequal rfl (.name hx) (.literal hone rfl)
  · exact .update hupdate hx

theorem provides : Provides b scope (expr scope.module.levels) eval statement := by
  have hmakes {e : NodeId} {t : Formula} (h : formula? e = some t) :
      Values b scope (expr scope.module.levels) eval e ∧ Tests b scope (expr scope.module.levels) eval e := by
    obtain ⟨hvalue, htest⟩ := expr_handles (reads h) t (reads h)
    have heval : ∀ σ, eval e σ = some (t.eval σ) := fun σ => by rw [eval, h, Option.map_some]
    exact ⟨makes_of_yields hvalue heval, makes_of_yields htest heval⟩
  constructor
  · intro e he
    obtain rfl | rfl : e = 6 ∨ e = 1 := by simpa [statement, Statement.values] using he
    · exact (hmakes rfl).1
    · exact (hmakes rfl).1
  · intro e he
    obtain rfl | rfl : e = 1 ∨ e = 3 := by simpa [statement, Statement.tests] using he
    · exact (hmakes rfl).2
    · exact (hmakes rfl).2

theorem ends : statement.Ends eval ⟨[2.0], []⟩ (.returned 1.0) ⟨[1.0], []⟩ := by
  have htest (x : Float) (h : truthy x = true) : check eval (some 1) ⟨[x], []⟩ true ⟨[x], []⟩ :=
    ⟨x, _, rfl, h.symm, rfl⟩
  refine ⟨.normal, ⟨[1.0], []⟩, .next ⟨true, _, htest 2.0 (by decide +kernel), .normal, ⟨[1.0], []⟩, ?_, rfl, rfl⟩
    (.stop ⟨true, _, htest 1.0 (by decide +kernel), .broke, _, ?_, rfl, rfl⟩),
    .returned 1.0, _, ⟨1.0, _, rfl, rfl, rfl⟩, rfl, rfl⟩
  · have hfirst : eval 3 ⟨[2.0], []⟩ = some (0.0, ⟨[2.0], []⟩) := by decide +kernel
    have hstep : eval 6 ⟨[2.0], []⟩ = some (2.0, ⟨[1.0], []⟩) := by decide +kernel
    refine ⟨.normal, ⟨[2.0], []⟩, ⟨0.0, _, hfirst, ?_⟩, .normal, ⟨[1.0], []⟩, ⟨2.0, _, hstep, rfl, rfl⟩, rfl, rfl⟩
    have hfalse : truthy 0.0 = false := by decide +kernel
    simp [goesOn, hfalse, Statement.Ends, Course.finish]
  · have hsecond : eval 3 ⟨[1.0], []⟩ = some (1.0, ⟨[1.0], []⟩) := by decide +kernel
    refine ⟨.broke, ⟨[1.0], []⟩, ⟨1.0, _, hsecond, ?_⟩, rfl, rfl⟩
    have htrue : truthy 1.0 = true := by decide +kernel
    simp [goesOn, htrue, Statement.Ends, Course.finish]

theorem functionBody_runs : Builds scope true false (.row scope.function.body) statement ∧
    ∀ b, ∃ body, functionBody scope true = .ok body ∧ ∀ scratch : List Float, scratch.length = body.locals →
      ∃ o scratch', Runs b body.code ⟨[], 2.0 :: scratch, []⟩ o ⟨[.f64 1.0], 1.0 :: scratch', []⟩ := by
  refine ⟨builds, fun b => ?_⟩
  obtain ⟨body, hbody, hruns⟩ := functionBody_simulates builds provides
  refine ⟨body, hbody, fun scratch hscratch => ?_⟩
  have hlength : ([2.0] ++ scratch).length = scope.function.params.length + body.locals := by
    simp [scope, hscratch, Nat.add_comm]
  obtain ⟨o, scratch', -, -, hruns⟩ := (hruns ⟨[2.0], []⟩ scratch ⟨rfl, rfl⟩ hlength).2 _ _ ends
  exact ⟨o, scratch', hruns⟩

end Countdown

end Retarget.Wasm
