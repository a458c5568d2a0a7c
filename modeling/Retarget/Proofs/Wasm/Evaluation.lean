import Retarget.Proofs.Numeric.Formula
import Retarget.Proofs.Wasm.Expression
import Retarget.Proofs.Wasm.Machine

/-!
# The values of generated expressions

The code of a numeric expression leaves its value on the stack and writes the variables that the expression writes;
besides these, only the scratch locals that were taken while the code was generated change.

* `Turns m n code ins σ outs σ'`: the code turns the operands `ins` into `outs` and the contents `σ` of the slots into
  `σ'`, and changes no scratch locals but those from `m` up to `n`.
* `Yields scope g t v`: the generator gives code that evaluates the formula and leaves its value in the form `v`, which
  is the value itself for an expression and its truth for a condition.
* `expr_runs_iff`: the code of an expression ends in exactly one way, with what the evaluation of its formula says.
-/

namespace Retarget

open List

theorem Float.beq_self_eq (x : Float) : (x == x) = !x.isNaN := by
  change x.toModel.unpack.beq x.toModel.unpack = !x.toModel.unpack.isNaN
  cases x.toModel.unpack with
  | notANumber => rfl
  | infinity sign => cases sign <;> rfl
  | zero => rfl
  | finite sign mantissa exponent =>
    have hcompare : (compare exponent exponent).then (compare mantissa mantissa) = .eq := by simp
    cases sign with
    | negative =>
      change (some ((compare exponent exponent).then (compare mantissa mantissa)).swap == some Ordering.eq) = true
      rw [hcompare]
      rfl
    | positive =>
      change (some ((compare exponent exponent).then (compare mantissa mantissa)) == some Ordering.eq) = true
      rw [hcompare]
      rfl

variable {id : NodeId} {p : Place} {a : Bool}

theorem Numeric.Names.has {scope : NumericScope} (h : Names scope id p) : scope.Has p.slot := by
  obtain ⟨name, binding, -, hslot⟩ := h
  exact NumericScope.has_of_slot? hslot

namespace Wasm

open Numeric

theorem Value.truth_and (a b : Bool) : Value.i32 ((if a then 1 else 0) &&& (if b then 1 else 0)) = .truth (a && b) := by
  cases a <;> cases b <;> rfl

theorem toFloat_truth : (if a then 1 else 0 : UInt32).toFloat = ofBool a := by
  cases a <;> decide

/-! ## What code does -/

/-- The code turns operands on top of the stack into others and the contents of the slots into others. -/
def Turns (m n : Nat) (code : Code) (ins : List Value) (σ : Store) (outs : List Value) (σ' : Store) : Prop :=
  m ≤ n ∧ ∀ b scratch below, n ≤ scratch.length →
    ∃ scratch', scratch'.length = scratch.length ∧ (∀ j < m, scratch'[j]? = scratch[j]?) ∧
      Runs b code ⟨ins ++ below, σ.locals ++ scratch, σ.globals⟩ .next
        ⟨outs ++ below, σ'.locals ++ scratch', σ'.globals⟩

namespace Turns

variable {m n k : Nat} {code code' : Code} {ins mid outs : List Value} {σ σ₁ σ' : Store} {x y : Float}

theorem append (h : Turns m n code ins σ mid σ₁) (h' : Turns n k code' mid σ₁ outs σ') :
    Turns m k (code ++ code') ins σ outs σ' := by
  refine ⟨Nat.le_trans h.1 h'.1, fun b scratch below hk => ?_⟩
  obtain ⟨scratch₁, hlength₁, hkept₁, hruns₁⟩ := h.2 b scratch below (Nat.le_trans h'.1 hk)
  obtain ⟨scratch₂, hlength₂, hkept₂, hruns₂⟩ := h'.2 b scratch₁ below (hlength₁ ▸ hk)
  refine ⟨scratch₂, hlength₂.trans hlength₁, fun j hj => ?_, hruns₁.append hruns₂⟩
  exact (hkept₂ j (Nat.lt_of_lt_of_le hj h.1)).trans (hkept₁ j hj)

theorem frame (h : Turns m n code ins σ outs σ') (more : List Value) :
    Turns m n code (ins ++ more) σ (outs ++ more) σ' := by
  refine ⟨h.1, fun b scratch below hn => ?_⟩
  simpa only [append_assoc] using h.2 b scratch (more ++ below) hn

theorem single {i : Instr}
    (h : ∀ below locals globals, i.step ⟨ins ++ below, locals, globals⟩ = some ⟨outs ++ below, locals, globals⟩) :
    Turns m m [i] ins σ outs σ :=
  ⟨Nat.le_refl m, fun _ scratch below _ => ⟨scratch, rfl, fun _ _ => rfl, .step (h below _ _) .nil⟩⟩

theorem const (x : Float) : Turns m m [.const x] [] σ [.f64 x] σ := single fun _ _ _ => rfl

theorem drop : Turns m m [.drop] [.f64 x] σ [] σ := single fun _ _ _ => rfl

theorem toFloat : Turns m m [.toFloat] [.truth a] σ [.f64 (ofBool a)] σ := by
  rw [← toFloat_truth]
  exact single fun _ _ _ => rfl

theorem isZero : Turns m m [.isZero] [.truth a] σ [.truth !a] σ :=
  single fun _ _ _ => by cases a <;> rfl

theorem ifElse {consequent alternate : Code} (hn : m ≤ n) (hc : a = true → Turns m n consequent [] σ [.f64 y] σ')
    (ha : a = false → Turns m n alternate [] σ [.f64 y] σ') :
    Turns m n [.ifElse true consequent alternate] [.truth a] σ [.f64 y] σ' := by
  refine ⟨hn, fun b scratch below hk => ?_⟩
  have htaken : Turns m n (if (if a then 1 else 0 : UInt32) = 0 then alternate else consequent) [] σ [.f64 y] σ' := by
    cases a with
    | false => exact ha rfl
    | true => exact hc rfl
  obtain ⟨scratch', hlength, hkept, hruns⟩ := htaken.2 b scratch [] hk
  exact ⟨scratch', hlength, hkept, .cons (.ifElse hruns) .nil⟩

theorem weaken {m' n' : Nat} (h : Turns m n code ins σ outs σ') (hm : m' ≤ m) (hn : n ≤ n') :
    Turns m' n' code ins σ outs σ' := by
  refine ⟨Nat.le_trans hm (Nat.le_trans h.1 hn), fun b scratch below hk => ?_⟩
  obtain ⟨scratch', hlength, hkept, hruns⟩ := h.2 b scratch below (Nat.le_trans hn hk)
  exact ⟨scratch', hlength, fun j hj => hkept j (Nat.lt_of_lt_of_le hj hm), hruns⟩

end Turns

/-! ## Slots and scratch locals -/

section Slots

variable {scope : NumericScope} {σ : Store} {m n : Nat} {x y : Float}

def loadCode : Place → Code
  | .local i => [.localGet i]
  | .global i => [.globalGet i]

def storeCode : Place → Code
  | .local i => [.localTee i]
  | .global i => [.globalSet i, .globalGet i]

section

variable (hσ : σ.Fits scope)
include hσ

attribute [local simp] Instr.step

theorem load_turns (hp : scope.Has p.slot) : Turns m m (loadCode p) [] σ [.f64 (σ.read p)] σ := by
  refine ⟨Nat.le_refl m, fun b scratch below _ => ⟨scratch, rfl, fun _ _ => rfl, ?_⟩⟩
  cases p with
  | «local» i =>
    have hi : i < σ.locals.length := hσ.locals_eq ▸ hp
    refine .step ?_ .nil
    simp [Store.read, getElem?_append_left hi, hi]
  | global i =>
    have hi : i < σ.globals.length := hσ.globals_eq ▸ hp
    refine .step ?_ .nil
    simp [Store.read, hi]

theorem store_turns (hp : scope.Has p.slot) : Turns m m (storeCode p) [.f64 x] σ [.f64 x] (σ.write p x) := by
  refine ⟨Nat.le_refl m, fun b scratch below _ => ⟨scratch, rfl, fun _ _ => rfl, ?_⟩⟩
  cases p with
  | «local» i =>
    have hi : i < σ.locals.length := hσ.locals_eq ▸ hp
    refine .step ?_ .nil
    simp [Store.write, set_append_left i x hi, Nat.lt_add_right scratch.length hi]
  | global i =>
    have hi : i < σ.globals.length := hσ.globals_eq ▸ hp
    have hset : (Instr.globalSet i).step ⟨.f64 x :: below, σ.locals ++ scratch, σ.globals⟩ =
        some ⟨below, σ.locals ++ scratch, σ.globals.set i x⟩ := by simp [hi]
    refine .step hset (.step ?_ .nil)
    simp [Store.write, hi]

theorem set_scratch {scratch : List Float} :
    (σ.locals ++ scratch).set (scope.function.slotCount + m) x = σ.locals ++ scratch.set m x := by
  rw [← hσ.locals_eq, set_append_right _ _ (Nat.le_add_right ..), Nat.add_sub_cancel_left]

theorem getElem?_scratch (scratch : List Float) :
    (σ.locals ++ scratch)[scope.function.slotCount + m]? = scratch[m]? := by
  rw [← hσ.locals_eq, getElem?_append_right (Nat.le_add_right ..), Nat.add_sub_cancel_left]

end

variable {scratch : List Float} {stack : List Value}

theorem localTee_scratch (hσ : σ.Fits scope) (hm : m < scratch.length) :
    (Instr.localTee (scope.function.slotCount + m)).step ⟨.f64 x :: stack, σ.locals ++ scratch, σ.globals⟩ =
      some ⟨.f64 x :: stack, σ.locals ++ scratch.set m x, σ.globals⟩ := by
  have hlt : scope.function.slotCount + m < (σ.locals ++ scratch).length := by
    rw [length_append, hσ.locals_eq]
    omega
  rw [Instr.step, if_pos hlt, set_scratch hσ]

theorem localGet_scratch (hσ : σ.Fits scope) (hx : scratch[m]? = some x) :
    (Instr.localGet (scope.function.slotCount + m)).step ⟨stack, σ.locals ++ scratch, σ.globals⟩ =
      some ⟨.f64 x :: stack, σ.locals ++ scratch, σ.globals⟩ := by
  simp only [Instr.step]
  rw [getElem?_scratch hσ, hx]
  rfl

def truthyCode (t : Nat) : Code :=
  [.localTee t, .const 0.0, .float .ne, .localGet t, .localGet t, .float .eq, .both]

theorem truthy_turns (hσ : σ.Fits scope) :
    Turns m (m + 1) (truthyCode (scope.function.slotCount + m)) [.f64 x] σ [.truth (truthy x)] σ := by
  refine ⟨Nat.le_succ m, fun b scratch below hm => ⟨scratch.set m x, by simp, fun j hj => ?_, ?_⟩⟩
  · rw [getElem?_set_ne (by omega)]
  · have hkept : (scratch.set m x)[m]? = some x := getElem?_set_self (by omega)
    refine .step (localTee_scratch hσ (by omega)) <| .step rfl <| .step rfl <|
      .step (localGet_scratch hσ hkept) <| .step (localGet_scratch hσ hkept) <| .step rfl <| .step ?_ .nil
    rw [truthy, ← Float.beq_self_eq, ← Value.truth_and]
    rfl

/-- The code of a logical operation after its left side: it is kept in one local and tested by means of another, and
then either the code of the right side runs or the left side is taken again. -/
def logicalCode (kept tested : Nat) (right : Code) (both : Bool) : Code :=
  .localTee kept :: truthyCode tested ++
    [.ifElse true (if both then right else [.localGet kept]) (if both then [.localGet kept] else right)]

theorem logical_turns {q : Code} (both : Bool) {σ' : Store} (hσ : σ.Fits scope)
    (hq : Turns (m + 2) n q [] σ [.f64 y] σ') :
    Turns m n (logicalCode (scope.function.slotCount + m) (scope.function.slotCount + (m + 1)) q both)
      [.f64 x] σ [.f64 (if truthy x = both then y else x)] (if truthy x = both then σ' else σ) := by
  have hmn := hq.1
  refine ⟨by omega, fun b scratch below hn => ?_⟩
  obtain ⟨scratch₁, hlength₁, hkept₁, htest⟩ := (truthy_turns (m := m + 1) hσ).2 b (scratch.set m x) below
    (by rw [length_set]; omega)
  have hx : scratch₁[m]? = some x := by
    rw [hkept₁ m (Nat.lt_succ_self m)]
    exact getElem?_set_self (by omega)
  have hold : ∀ j < m, scratch₁[j]? = scratch[j]? := by
    intro j hj
    rw [hkept₁ j (by omega), getElem?_set_ne (by omega)]
  rw [length_set] at hlength₁
  suffices htaken : ∃ scratch', scratch'.length = scratch₁.length ∧ (∀ j < m, scratch'[j]? = scratch₁[j]?) ∧
      Runs b (if (if truthy x then 1 else 0 : UInt32) = 0 then
          (if both then [.localGet (scope.function.slotCount + m)] else q)
        else (if both then q else [.localGet (scope.function.slotCount + m)]))
        ⟨[], σ.locals ++ scratch₁, σ.globals⟩ .next
        ⟨[.f64 (if truthy x = both then y else x)], (if truthy x = both then σ' else σ).locals ++ scratch',
          (if truthy x = both then σ' else σ).globals⟩ by
    obtain ⟨scratch', hlength, hkept, hruns⟩ := htaken
    refine ⟨scratch', hlength.trans hlength₁, fun j hj => (hkept j hj).trans (hold j hj), ?_⟩
    exact .step (localTee_scratch hσ (by omega)) (htest.append (.cons (.ifElse hruns) .nil))
  obtain ⟨scratch₂, hlength₂, hkept₂, hruns₂⟩ := hq.2 b scratch₁ [] (hlength₁ ▸ hn)
  have hagain : Runs b [.localGet (scope.function.slotCount + m)] ⟨[], σ.locals ++ scratch₁, σ.globals⟩ .next
      ⟨[.f64 x], σ.locals ++ scratch₁, σ.globals⟩ := .step (localGet_scratch hσ hx) .nil
  cases htruthy : truthy x <;> cases both
  · exact ⟨scratch₂, hlength₂, fun j hj => hkept₂ j (by omega), hruns₂⟩
  · exact ⟨scratch₁, rfl, fun _ _ => rfl, hagain⟩
  · exact ⟨scratch₁, rfl, fun _ _ => rfl, hagain⟩
  · exact ⟨scratch₂, hlength₂, fun j hj => hkept₂ j (by omega), hruns₂⟩

end Slots

/-! ## Operators -/

def comparisonOp : Comparison → FloatOp
  | .eq => .eq
  | .ne => .ne
  | .lt => .lt
  | .le => .le
  | .gt => .gt
  | .ge => .ge

def arithmeticOp : Arithmetic → FloatOp
  | .add => .add
  | .sub => .sub
  | .mul => .mul
  | .div => .div

variable {m : Nat} {σ : Store} {x y : Float} {c : Comparison} {a : Arithmetic} {kind : Kind} {t : Formula}

theorem comparison_turns : Turns m m [.float (comparisonOp c)] [.f64 y, .f64 x] σ [.truth (c.holds x y)] σ :=
  .single fun _ _ _ => by cases c <;> rfl

theorem arithmetic_turns : Turns m m [.float (arithmeticOp a)] [.f64 y, .f64 x] σ [.f64 (a.apply x y)] σ :=
  .single fun _ _ _ => by cases a <;> rfl

namespace Gen

open Surrounded

variable {scope : NumericScope} {m : Nat} {node : Node} {op : BinaryOperator}

theorem compare_eq (h : Comparison.of? op = some c) : compare node op scope m = .ok (comparisonOp c, m) := by
  cases op <;> cases h <;> rfl

theorem arithmetic_eq_compare (h : Comparison.of? op = some c) :
    arithmetic node op scope m = .ok ([.float (comparisonOp c), .toFloat], m) := by
  cases op <;> cases h <;> rfl

theorem arithmetic_eq (h : Arithmetic.of? op = some a) :
    arithmetic node op scope m = .ok ([.float (arithmeticOp a)], m) := by
  cases op <;> cases h <;> rfl

theorem load_eq : load node p.slot scope m = .ok (loadCode p, m) := by
  cases p <;> rfl

theorem store_eq : store node p.slot scope m = .ok (storeCode p, m) := by
  cases p <;> rfl

theorem truthy_eq : truthy scope m = .ok (truthyCode (scope.function.slotCount + m), m + 1) := rfl

theorem node_eq (h : scope.module.kind? id = some kind) :
    ∃ nodeId span type synthetic, ∀ m, Gen.node id scope m = .ok (⟨nodeId, kind, span, type, synthetic⟩, m) := by
  obtain ⟨node, hnode, rfl⟩ := NodeTable.kind?_eq_some.1 h
  refine ⟨node.id, node.span, node.type, node.synthetic, fun m => ?_⟩
  refine bind_ok.2 ⟨scope, m, read_ok.2 ⟨rfl, rfl⟩, lift_ok.2 ⟨?_, rfl⟩⟩
  rw [Module.find, Module.node?, hnode]

theorem slot_eq {binding : Option NodeId} {slot : Slot} (h : scope.slot? binding = some slot) :
    Gen.slot node binding scope m = .ok (slot, m) := by
  refine bind_ok.2 ⟨scope, m, read_ok.2 ⟨rfl, rfl⟩, lift_ok.2 ⟨?_, rfl⟩⟩
  rw [NumericScope.slot, h]

theorem variableTarget_eq (node : Node) (reason : String) (h : Names scope id p) :
    ∃ target, ∀ m, variableTarget node reason id scope m = .ok ((target, p.slot), m) := by
  obtain ⟨name, binding, hkind, hslot⟩ := h
  obtain ⟨nodeId, span, type, synthetic, hnode⟩ := node_eq hkind
  refine ⟨_, fun m => bind_ok.2 ⟨_, m, hnode m, bind_ok.2 ⟨p.slot, m, slot_eq hslot, rfl⟩⟩⟩

end Gen

/-! ## Code of formulas -/

/-- The generator gives code that evaluates the formula and leaves its value in the form `v`. -/
def Yields (scope : NumericScope) (g : Gen Code) (t : Formula) (v : Float → Value) : Prop :=
  ∀ m, ∃ code n, g scope m = .ok (code, n) ∧
    ∀ σ : Store, σ.Fits scope → Turns m n code [] σ [v (t.eval σ).1] (t.eval σ).2

/-- The generator `r` gives code for the value and for the truth of every formula that the node stands for. -/
def Handles (scope : NumericScope) (r : NodeId → Gen Code) (id : NodeId) : Prop :=
  ∀ t, Reads scope (.expr id) t →
    Yields scope (r id) t .f64 ∧ Yields scope (Gen.condition r id) t fun x => .truth (truthy x)

section Formulas

open Surrounded

variable {scope : NumericScope} {r : NodeId → Gen Code} {g g' : Gen Code} {node : Node} {id : NodeId}
  {t l q : Formula} {v w : Float → Value} {code : Code}

theorem Yields.of_node {f : Node → Gen Code} (h : scope.module.kind? id = some kind)
    (hf : ∀ nodeId span type synthetic, Yields scope (f ⟨nodeId, kind, span, type, synthetic⟩) t v) :
    Yields scope (Gen.node id >>= f) t v := by
  obtain ⟨nodeId, span, type, synthetic, hnode⟩ := Gen.node_eq h
  exact fun m => Produces.known (hnode m) (hf nodeId span type synthetic m)

theorem Yields.of_pure (h : ∀ m (σ : Store), σ.Fits scope → Turns m m code [] σ [v (t.eval σ).1] (t.eval σ).2) :
    Yields scope (pure code) t v :=
  fun m => ⟨code, m, rfl, h m⟩

theorem Yields.snoc {s : Formula} (h : Yields scope g t v) (heval : ∀ σ, (s.eval σ).2 = (t.eval σ).2)
    (hcode : ∀ n σ, Turns n n code [v (t.eval σ).1] (t.eval σ).2 [w (s.eval σ).1] (t.eval σ).2) :
    Yields scope (do return (← g) ++ code) s w := by
  refine fun m => Produces.bind (h m) fun first n hturns => .pure fun σ hσ => ?_
  rw [heval]
  exact (hturns σ hσ).append (hcode n σ)

/-- **An operation on the values of two formulas** leaves their values below its own. -/
theorem Yields.operation {h : Code → Code → Gen Code} (hl : Yields scope g l .f64)
    (hq : Yields scope g' q .f64) (hcode : ∀ left right k, h left right scope k = .ok (left ++ right ++ code, k))
    (hturns : ∀ k σ, Turns k k code [.f64 (q.eval (l.eval σ).2).1, .f64 (l.eval σ).1] (q.eval (l.eval σ).2).2
      [v (t.eval σ).1] (t.eval σ).2) :
    Yields scope (do
      let left ← g
      let right ← g'
      h left right) t v := by
  refine fun m => Produces.bind (hl m) fun left n hl => Produces.bind (hq n) fun right k hq => ?_
  refine ⟨left ++ right ++ code, k, hcode left right k, fun σ hσ => ?_⟩
  have hoperands := (hl σ hσ).append ((hq _ (l.eval_fits hσ)).frame [.f64 (l.eval σ).1])
  exact hoperands.append (hturns k σ)

variable {op : BinaryOperator} {left right targetId value : NodeId}

theorem arithmetic_yields (hop : Arithmetic.of? op = some a) (hl : Yields scope g l .f64)
    (hq : Yields scope g' q .f64) :
    Yields scope (do let l ← g let q ← g' return l ++ q ++ (← Gen.arithmetic node op)) (.arithmetic a l q) .f64 :=
  hl.operation hq (fun _ _ k => bind_ok.2 ⟨_, k, Gen.arithmetic_eq hop, rfl⟩) fun _ _ => arithmetic_turns

theorem comparison_yields (hop : Comparison.of? op = some c) (hl : Yields scope g l .f64)
    (hq : Yields scope g' q .f64) :
    Yields scope (do let l ← g let q ← g' return l ++ q ++ (← Gen.arithmetic node op)) (.comparison c l q) .f64 :=
  hl.operation hq (fun _ _ k => bind_ok.2 ⟨_, k, Gen.arithmetic_eq_compare hop, rfl⟩)
    fun _ _ => .append comparison_turns .toFloat

theorem compare_yields (hop : Comparison.of? op = some c) (hl : Yields scope g l .f64) (hq : Yields scope g' q .f64) :
    Yields scope (do
      let l ← g
      let q ← g'
      let op ← Gen.compare node op
      return l ++ q ++ [.float op]) (.comparison c l q) fun x => .truth (truthy x) := by
  refine hl.operation hq (fun _ _ k => bind_ok.2 ⟨_, k, Gen.compare_eq hop, rfl⟩) fun k σ => ?_
  simp only [Formula.eval, truthy_ofBool]
  exact comparison_turns

theorem truthy_yields (h : Yields scope g t .f64) :
    Yields scope (do
      let value ← g
      return value ++ (← Gen.truthy)) t fun x => .truth (truthy x) := by
  refine fun m => Produces.bind (h m) fun code n hturns => .known Gen.truthy_eq (.pure fun σ hσ => ?_)
  exact (hturns σ hσ).append (truthy_turns (t.eval_fits hσ))

theorem logical_eq {first second : Code} {op : LogicalOperator} {n k : Nat} (hop : op ≠ .nullish)
    (hfirst : r left scope m = .ok (first, n)) (hsecond : r right scope (n + 2) = .ok (second, k)) :
    Gen.logical r op left right scope m =
      .ok (first ++ logicalCode (scope.function.slotCount + n) (scope.function.slotCount + (n + 1)) second (op = .and),
        k) := by
  rw [logicalCode, ← append_assoc]
  cases op with
  | nullish => exact absurd rfl hop
  | and | or =>
    exact bind_ok.2 ⟨first, n, hfirst, bind_ok.2 ⟨_, n + 1, rfl, bind_ok.2 ⟨_, n + 2, rfl,
      bind_ok.2 ⟨second, k, hsecond, rfl⟩⟩⟩⟩

theorem logical_yields (both : Bool) (hl : Yields scope (r left) l .f64) (hq : Yields scope (r right) q .f64) :
    Yields scope (Gen.logical r (cond both .and .or) left right) (cond both (.and l q) (.or l q)) .f64 := by
  intro m
  obtain ⟨first, n, hfirst, hl⟩ := hl m
  obtain ⟨second, k, hsecond, hq⟩ := hq (n + 2)
  refine ⟨_, k, logical_eq (by cases both <;> decide) hfirst hsecond, fun σ hσ => ?_⟩
  have hfits := l.eval_fits hσ
  have hturns := (hl σ hσ).append (logical_turns both hfits (hq _ hfits))
  cases both <;> simp only [cond_true, cond_false, Formula.eval] <;> split
  all_goals
    next htruthy => simpa [htruthy] using hturns

theorem update_yields {op : UpdateOperator} {before : Bool} {argument : NodeId} (hp : Names scope argument p) :
    Yields scope (Gen.update node op before argument) (.update op before p) .f64 := by
  intro m
  obtain ⟨target, htarget⟩ := Gen.variableTarget_eq node "only variables can be updated" hp
  refine ⟨if before then loadCode p ++ [.const 1.0, .float (arithmeticOp (stepOf op))] ++ storeCode p
    else loadCode p ++ loadCode p ++ [.const 1.0, .float (arithmeticOp (stepOf op))] ++ storeCode p ++ [.drop], m,
    bind_ok.2 ⟨_, m, htarget m, bind_ok.2 ⟨_, m, Gen.load_eq, bind_ok.2 ⟨_, m, Gen.store_eq, ?_⟩⟩⟩,
    fun σ hσ => ?_⟩
  · cases op <;> rfl
  · have hload : Turns m m (loadCode p) [] σ [.f64 (σ.read p)] σ := load_turns hσ hp.has
    have hchange : Turns m m [.const 1.0, .float (arithmeticOp (stepOf op))] [.f64 (σ.read p)] σ
        [.f64 ((stepOf op).apply (σ.read p) 1.0)] σ := .append ((Turns.const 1.0).frame _) arithmetic_turns
    have hstore := store_turns (m := m) (x := (stepOf op).apply (σ.read p) 1.0) hσ hp.has
    cases before with
    | true => exact (hload.append hchange).append hstore
    | false =>
      have hold := ((hload.append hchange).append hstore).append .drop
      have hcode := hload.append (hold.frame [.f64 (σ.read p)])
      simp only [← append_assoc] at hcode
      exact hcode

theorem assign_yields (hp : Names scope targetId p) (h : Yields scope (r value) t .f64) :
    Yields scope (Gen.assignment r node .assign targetId value) (.assign p t) .f64 := by
  obtain ⟨target, htarget⟩ := Gen.variableTarget_eq node "only variables can be assigned" hp
  refine fun m => Produces.known (htarget m) (Produces.bind (h m) fun code n hturns => .known Gen.store_eq ?_)
  refine .pure fun σ hσ => ?_
  exact (hturns σ hσ).append (store_turns (t.eval_fits hσ) hp.has)

theorem assignWith_yields {op : AssignmentOperator} {binary : BinaryOperator} (hbinary : op.binary? = some binary)
    (hop : Arithmetic.of? binary = some a) (hp : Names scope targetId p) (h : Yields scope (r value) t .f64) :
    Yields scope (Gen.assignment r node op targetId value) (.assignWith a p t) .f64 := by
  obtain ⟨target, htarget⟩ := Gen.variableTarget_eq node "only variables can be assigned" hp
  have hne : op ≠ .assign := by
    rintro rfl
    cases hbinary
  refine fun m => Produces.known (htarget m) ?_
  simp only [if_neg hne, hbinary]
  refine Produces.known Gen.load_eq (Produces.bind (h m) fun code n hturns => .known (Gen.arithmetic_eq hop) ?_)
  refine .known rfl (.known Gen.store_eq (.pure fun σ hσ => ?_))
  have hoperands := (load_turns hσ hp.has).append ((hturns σ hσ).frame [.f64 (σ.read p)])
  exact (hoperands.append arithmetic_turns).append (store_turns (t.eval_fits hσ) hp.has)

theorem conditional_yields {g₁ g₂ g₃ : Gen Code} {c a : Formula} (ht : Yields scope g₁ t fun x => .truth (truthy x))
    (hc : Yields scope g₂ c .f64) (ha : Yields scope g₃ a .f64) :
    Yields scope (do
      let test ← g₁
      let consequent ← g₂
      let alternate ← g₃
      return test ++ [.ifElse true consequent alternate]) (.conditional t c a) .f64 := by
  refine fun m => Produces.bind (ht m) fun test n₁ ht => Produces.bind (hc n₁) fun consequent n₂ hc => ?_
  refine Produces.bind (ha n₂) fun alternate n₃ ha => .pure fun σ hσ => ?_
  have hc := hc _ (t.eval_fits hσ)
  have ha := ha _ (t.eval_fits hσ)
  refine (ht σ hσ).append (.ifElse (Nat.le_trans hc.1 ha.1) (fun htrue => ?_) fun hfalse => ?_)
  · simpa [Formula.eval, htrue] using hc.weaken (Nat.le_refl n₁) ha.1
  · simpa [Formula.eval, hfalse] using ha.weaken hc.1 (Nat.le_refl n₃)

theorem sequence_yields {ids : List NodeId} (hr : ∀ c ∈ ids, Handles scope r c) (h : Reads scope (.row ids) t) :
    Yields scope (Gen.sequence r node ids) t .f64 := by
  induction ids generalizing t with
  | nil => cases h
  | cons id ids ih =>
    obtain ⟨hid, hids⟩ := forall_mem_cons.1 hr
    cases h with
    | last h => exact (hid _ h).1
    | next h hrest =>
      refine fun m => Produces.bind ((hid _ h).1 m) fun first n hturns => ?_
      refine Produces.bind (ih hids hrest n) fun rest k hturns' => .pure fun σ hσ => ?_
      exact (hturns σ hσ).append (.append .drop (hturns' _ (Formula.eval_fits _ hσ)))

theorem literal_yields {value : Float} (h : scope.module.kind? id = some kind) (hvalue : literal? kind = some value) :
    Yields scope (Gen.exprStep r id) (.literal value) .f64 := by
  have hconst : Yields scope (pure [.const value]) (.literal value) .f64 := .of_pure fun m σ _ => .const value
  refine .of_node h fun nodeId span type synthetic => ?_
  cases kind <;> cases hvalue <;> exact hconst

theorem name_yields (h : Names scope id p) : Yields scope (Gen.exprStep r id) (.name p) .f64 := by
  have hp := h.has
  obtain ⟨name, binding, hkind, hslot⟩ := h
  refine .of_node hkind fun nodeId span type synthetic m => ?_
  -- A bound name is never one of the global numbers.
  have hbound : (Kind.identifier name binding).globalNumber? = none := by
    obtain ⟨declaration, rfl, -⟩ := Option.bind_eq_some_iff.1 hslot
    simp [Kind.globalNumber?]
  refine ⟨loadCode p, m, ?_, fun σ hσ => load_turns hσ hp⟩
  simp only [hbound]
  exact bind_ok.2 ⟨p.slot, m, Gen.slot_eq hslot, Gen.load_eq⟩

theorem exprStep_yields (hr : ∀ c ∈ childrenAt scope.module id, Handles scope r c) (h : Reads scope (.expr id) t) :
    Yields scope (Gen.exprStep r id) t .f64 := by
  have child {kind : Kind} {c : NodeId} {s : Formula} (hkind : scope.module.kind? id = some kind)
      (hc : c ∈ kind.childList) (hs : Reads scope (.expr c) s) :
      Yields scope (r c) s .f64 ∧ Yields scope (Gen.condition r c) s fun x => .truth (truthy x) :=
    hr c ((mem_childrenAt hkind).2 hc) s hs
  cases h with
  | literal hkind hvalue => exact literal_yields hkind hvalue
  | name hname => exact name_yields hname
  | arithmetic hkind hop hl hq =>
    have hright := child hkind (.tail _ (.head _)) hq
    exact .of_node hkind fun _ _ _ _ => arithmetic_yields hop (child hkind (.head _) hl).1 hright.1
  | comparison hkind hop hl hq =>
    have hright := child hkind (.tail _ (.head _)) hq
    exact .of_node hkind fun _ _ _ _ => comparison_yields hop (child hkind (.head _) hl).1 hright.1
  | and hkind hl hq =>
    have hright := child hkind (.tail _ (.head _)) hq
    exact .of_node hkind fun _ _ _ _ => logical_yields true (child hkind (.head _) hl).1 hright.1
  | or hkind hl hq =>
    have hright := child hkind (.tail _ (.head _)) hq
    exact .of_node hkind fun _ _ _ _ => logical_yields false (child hkind (.head _) hl).1 hright.1
  | neg hkind ht =>
    refine .of_node hkind fun _ _ _ _ => (child hkind (.head _) ht).1.snoc (fun _ => rfl) fun n σ => ?_
    exact .single fun _ _ _ => rfl
  | plus hkind ht => exact .of_node hkind fun _ _ _ _ => (child hkind (.head _) ht).1
  | not hkind ht =>
    refine .of_node hkind fun _ _ _ _ => (child hkind (.head _) ht).2.snoc (fun _ => rfl) fun n σ => ?_
    exact .append .isZero .toFloat
  | void hkind ht =>
    refine .of_node hkind fun _ _ _ _ => (child hkind (.head _) ht).1.snoc (fun _ => rfl) fun n σ => ?_
    exact .append .drop (.const (0.0 / 0.0))
  | update hkind hp => exact .of_node hkind fun _ _ _ _ => update_yields hp
  | assign hkind hp ht =>
    exact .of_node hkind fun _ _ _ _ => assign_yields hp (child hkind (.tail _ (.head _)) ht).1
  | assignWith hkind hbinary hop hp ht =>
    exact .of_node hkind fun _ _ _ _ => assignWith_yields hbinary hop hp (child hkind (.tail _ (.head _)) ht).1
  | conditional hkind ht hc ha =>
    have halternate := child hkind (.tail _ (.tail _ (.head _))) ha
    exact .of_node hkind fun _ _ _ _ => conditional_yields (child hkind (.head _) ht).2
      (child hkind (.tail _ (.head _)) hc).1 halternate.1
  | sequence hkind ht =>
    exact .of_node hkind fun _ _ _ _ => sequence_yields (fun c hc => hr c ((mem_childrenAt hkind).2 hc)) ht

theorem comparison_or_none (h : Reads scope (.expr id) t) :
    (∃ op left right c l q, scope.module.kind? id = some (.binary op left right) ∧ Comparison.of? op = some c ∧
        Reads scope (.expr left) l ∧ Reads scope (.expr right) q ∧ t = .comparison c l q) ∨
      ∃ kind, scope.module.kind? id = some kind ∧ Gen.comparison? kind = none := by
  cases h with
  | comparison hkind hop hl hq => exact .inl ⟨_, _, _, _, _, _, hkind, hop, hl, hq, rfl⟩
  | @literal _ kind value hkind hvalue => exact .inr ⟨kind, hkind, by cases kind <;> first | rfl | cases hvalue⟩
  | name hname =>
    obtain ⟨name, binding, hkind, -⟩ := hname
    exact .inr ⟨_, hkind, rfl⟩
  | @arithmetic _ op left right a l q hkind hop => exact .inr ⟨_, hkind, by cases op <;> first | rfl | cases hop⟩
  | and hkind | or hkind | neg hkind | plus hkind | not hkind | void hkind | update hkind | assign hkind
  | assignWith hkind | conditional hkind | sequence hkind => exact .inr ⟨_, hkind, rfl⟩

theorem condition_yields (hid : Yields scope (r id) t .f64)
    (hr : ∀ c ∈ childrenAt scope.module id, Handles scope r c) (h : Reads scope (.expr id) t) :
    Yields scope (Gen.condition r id) t fun x => .truth (truthy x) := by
  obtain ⟨op, left, right, c, l, q, hkind, hop, hl, hq, rfl⟩ | ⟨kind, hkind, hnone⟩ := comparison_or_none h
  · have hleft := hr left ((mem_childrenAt hkind).2 (.head _)) _ hl
    have hright := hr right ((mem_childrenAt hkind).2 (.tail _ (.head _))) _ hq
    refine .of_node hkind fun nodeId span type synthetic => ?_
    have hcomparison : Gen.comparison? (.binary op left right) = some (op, left, right) := by
      cases op <;> cases hop <;> rfl
    simp only [hcomparison]
    exact compare_yields hop hleft.1 hright.1
  · refine .of_node hkind fun nodeId span type synthetic => ?_
    simp only [hnone]
    exact truthy_yields hid

end Formulas

theorem Gen.expr_handles {scope : NumericScope} (h : Reads scope (.expr id) t) :
    Handles scope (Gen.expr scope.module.levels) id := by
  have hacc := h.acc id (mem_singleton_self id)
  refine IdMap.descent (Q := fun fuel id => ∀ depth ≥ fuel, Handles scope (Gen.expr depth) id)
    (fun x c => mem_nodes_of_childrenAt) (fun fuel id ih depth hdepth t ht => ?_)
    (fun _ => not_transGen_of_acc hacc) _ (Nat.le_refl _)
  obtain ⟨depth, rfl⟩ : ∃ d, depth = d + 1 := ⟨depth - 1, by omega⟩
  have hvalue : Yields scope (Gen.expr (depth + 1) id) t .f64 :=
    exprStep_yields (fun c hc => ih c hc depth (by omega)) ht
  exact ⟨hvalue, condition_yields hvalue (fun c hc => ih c hc (depth + 1) (by omega)) ht⟩

/-- **Generated expressions compute their values.** The code of an expression ends in exactly one way: with the value
on the stack and the slots and the globals as the evaluation from left to right leaves them. Of the scratch locals,
those that were taken before keep what they hold. -/
theorem expr_runs_iff {scope : NumericScope} {id : NodeId} {t : Formula} (h : Reads scope (.expr id) t) (m : Nat) :
    ∃ code n, Gen.expr scope.module.levels id scope m = .ok (code, n) ∧
      ∀ (b : Binary) (σ : Store) (scratch : List Float) (below : List Value), σ.Fits scope → n ≤ scratch.length →
        ∃ scratch', scratch'.length = scratch.length ∧ (∀ j < m, scratch'[j]? = scratch[j]?) ∧
          ∀ o s', Runs b code ⟨below, σ.locals ++ scratch, σ.globals⟩ o s' ↔
            o = .next ∧ s' = ⟨.f64 (t.eval σ).1 :: below, (t.eval σ).2.locals ++ scratch', (t.eval σ).2.globals⟩ := by
  obtain ⟨code, n, hcode, hturns⟩ := (Gen.expr_handles h t h).1 m
  refine ⟨code, n, hcode, fun b σ scratch below hσ hn => ?_⟩
  obtain ⟨scratch', hlength, hkept, hruns⟩ := (hturns σ hσ).2 b scratch below hn
  refine ⟨scratch', hlength, hkept, fun o s' => ⟨fun h => ?_, ?_⟩⟩
  · exact h.unique hruns
  · rintro ⟨rfl, rfl⟩
    exact hruns

namespace Guarded

/-- `x && (g += x, x++)`, where `x` is a parameter and `g` is a global. -/
def scope : NumericScope where
  module := .numbered [.identifier "x" (some 10), .identifier "g" (some 11), .identifier "x" (some 10),
    .assign .addAssign 2 3, .identifier "x" (some 10), .update .increment false 5, .sequence [4, 6],
    .logical .and 1 7] []
  plan := ⟨[], [(11, "g")], none⟩
  function := ⟨9, "f", [10], [], []⟩

def formula : Formula :=
  .and (.name (.local 0)) <|
    .sequence (.assignWith .add (.global 0) (.name (.local 0))) (.update .increment false (.local 0))

theorem names_x (h : scope.module.kind? id = some (.identifier "x" (some 10))) :
    Names scope id (.local 0) := ⟨_, _, h, by decide +kernel⟩

theorem reads : Reads scope (.expr 8) formula := by
  have hand : scope.module.kind? 8 = some (.logical .and 1 7) := by decide +kernel
  have hrow : scope.module.kind? 7 = some (.sequence [4, 6]) := by decide +kernel
  have hassign : scope.module.kind? 4 = some (.assign .addAssign 2 3) := by decide +kernel
  have hupdate : scope.module.kind? 6 = some (.update .increment false 5) := by decide +kernel
  have hg : Names scope 2 (.global 0) := ⟨"g", some 11, by decide +kernel, by decide +kernel⟩
  refine .and hand (.name (names_x (by decide +kernel))) (.sequence hrow (.next ?_ (.last ?_)))
  · exact .assignWith hassign rfl rfl hg (.name (names_x (by decide +kernel)))
  · exact .update hupdate (names_x (by decide +kernel))

theorem expr_runs : Reads scope (.expr 8) formula ∧ ∀ b, ∃ code n,
    Gen.expr scope.module.levels 8 scope 0 = .ok (code, n) ∧
      ∃ scratch, Runs b code ⟨[], 3.0 :: replicate n 0.0, [7.0]⟩ .next ⟨[.f64 3.0], 4.0 :: scratch, [10.0]⟩ := by
  refine ⟨reads, fun b => ?_⟩
  obtain ⟨code, n, hcode, hruns⟩ := expr_runs_iff reads 0
  obtain ⟨scratch, -, -, hruns⟩ := hruns b ⟨[3.0], [7.0]⟩ (replicate n 0.0) [] ⟨rfl, rfl⟩ (by simp)
  have heval : formula.eval ⟨[3.0], [7.0]⟩ = (3.0, ⟨[4.0], [10.0]⟩) := by decide +kernel
  rw [heval] at hruns
  exact ⟨code, n, hcode, scratch, (hruns _ _).2 ⟨rfl, rfl⟩⟩

end Guarded

end Wasm

end Retarget
