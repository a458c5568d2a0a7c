import Retarget.Proofs.Numeric.Plan
import Retarget.Proofs.Wasm.Typing
import Retarget.Wasm.Value

/-!
# The types of generated expressions

The code of an expression leaves one double on the stack and the code of a condition one truth value, in
every context that has the slots of the function, the scratch locals taken so far, the globals and the
functions of the layout. The counter of scratch locals only grows, so code generated earlier stays valid when
later code takes more of them.

Main statements: `Gen.expr_nets` and `Gen.condition_nets`.
-/

namespace Retarget

open Option

/-! ## Slots are in range -/

variable {scope : NumericScope} {slot : Slot} {binding : Option NodeId}

namespace NumericScope

def Has (scope : NumericScope) : Slot → Prop
  | .local i => i < scope.function.slotCount
  | .global i => i < scope.plan.globals.length
  | .function i => i < scope.plan.functions.length

theorem has_of_slot? (h : scope.slot? binding = some slot) : scope.Has slot := by
  obtain ⟨id, -, h⟩ := bind_eq_some_iff.1 h
  have hslot := NumericPlan.binding?_of_resolve? h
  cases slot <;> simpa [Has, NumericFunction.slotCount] using (List.getElem?_eq_some_iff.1 hslot).1

end NumericScope

namespace Wasm

/-! ## Contexts that fit a function -/

/-- A context that has what the code of a function can refer to, with room for `scratch` scratch locals. -/
structure Fits (C : Context) (scope : NumericScope) (scratch : Nat) : Prop where
  locals_le : scope.function.slotCount + scratch ≤ C.locals
  globals_eq : C.globals = scope.plan.globals.length
  function_type : ∀ (i : Nat) (f : NumericFunction), scope.plan.functions[i]? = some f →
    C.functions[i]? = some (Signature.mk f.params.length true)

variable {C : Context}

theorem Fits.mono {s t : Nat} (h : Fits C scope t) (hst : s ≤ t) : Fits C scope s :=
  ⟨by have := h.locals_le; omega, h.globals_eq, h.function_type⟩

theorem Fits.inside {s : Nat} (h : Fits C scope s) (label : List ValType) : Fits (C.inside label) scope s :=
  ⟨h.locals_le, h.globals_eq, h.function_type⟩

/-- Code that was generated while the counter of scratch locals went from `s` to `t`, with the types that it
takes and leaves in every context that fits. -/
structure Nets (scope : NumericScope) (s t : Nat) (code : Code) (ts us : List ValType) : Prop where
  le : s ≤ t
  hasType : ∀ C, Fits C scope t → Code.HasType C code ts us

namespace Nets

variable {scope : NumericScope} {s t u : Nat} {a b : Code} {ts us vs : List ValType}

theorem of_hasType (h : ∀ C, Fits C scope s → Code.HasType C a ts us) : Nets scope s s a ts us :=
  ⟨Nat.le_refl s, h⟩

theorem nil : Nets scope s s [] ts ts := .of_hasType fun _ _ => .nil

theorem append (ha : Nets scope s t a ts us) (hb : Nets scope t u b us vs) : Nets scope s u (a ++ b) ts vs :=
  ⟨Nat.le_trans ha.le hb.le, fun C hC => (ha.hasType C (hC.mono hb.le)).append (hb.hasType C hC)⟩

theorem frame (h : Nets scope s t a ts us) (below : List ValType) : Nets scope s t a (below ++ ts) (below ++ us) :=
  ⟨h.le, fun C hC => (h.hasType C hC).frame below⟩

theorem snoc {i : Instr} (h : Nets scope s t a ts us)
    (hi : ∀ C, Fits C scope t → Instr.HasType C i us vs) : Nets scope s t (a ++ [i]) ts vs :=
  ⟨h.le, fun C hC => (h.hasType C hC).snoc (hi C hC)⟩

theorem drop (h : Nets scope s t a [] us) {type : ValType} : Nets scope s t (.drop :: a) [type] us :=
  ⟨h.le, fun C hC => .cons [] .drop (h.hasType C hC)⟩

end Nets

/-! ## Parts of expressions -/

namespace Gen

open Surrounded

/-- The code of a generator takes the types `ts` from the stack and leaves `us` there. -/
def Emits (scope : NumericScope) (s : Nat) (g : Gen Code) (ts us : List ValType) : Prop :=
  Ensures g scope s fun code t => Nets scope s t code ts us

variable {scope : NumericScope} {s t : Nat} {node : Node} {id : NodeId} {op : BinaryOperator}

theorem node_ok (h : Gen.node id scope s = .ok (node, t)) : scope.module.find .wasm id = .ok node ∧ s = t := by
  obtain ⟨v, u, hv, h⟩ := bind_ok.1 h
  obtain ⟨rfl, rfl⟩ := read_ok.1 hv
  exact lift_ok.1 h

theorem node_ensures : Ensures (Gen.node id) scope s fun _ t => True ∧ s = t :=
  fun _ _ h => ⟨trivial, (node_ok h).2⟩

theorem temp_ensures : Ensures temp scope s fun i t => scope.function.slotCount + s = i ∧ s + 1 = t := by
  intro t i h
  obtain ⟨v, u, hv, h⟩ := bind_ok.1 h
  obtain ⟨rfl, rfl⟩ := get_ok.1 hv
  obtain ⟨_, u, hu, h⟩ := bind_ok.1 h
  obtain rfl := set_ok.1 hu
  obtain ⟨w, u', hw, h⟩ := bind_ok.1 h
  obtain ⟨rfl, rfl⟩ := read_ok.1 hw
  exact pure_ok.1 h

theorem slot_ensures : Ensures (Gen.slot node binding) scope s fun slot t => scope.Has slot ∧ s = t := by
  refine .read_bind fun t slot h => ?_
  obtain ⟨hs, rfl⟩ := lift_ok.1 h
  unfold NumericScope.slot at hs
  split at hs
  case h_1 slot' hslot =>
    obtain rfl := Except.ok.inj hs
    exact ⟨NumericScope.has_of_slot? hslot, rfl⟩
  case h_2 => cases hs

theorem scratch_lt {n : Nat} (hC : Fits C scope t) (hn : n < t) : scope.function.slotCount + n < C.locals := by
  have := hC.locals_le
  omega

theorem local_lt {i : Nat} (hC : Fits C scope s) (hi : scope.Has (.local i)) : i < C.locals :=
  Nat.lt_of_lt_of_le hi (Nat.le_of_add_right_le hC.locals_le)

theorem load_ensures (hs : scope.Has slot) :
    Ensures (load node slot) scope s fun code t => Nets scope s s code [] [.f64] ∧ s = t := by
  cases slot with
  | «local» i => exact .pure ⟨.of_hasType fun C hC => .single (.localGet (local_lt hC hs)) [], rfl⟩
  | global i => exact .pure ⟨.of_hasType fun C hC => .single (.globalGet (hC.globals_eq ▸ hs)) [], rfl⟩
  | function i => exact .throw

theorem store_emits (hs : scope.Has slot) : Emits scope s (store node slot) [.f64] [.f64] := by
  cases slot with
  | «local» i => exact .pure (.of_hasType fun C hC => .single (.localTee (local_lt hC hs)) [])
  | global i =>
    refine .pure (.of_hasType fun C hC => .cons [] (.globalSet (hC.globals_eq ▸ hs)) ?_)
    exact .single (.globalGet (hC.globals_eq ▸ hs)) []
  | function i => exact .throw

theorem truthy_emits : Emits scope s truthy [.f64] [.i32] := by
  refine temp_ensures.bind fun i t hi => .pure ⟨by omega, fun C hC => ?_⟩
  have hi : i < C.locals := hi.1 ▸ scratch_lt hC (by omega)
  exact .cons [] (.localTee hi) <| .cons [.f64] .const <| .cons [] .float <| .cons [.i32] (.localGet hi) <|
    .cons [.i32, .f64] (.localGet hi) <| .cons [.i32] .float <| .cons [] .both .nil

theorem compare_ensures : Ensures (compare node op) scope s fun f t =>
    (f.operands = [.f64, .f64] ∧ f.result = .i32) ∧ s = t := by
  unfold compare
  split
  case h_9 => exact .throw
  all_goals exact .pure ⟨⟨rfl, rfl⟩, rfl⟩

theorem compare_hasType {f : FloatOp} (hf : f.operands = [.f64, .f64] ∧ f.result = .i32) :
    Instr.HasType C (.float f) [.f64, .f64] [.i32] := by
  have h : Instr.HasType C (.float f) f.operands [f.result] := .float
  rwa [hf.1, hf.2] at h

theorem arithmetic_emits : Emits scope s (arithmetic node op) [.f64, .f64] [.f64] := by
  unfold arithmetic
  split
  case h_5 =>
    refine temp_ensures.bind fun a u ha => temp_ensures.bind fun b t hb => .pure ⟨by omega, fun C hC => ?_⟩
    have ha : a < C.locals := ha.1 ▸ scratch_lt hC (by omega)
    have hb : b < C.locals := hb.1 ▸ scratch_lt hC (by omega)
    exact .cons [.f64] (.localSet hb) <| .cons [] (.localSet ha) <| .cons [] (.localGet ha) <|
      .cons [.f64] (.localGet ha) <| .cons [.f64, .f64] (.localGet hb) <| .cons [.f64] .float <|
      .cons [.f64] .float <| .cons [.f64, .f64] (.localGet hb) <| .cons [.f64] .float <|
      .cons [] .float .nil
  case h_6 => exact .throw
  case h_7 =>
    refine compare_ensures.bind_keep fun f hf => .pure (.of_hasType fun C _ => ?_)
    exact .cons [] (compare_hasType hf) <| .cons [] .toFloat .nil
  all_goals exact .pure (.of_hasType fun C _ => .cons [] .float .nil)

/-! ## Expressions -/

/-- A generator of expressions whose code always leaves one double. -/
def LeavesDouble (scope : NumericScope) (r : NodeId → Gen Code) : Prop :=
  ∀ id s t code, r id scope s = .ok (code, t) → Nets scope s t code [] [.f64]

variable {r : NodeId → Gen Code} (hr : LeavesDouble scope r) {items : List ListItem} {argument : NodeId} {before : Bool}
  {i : Intrinsic}

include hr

theorem LeavesDouble.emits : Emits scope s (r id) [] [.f64] := hr id s

theorem condition_emits : Emits scope s (condition r id) [] [.i32] := by
  refine node_ensures.bind_keep fun node _ => ?_
  split
  case h_1 op left right _ =>
    refine hr.emits.bind fun l u hl => hr.emits.bind fun q t hq => ?_
    refine compare_ensures.bind_keep fun f hf => .pure ?_
    exact (hl.append (hq.frame [.f64])).snoc fun _ _ => compare_hasType hf
  case h_2 =>
    exact hr.emits.bind fun value u hv => truthy_emits.bind fun test t ht => .pure (hv.append ht)

theorem condition_nets {code : Code} (h : condition r id scope s = .ok (code, t)) : Nets scope s t code [] [.i32] :=
  condition_emits hr t code h

omit hr in
theorem variableTarget_ensures {reason : String} :
    Ensures (variableTarget node reason id) scope s fun result t => scope.Has result.2 ∧ s = t := by
  refine node_ensures.bind_keep fun target _ => ?_
  split
  · exact slot_ensures.bind fun slot t h => .pure h
  · exact .throw

omit hr in
theorem change_nets {change load store : Code}
    (hl : Nets scope s s load [] [.f64]) (hc : Nets scope s s change [.f64] [.f64])
    (hst : Nets scope s t store [.f64] [.f64]) :
    Nets scope s t (if before then load ++ change ++ store else load ++ load ++ change ++ store ++ [.drop])
      [] [.f64] := by
  cases before with
  | true => exact (hl.append hc).append hst
  | false =>
    -- the old value stays below the new one until that is stored
    have new := ((hl.append (hl.frame [.f64])).append (hc.frame [.f64])).append (hst.frame [.f64])
    exact ⟨new.le, fun C hC => (new.hasType C hC).append (.single .drop [.f64])⟩

omit hr in
theorem update_emits {op : UpdateOperator} : Emits scope s (update node op before argument) [] [.f64] := by
  refine variableTarget_ensures.bind_keep fun ⟨target, slot⟩ hs => ?_
  refine (load_ensures hs).bind_keep fun load hl => (store_emits hs).bind fun store t hst => .pure ?_
  refine change_nets hl (.of_hasType fun C _ => .cons [.f64] .const ?_) hst
  cases op <;> exact .cons [] .float .nil

theorem assignment_emits {op : AssignmentOperator} {target value : NodeId} :
    Emits scope s (assignment r node op target value) [] [.f64] := by
  refine variableTarget_ensures.bind_keep fun ⟨target, slot⟩ hs => ?_
  have hstore {v : Code} {u : Nat} (hv : Nets scope s u v [] [.f64]) :
      Ensures (store target slot >>= fun code => pure (v ++ code)) scope u fun code t =>
        Nets scope s t code [] [.f64] :=
    (store_emits hs).bind fun store t hst => .pure (hv.append hst)
  dsimp only
  split
  · exact hr.emits.bind fun v u => hstore
  split
  · refine (load_ensures hs).bind_keep fun load hl => hr.emits.bind fun v u hv => ?_
    refine arithmetic_emits.bind fun a t ha => ?_
    exact hstore ((hl.append (hv.frame [.f64])).append ha)
  · exact .throw_bind

theorem logical_emits {op : LogicalOperator} {left right : NodeId} :
    Emits scope s (logical r op left right) [] [.f64] := by
  refine hr.emits.bind fun l u hl => ?_
  split
  · exact .pure hl
  refine temp_ensures.bind fun i u₁ hi => truthy_emits.bind fun test u₂ ht => ?_
  refine hr.emits.bind fun q u₃ hq => ?_
  have htl := ht.le
  have hql := hq.le
  have tested : Nets scope s u₂ (l ++ .localTee i :: test) [] [.i32] :=
    hl.append ⟨by omega, fun C hC => .cons [] (.localTee (hi.1 ▸ scratch_lt hC (by omega))) (ht.hasType C hC)⟩
  have kept (C : Context) (hC : Fits C scope u₃) : Code.HasType (C.inside [.f64]) [.localGet i] [] [.f64] :=
    .single (.localGet (hi.1 ▸ scratch_lt (hC.inside _) (by omega))) []
  by_cases ho : op = .and
  · rw [if_pos ho]
    refine .pure (tested.append ⟨hql, fun C hC => .single (.ifElse rfl ?_ (kept C hC)) []⟩)
    exact hq.hasType _ (hC.inside _)
  · rw [if_neg ho]
    refine .pure (tested.append ⟨hql, fun C hC => .single (.ifElse rfl (kept C hC) ?_) []⟩)
    exact hq.hasType _ (hC.inside _)

theorem unary_emits {op : UnaryOperator} : Emits scope s (unary r node op argument) [] [.f64] := by
  cases op with
  | neg => exact hr.emits.bind fun value t hv => .pure (hv.snoc fun _ _ => .float)
  | plus => exact hr.emits
  | not =>
    refine (condition_emits hr).bind fun value t hv => .pure (hv.append (.of_hasType fun _ _ => ?_))
    exact .cons [] .isZero <| .cons [] .toFloat .nil
  | void =>
    refine hr.emits.bind fun value t hv => .pure (hv.append (.of_hasType fun _ _ => ?_))
    exact .cons [] .drop <| .cons [] .const .nil
  | _ => exact .throw

/-! ## Calls -/

theorem mapM_ensures : Ensures (items.mapM fun item => r item.value) scope s fun codes t =>
    Nets scope s t codes.flatten [] (List.replicate items.length .f64) :=
  Ensures.mapM (P := fun items s codes t => Nets scope s t codes.flatten [] (List.replicate items.length .f64))
    (fun _ => .nil) fun _ _ _ u code hcode _ _ hrest => (hr.emits u code hcode).append (hrest.frame [.f64])

omit hr in
theorem intrinsicCode_nets (hi : i ≠ .pow) : Nets scope s s (intrinsicCode i) (List.replicate i.arity .f64) [.f64] := by
  refine .of_hasType fun C _ => ?_
  cases i
  case pow => exact absurd rfl hi
  case round => exact .cons [.f64] .const <| .cons [] .float <| .cons [] .float .nil
  all_goals exact .cons [] .float .nil

theorem intrinsicCall_emits : Emits scope s (intrinsicCall r node i items) [] [.f64] := by
  unfold intrinsicCall
  dsimp only
  split
  case isTrue => exact .throw_bind
  case isFalse ha =>
    have ha : items.length = i.arity := by simpa using ha
    split
    case isTrue => exact .throw_bind
    case isFalse hp =>
      exact (mapM_ensures hr).bind fun codes t hcodes => .pure ((ha ▸ hcodes).append (intrinsicCode_nets hp))

theorem argumentsCode_emits {arity : Nat} :
    Emits scope s (argumentsCode r arity items) [] (List.replicate arity .f64) := by
  induction items generalizing arity s with
  | nil =>
    refine .pure (.of_hasType fun C _ => ?_)
    induction arity with
    | zero => exact .nil
    | succ arity ih => exact .cons [] .const (ih.frame [.f64])
  | cons item more ih =>
    cases arity with
    | zero => exact hr.emits.bind fun value u hv => ih.bind fun rest t hrest => .pure (hv.append hrest.drop)
    | succ arity =>
      exact hr.emits.bind fun value u hv => ih.bind fun rest t hrest => .pure (hv.append (hrest.frame [.f64]))

theorem call_emits {callee : NodeId} : Emits scope s (call r node callee items) [] [.f64] := by
  refine .read_bind ?_
  dsimp only
  split
  case isTrue => exact .throw_bind
  case isFalse =>
    split
    case h_1 => exact intrinsicCall_emits hr
    case h_2 =>
      refine node_ensures.bind_keep fun target _ => ?_
      split
      case h_2 => exact .throw
      case h_1 =>
        split
        case h_2 => exact .throw
        case h_1 index hs =>
          have hf := List.getElem?_eq_getElem (NumericScope.has_of_slot? hs)
          refine (argumentsCode_emits hr).bind fun args t ha => .pure ?_
          rw [NumericPlan.arity, hf] at ha
          exact ha.snoc fun C hC => .call (hC.function_type _ _ hf)

theorem sequence_emits {ids : List NodeId} : Emits scope s (sequence r node ids) [] [.f64] := by
  induction ids generalizing s with
  | nil => exact .throw
  | cons id more ih =>
    cases more with
    | nil => exact hr.emits
    | cons next more =>
      exact hr.emits.bind fun first u hf => ih.bind fun rest t hrest => .pure (hf.append hrest.drop)

/-! ## All expressions -/

omit hr in
theorem const_emits {value : Float} : Emits scope s (pure [.const value]) [] [.f64] :=
  .pure (.of_hasType fun _ _ => .cons [] .const .nil)

theorem exprStep_emits : Emits scope s (exprStep r id) [] [.f64] := by
  refine node_ensures.bind_keep fun node _ => ?_
  split
  case h_5 =>
    split
    · exact const_emits
    · exact slot_ensures.bind_keep fun slot hslot => (load_ensures hslot).mono fun _ _ h => h.2 ▸ h.1
  case h_6 =>
    refine .read_bind ?_
    split
    · exact const_emits
    · exact .throw
  case h_7 op left right _ =>
    refine hr.emits.bind fun l u hl => hr.emits.bind fun q t hq => ?_
    exact arithmetic_emits.bind fun a t ha => .pure ((hl.append (hq.frame [.f64])).append ha)
  case h_8 => exact logical_emits hr
  case h_9 => exact unary_emits hr
  case h_10 => exact update_emits
  case h_11 => exact assignment_emits hr
  case h_12 test consequent alternate _ =>
    refine (condition_emits hr).bind fun c u hc => hr.emits.bind fun a v ha => ?_
    refine hr.emits.bind fun b t hb => .pure (hc.append ⟨Nat.le_trans ha.le hb.le, fun C hC => ?_⟩)
    have hC := hC.inside [.f64]
    exact .single (.ifElse rfl (ha.hasType _ (hC.mono hb.le)) (hb.hasType _ hC)) []
  case h_13 => exact call_emits hr
  case h_14 => exact sequence_emits hr
  case h_15 => exact .throw
  all_goals exact const_emits

omit hr in
/-- **The code of an expression leaves one double.** Induction on the depth, with one lemma for each kind of
expression. -/
theorem expr_nets {depth : Nat} : LeavesDouble scope (expr depth) := by
  induction depth with
  | zero => exact fun _ _ _ _ h => absurd h throw_ok
  | succ depth ih => exact fun _ _ => exprStep_emits ih

end Gen

end Wasm

end Retarget
