import Retarget.Proofs.Wasm.Expression
import Retarget.Wasm.Statement

/-!
# The types of generated statements

The code of a statement takes nothing from the stack and leaves nothing there. The blocks that are open
around a statement are counted by its labels, and each of them can be left with an empty stack; so a jump to
a label always has a block to leave. Code after a jump is never run, and it has every type.

Main statement: `StmtGen.stmt_keeps`.
-/

namespace Retarget.Wasm

/-- A context in which the given blocks are open around a statement. -/
structure Surrounds (C : Context) (scope : NumericScope) (returns : Bool) (labels : Labels)
    (scratch : Nat) : Prop extends Fits C scope scratch where
  label_type : ∀ l < labels.length, C.labels[l]? = some []
  result_type : returns = true → C.result = [.f64]

namespace Surrounds

variable {C : Context} {scope : NumericScope} {returns : Bool} {labels : Labels} {s t : Nat}

theorem mono (h : Surrounds C scope returns labels t) (hst : s ≤ t) : Surrounds C scope returns labels s :=
  { h.toFits.mono hst with label_type := h.label_type, result_type := h.result_type }

theorem open_block (h : Surrounds C scope returns labels s) (label : Label) :
    Surrounds (C.inside []) scope returns (label :: labels) s where
  toFits := h.toFits.inside []
  label_type
    | 0, _ => rfl
    | l + 1, hl => h.label_type l (Nat.lt_of_succ_lt_succ hl)
  result_type := h.result_type

end Surrounds

/-- Code of statements that was generated while the counter of scratch locals went from `s` to `t`: it has
its type in every context in which the blocks around it are open. -/
structure Keeps (scope : NumericScope) (returns : Bool) (labels : Labels) (s t : Nat) (code : Code) : Prop where
  le : s ≤ t
  hasType : ∀ C, Surrounds C scope returns labels t → Code.HasType C code [] []

variable {C : Context}

namespace Keeps

variable {scope : NumericScope} {returns : Bool} {labels : Labels} {s t u : Nat} {a b : Code}

theorem nil : Keeps scope returns labels s s [] := ⟨Nat.le_refl s, fun _ _ => .nil⟩

theorem append (ha : Keeps scope returns labels s t a) (hb : Keeps scope returns labels t u b) :
    Keeps scope returns labels s u (a ++ b) :=
  ⟨Nat.le_trans ha.le hb.le, fun C hC => (ha.hasType C (hC.mono hb.le)).append (hb.hasType C hC)⟩

theorem of_nets (h : Nets scope s t a [] []) : Keeps scope returns labels s t a :=
  ⟨h.le, fun C hC => h.hasType C hC.toFits⟩

theorem inside {label : Label} (h : Keeps scope returns (label :: labels) s t a)
    (hC : Surrounds C scope returns labels u) (htu : t ≤ u) : Code.HasType (C.inside []) a [] [] :=
  h.hasType _ ((hC.mono htu).open_block label)

end Keeps

namespace StmtGen

open Surrounded Gen

variable {scope : NumericScope} {returns : Bool} {labels : Labels} {s t : Nat} {α : Type} {g : Gen α} {a : α}
  {node : Node} {reason : String} {ids : List NodeId} {l : Nat} {bodyId : NodeId} {init update : Option NodeId}

theorem lift_ok : lift labels g scope s = .ok (a, t) ↔ g scope s = .ok (a, t) := Except.mapError_eq_ok

theorem unsupported_ok : ¬unsupported labels node reason scope s = .ok (a, t) := nofun

/-- Generators whose expressions leave one double and whose statements leave nothing. -/
structure Sound (scope : NumericScope) (returns : Bool) (r : Generators) : Prop where
  expr : Gen.LeavesDouble scope r.expr
  stmt : ∀ labels id s t code, r.stmt labels id scope s = .ok (code, t) →
    Keeps scope returns labels s t code

/-- The code of a generator of statements has its type where the given blocks are open. -/
def Leaves (scope : NumericScope) (returns : Bool) (labels : Labels) (s : Nat) (g : StmtGen Code) : Prop :=
  Ensures g scope s fun code t => Keeps scope returns labels s t code

theorem lift_ensures {post : α → Nat → Prop} (h : Ensures g scope s post) : Ensures (lift labels g) scope s post :=
  fun t a hg => h t a (lift_ok.1 hg)

theorem unsupported_leaves {l : Labels} : Leaves scope returns labels s (unsupported l node reason) :=
  fun _ _ h => absurd h unsupported_ok

theorem nil_leaves : Leaves scope returns labels s (pure []) := .pure .nil

variable {r : Generators} (hr : Sound scope returns r)

include hr

theorem Sound.leaves (id : NodeId) : Leaves scope returns labels s (r.stmt labels id) := hr.stmt labels id s

theorem statements_leaves : Leaves scope returns labels s (statements r labels ids) :=
  (Ensures.mapM (P := fun _ s codes t => Keeps scope returns labels s t codes.flatten) (fun _ => .nil)
    fun id _ _ u code hcode _ _ => (hr.leaves id u code hcode).append).bind fun _ _ h => .pure h

variable {id : NodeId} {test : Option NodeId}

theorem body_leaves : Leaves scope returns labels s (body r labels id) := by
  refine .read_bind ?_
  split
  · exact statements_leaves hr
  · exact .throw

theorem effect_ensures : Ensures (effect r labels id) scope s fun code t => Nets scope s t code [] [] :=
  (lift_ensures hr.expr.emits).bind fun _ _ hv => .pure (hv.snoc fun _ _ => .drop)

theorem effect_leaves : Leaves scope returns labels s (effect r labels id) :=
  (effect_ensures hr).mono fun _ _ => .of_nets

theorem declarator_emits : Gen.Emits scope s (declarator r id) [] [] := by
  refine node_ensures.bind_keep fun node _ => ?_
  split
  case h_1 name init _ =>
    have hrest (v : Code) (u : Nat) (hv : Nets scope s u v [] [.f64]) : Ensures (do
        let slot ← slot node (some node.id)
        return v ++ (← store node slot) ++ [.drop]) scope u fun code t => Nets scope s t code [] [] := by
      refine slot_ensures.bind_keep fun slot hslot => (store_emits hslot).bind fun store t hst => .pure ?_
      exact (hv.append hst).snoc fun _ _ => .drop
    cases init with
    | none => exact const_emits.bind hrest
    | some init => exact hr.expr.emits.bind hrest
  case h_2 => exact .throw

theorem declaration_ensures :
    Ensures (ids.mapM (declarator r)) scope s fun codes t => Nets scope s t codes.flatten [] [] :=
  Ensures.mapM (P := fun _ s codes t => Nets scope s t codes.flatten [] []) (fun _ => .nil)
    fun _ _ _ u code hcode _ _ => (declarator_emits hr u code hcode).append

/-! ## Jumps and branches -/

omit hr in
theorem br_hasType (h : C.labels[l]? = some []) : Code.HasType C [.br l] [] [] :=
  .cons [] (.br h : Instr.HasType C (.br l) ([] ++ []) []) .nil

omit hr in
theorem jump_leaves {wanted : Label} : Leaves scope returns labels s (jump labels node wanted reason) := by
  unfold jump
  split
  case h_1 depth hi =>
    obtain ⟨hlt, -⟩ := List.idxOf?_eq_some_iff.1 hi
    exact .pure ⟨Nat.le_refl s, fun C hC => br_hasType (hC.label_type depth hlt)⟩
  case h_2 => exact unsupported_leaves

theorem test_ensures : Ensures (lift labels (condition r.expr id)) scope s fun code t =>
    Nets scope s t code [] [.i32] :=
  lift_ensures (condition_emits hr.expr)

theorem ifStatement_leaves {test consequent : NodeId} {alternate : Option NodeId} :
    Leaves scope returns labels s (ifStatement r labels test consequent alternate) := by
  refine (test_ensures hr).bind fun c u hc => (body_leaves hr).bind fun a u₁ ha => ?_
  cases alternate with
  | none =>
    refine .pure ⟨Nat.le_trans hc.le ha.le, fun C hC => (hc.hasType C (hC.mono ha.le).toFits).append ?_⟩
    exact .single (.ifThen (ha.inside hC (Nat.le_refl _))) []
  | some alternate =>
    refine (body_leaves hr).bind fun b u₂ hb => ?_
    have hle := Nat.le_trans ha.le hb.le
    refine .pure ⟨Nat.le_trans hc.le hle, fun C hC => (hc.hasType C (hC.mono hle).toFits).append ?_⟩
    exact .single (.ifElse rfl (ha.inside hC hb.le) (hb.inside hC (Nat.le_refl _))) []

/-! ## Loops -/

omit hr in
theorem exit_hasType {test : Code} (h : C.labels[l]? = some []) (ht : Code.HasType C test [] [.i32]) :
    Code.HasType C (test ++ [.isZero, .brIf l]) [] [] :=
  ht.append (.cons [] .isZero (.cons [] (.brIf h) .nil))

theorem whileStatement_leaves {test : NodeId} :
    Leaves scope returns labels s (whileStatement r labels test bodyId) := by
  refine (test_ensures hr).bind fun c u hc => (body_leaves hr).bind fun b t hb => .pure ?_
  refine ⟨Nat.le_trans hc.le hb.le, fun C hC => .single (.block (.single (.loop ?_) [])) []⟩
  have hin := (hC.open_block .breakTo).open_block .continueTo
  have exit := exit_hasType (l := 1) rfl (hc.hasType _ (hin.mono hb.le).toFits)
  exact (exit.append (hb.hasType _ hin)).append (br_hasType rfl)

theorem doWhileStatement_leaves {test : NodeId} :
    Leaves scope returns labels s (doWhileStatement r labels bodyId test) := by
  refine (body_leaves hr).bind fun b u hb => (test_ensures hr).bind fun c t hc => .pure ?_
  refine ⟨Nat.le_trans hb.le hc.le, fun C hC => .single (.block (.single (.loop ?_) [])) []⟩
  have hin := (hC.open_block .breakTo).open_block .other
  have back : Instr.HasType ((C.inside []).inside []) (.brIf 0) ([] ++ [.i32]) [] := .brIf rfl
  exact .cons [] (.block (hb.inside hin hc.le)) ((hc.hasType _ hin.toFits).snoc back)

theorem forInit_leaves : Leaves scope returns labels s (forInit r labels init) := by
  cases init with
  | none => exact nil_leaves
  | some id =>
    refine (lift_ensures node_ensures).bind_keep fun node _ => ?_
    split
    · exact hr.leaves id
    · exact effect_leaves hr

theorem forTest_leaves {l k : Label} :
    Leaves scope returns (l :: k :: labels) s (forTest r (l :: k :: labels) test) := by
  cases test with
  | none => exact nil_leaves
  | some test =>
    refine (test_ensures hr).bind fun c t hc => .pure ⟨hc.le, fun C hC => ?_⟩
    exact exit_hasType (hC.label_type 1 (by simp)) (hc.hasType C hC.toFits)

theorem forUpdate_leaves : Leaves scope returns labels s (forUpdate r labels update) := by
  cases update with
  | none => exact nil_leaves
  | some update => exact effect_leaves hr

theorem forStatement_leaves : Leaves scope returns labels s (forStatement r labels init test update bodyId) := by
  refine (forInit_leaves hr).bind fun i u hi => (forTest_leaves hr).bind fun c u₁ hc => ?_
  refine (body_leaves hr).bind fun b u₂ hb => (forUpdate_leaves hr).bind fun a t ha => .pure ?_
  have hle := Nat.le_trans hb.le ha.le
  refine hi.append ⟨Nat.le_trans hc.le hle, fun C hC => .single (.block (.single (.loop ?_) [])) []⟩
  have hin := (hC.open_block .breakTo).open_block .other
  have round := Code.HasType.cons [] (.block (hb.inside hin ha.le)) (ha.hasType _ hin)
  exact ((hc.hasType _ (hin.mono hle)).append round).append (br_hasType rfl)

/-! ## All statements -/

theorem returnStatement_leaves {argument : Option NodeId} :
    Leaves scope returns labels s (returnStatement returns r labels node argument) := by
  cases returns with
  | false => exact Ensures.throw_bind
  | true =>
    have ret_hasType {C : Context} (hC : C.result = [.f64]) : Instr.HasType C .ret [.f64] [] := by
      have h : Instr.HasType C .ret ([] ++ C.result) [] := .ret
      rwa [hC] at h
    cases argument with
    | none =>
      refine .pure ⟨Nat.le_refl s, fun C hC => ?_⟩
      exact .cons [] .const (.cons [] (ret_hasType (hC.result_type rfl)) .nil)
    | some argument =>
      refine (lift_ensures hr.expr.emits).bind fun v t hv => .pure ⟨hv.le, fun C hC => ?_⟩
      exact (hv.hasType C hC.toFits).snoc (ret_hasType (hC.result_type rfl))

theorem stmtStep_leaves : Leaves scope returns labels s (stmtStep returns r labels id) := by
  refine (lift_ensures node_ensures).bind_keep fun node _ => ?_
  split
  case h_1 => exact effect_leaves hr
  case h_2 => exact lift_ensures ((declaration_ensures hr).bind fun _ _ h => .pure (.of_nets h))
  case h_3 => exact statements_leaves hr
  case h_4 => exact nil_leaves
  case h_5 => exact ifStatement_leaves hr
  case h_6 => exact whileStatement_leaves hr
  case h_7 => exact doWhileStatement_leaves hr
  case h_8 => exact forStatement_leaves hr
  case h_9 | h_10 => exact jump_leaves
  case h_11 => exact returnStatement_leaves hr
  all_goals exact unsupported_leaves

omit hr in
/-- **The code of a statement leaves the stack as it was.** Induction on the depth, with one lemma for each
kind of statement. -/
theorem stmt_keeps {expr : NodeId → Gen Code} (he : Gen.LeavesDouble scope expr) (depth : Nat)
    (labels : Labels) (id : NodeId) (s t : Nat) (code : Code)
    (h : stmt returns expr depth labels id scope s = .ok (code, t)) : Keeps scope returns labels s t code := by
  induction depth generalizing labels id s t code with
  | zero => exact absurd h throw_ok
  | succ depth ih => exact stmtStep_leaves ⟨he, ih⟩ t code h

end StmtGen

end Retarget.Wasm
