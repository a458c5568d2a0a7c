import Mathlib.Data.String.Basic
import Retarget.Proofs.Wasm.Statement
import Retarget.Wasm.Generate

/-!
# Generated WebAssembly modules are valid

Whatever module is compiled, the binary that comes out passes the validation of WebAssembly. No assumption on
the module is needed: where the generator would go wrong, it reports a problem and there is no binary.

* `Json.sortFields_nodup`: fields that are sorted by name have distinct names.
* `functionBody_hasType`: the body of a function has the type of the function.
* `generate_valid`: the binary is valid, and its functions have the types that the layout gives them.
-/

namespace Retarget

open List Option Retarget.Except

/-! ## Names of exports -/

namespace Json

variable {α : Type}

theorem lastOfEach_sublist (fields : List (String × α)) : (lastOfEach fields).Sublist fields := by
  fun_induction lastOfEach fields with
  | case1 => exact .slnil
  | case2 field => exact .refl _
  | case3 first second rest _ ih => exact ih.cons first
  | case4 first second rest _ ih => exact ih.cons_cons first

variable {fields : List (String × α)}

theorem lastOfEach_pairwise (h : fields.Pairwise fun a b => a.1 ≤ b.1) :
    (lastOfEach fields).Pairwise fun a b => a.1 ≠ b.1 := by
  fun_induction lastOfEach fields with
  | case1 => exact .nil
  | case2 field => exact pairwise_singleton _ _
  | case3 first second rest _ ih => exact ih h.of_cons
  | case4 first second rest hne ih =>
    refine .cons (fun field hfield heq => ?_) (ih h.of_cons)
    -- a later field of this name would force the field in between to have it too
    have hfirst := rel_of_pairwise_cons h (mem_cons_self ..)
    have hsecond : second.1 ≤ field.1 := by
      rcases mem_cons.1 ((lastOfEach_sublist _).subset hfield) with rfl | hrest
      · exact String.le_refl _
      · exact rel_of_pairwise_cons h.of_cons hrest
    exact hne (beq_iff_eq.2 (String.le_antisymm hfirst (heq ▸ hsecond)))

theorem mem_of_mem_sortFields {field : String × α} (h : field ∈ sortFields fields) : field ∈ fields :=
  mem_mergeSort.1 ((lastOfEach_sublist _).subset h)

theorem sortFields_nodup : ((sortFields fields).map Prod.fst).Nodup := by
  rw [List.Nodup, pairwise_map]
  refine lastOfEach_pairwise ?_
  refine (List.pairwise_mergeSort (fun a b c hab hbc => ?_) (fun a b => ?_) fields).imp of_decide_eq_true
  · exact decide_eq_true (String.le_trans (of_decide_eq_true hab) (of_decide_eq_true hbc))
  · simpa using String.le_total a.1 b.1

end Json

/-! ## Bodies of functions -/

theorem gather_eq_ok {ε α : Type} {results : List (Except (List ε) α)} {as : List α}
    (h : gather results = .ok as) : results = as.map .ok := by
  induction results generalizing as with
  | nil =>
    obtain rfl := Except.ok.inj h
    rfl
  | cons result more ih =>
    cases result with
    | ok a =>
      obtain ⟨rest, hrest, rfl⟩ := map_eq_ok.1 h
      rw [ih hrest, map_cons]
    | error errors =>
      rw [gather] at h
      split at h <;> cases h

namespace Wasm

variable {scope : NumericScope} {returns : Bool} {code : Code}

theorem bodyCode_keeps {stmt : Labels → NodeId → StmtGen Code} {labels : Labels} {ids : List NodeId}
    {s t : Nat} (hstmt : ∀ labels id s t code, stmt labels id scope s = .ok (code, t) →
      Keeps scope returns labels s t code)
    (h : bodyCode stmt scope labels s ids = .ok (code, t)) : Keeps scope returns labels s t code := by
  induction ids generalizing labels s code with
  | nil =>
    obtain ⟨rfl, rfl⟩ := Prod.mk.inj (Except.ok.inj h)
    exact .nil
  | cons id more ih =>
    rw [bodyCode] at h
    split at h
    case h_1 first u hfirst =>
      obtain ⟨⟨rest, u'⟩, hrest, heq⟩ := map_eq_ok.1 h
      obtain ⟨rfl, rfl⟩ := Prod.mk.inj heq
      exact (hstmt _ _ _ _ _ hfirst).append (ih hrest)
    case h_2 => split at h <;> cases h

variable {body : Body} {plan : NumericPlan} {m : Module}

theorem functionBody_hasType (h : functionBody scope returns = .ok body) {C : Context}
    (locals_eq : C.locals = scope.function.params.length + body.locals)
    (globals_eq : C.globals = scope.plan.globals.length)
    (function_type : ∀ (i : Nat) (f : NumericFunction), scope.plan.functions[i]? = some f →
      C.functions[i]? = some (Signature.mk f.params.length true))
    (result_eq : C.result = if returns then [.f64] else []) :
    Code.HasType C body.code [] (if returns then [.f64] else []) := by
  obtain ⟨⟨code, scratch⟩, hcode, h⟩ := bind_eq_ok.1 h
  obtain rfl := Except.ok.inj h
  have hkeeps := bodyCode_keeps (StmtGen.stmt_keeps Gen.expr_nets _) hcode
  have hC : Surrounds C scope returns [] scratch := by
    refine ⟨⟨?_, globals_eq, function_type⟩, fun l hl => absurd hl (Nat.not_lt_zero l), fun hr => ?_⟩
    · simp only [locals_eq, NumericFunction.slotCount]
      omega
    · rw [result_eq, if_pos hr]
  cases returns with
  | false => exact hkeeps.hasType C hC
  | true => exact (hkeeps.hasType C hC).snoc .const

/-! ## Modules -/

/-- The types of the functions of a layout, of which the initializer is the last. -/
def functionTypes (plan : NumericPlan) : List Signature :=
  plan.functions.map (fun f => Signature.mk f.params.length true) ++ plan.init.toList.map fun _ => ⟨0, false⟩

/-- The functions of a layout, of which the initializer is the last, and whether they return a value. -/
def members (plan : NumericPlan) : List (NumericFunction × Bool) :=
  plan.functions.map (·, true) ++ plan.init.toList.map (·, false)

theorem functionTypes_eq (h : ∀ f, plan.init = some f → f.params = []) :
    functionTypes plan = (members plan).map fun p => ⟨p.1.params.length, p.2⟩ := by
  rw [functionTypes, members, List.map_append, List.map_map, List.map_map]
  congr 1
  refine map_congr_left fun f hf => ?_
  simp [h f (mem_toList.1 hf)]

section Assemble

variable {plan : NumericPlan} {bodies : List Body} {sig : Signature}

theorem assemble_signature (h : sig ∈ functionTypes plan) :
    (assemble plan bodies).signatures[(assemble plan bodies).signatures.idxOf sig]? = some sig :=
  getElem?_idxOf (mem_eraseDups.2 h)

theorem assemble_types : (assemble plan bodies).types = functionTypes plan := by
  change ((functionTypes plan).map _).filterMap _ = _
  rw [filterMap_map]
  refine (filterMap_congr fun sig hsig => ?_).trans filterMap_some
  exact assemble_signature hsig

theorem assemble_type? (i : Nat) : (assemble plan bodies).type? i = (functionTypes plan)[i]? := by
  change ((functionTypes plan).map _)[i]?.bind _ = _
  rw [getElem?_map]
  cases h : (functionTypes plan)[i]? with
  | none => rfl
  | some sig => exact assemble_signature (mem_of_getElem? h)

theorem assemble_body_hasType (hinit : ∀ f, plan.init = some f → f.params = [])
    (hbodies : (members plan).map (fun p => functionBody ⟨m, plan, p.1⟩ p.2) = bodies.map .ok) {i : Nat}
    (hsig : (assemble plan bodies).type? i = some sig) (hbody : bodies[i]? = some body) :
    Code.HasType ((assemble plan bodies).context sig body) body.code [] sig.results := by
  rw [assemble_type?, functionTypes_eq hinit, getElem?_map, map_eq_some_iff] at hsig
  obtain ⟨⟨f, returns⟩, hp, rfl⟩ := hsig
  have hcode : functionBody ⟨m, plan, f⟩ returns = .ok body := by
    have := congrArg (·[i]?) hbodies
    simpa [hp, hbody] using this
  refine functionBody_hasType hcode rfl rfl (fun j g hg => ?_) rfl
  change (assemble plan bodies).types[j]? = _
  have hlt : j < plan.functions.length := (List.getElem?_eq_some_iff.1 hg).1
  rw [assemble_types, functionTypes, getElem?_append_left (by simpa using hlt), getElem?_map, hg]
  rfl

theorem assemble_valid (hinit : ∀ f, plan.init = some f → f.params = [])
    (hbodies : (members plan).map (fun p => functionBody ⟨m, plan, p.1⟩ p.2) = bodies.map .ok) :
    (assemble plan bodies).Valid where
  type_in_range i hi := by
    obtain ⟨sig, hsig, rfl⟩ := mem_map.1 hi
    exact idxOf_lt_length_iff.2 (mem_eraseDups.2 hsig)
  length_eq := by
    have := congrArg length hbodies
    simp only [members, length_map, length_append] at this
    simp [assemble, ← this]
  body_hasType i sig body hsig hbody := assemble_body_hasType hinit hbodies hsig hbody
  start_type i hi := by
    obtain ⟨f, hf, rfl⟩ := map_eq_some_iff.1 hi
    rw [assemble_type?, functionTypes, hf]
    simp
  export_in_range e he := by
    obtain ⟨i, hi, rfl⟩ := mem_mapIdx.1 (Json.mem_of_mem_sortFields he)
    simp only [assemble, length_map, length_append]
    omega
  export_nodup := Json.sortFields_nodup

end Assemble

/-- **Generated modules are valid.** The functions of the binary have the types that the layout gives them,
the initializer comes last, and inside every function an expression leaves one double, a condition one truth
value and a statement nothing. -/
theorem generate_valid (m : Module) (b : Binary) (h : generate m = .ok b) :
    b.Valid ∧ ∃ plan, NumericPlan.ofModule m .wasm = .ok plan ∧
      b.types = plan.functions.map (fun f => ⟨f.params.length, true⟩) ++
        plan.init.toList.map (fun _ => ⟨0, false⟩) ∧
      (∀ f depth id s t code, Gen.expr depth id ⟨m, plan, f⟩ s = .ok (code, t) →
        Nets ⟨m, plan, f⟩ s t code [] [.f64]) ∧
      (∀ f depth id s t code, Gen.condition (Gen.expr depth) id ⟨m, plan, f⟩ s = .ok (code, t) →
        Nets ⟨m, plan, f⟩ s t code [] [.i32]) ∧
      (∀ f returns depth levels labels id s t code,
        StmtGen.stmt returns (Gen.expr depth) levels labels id ⟨m, plan, f⟩ s = .ok (code, t) →
        Keeps ⟨m, plan, f⟩ returns labels s t code) := by
  obtain ⟨plan, hplan, h⟩ := bind_eq_ok.1 h
  obtain ⟨bodies, hgather, h⟩ := bind_eq_ok.1 h
  obtain rfl := Except.ok.inj h
  have hbodies : (members plan).map (fun p => functionBody ⟨m, plan, p.1⟩ p.2) = bodies.map .ok := by
    rw [← gather_eq_ok hgather, members, List.map_append, List.map_map, List.map_map]
    rfl
  refine ⟨assemble_valid (fun f hf => ((NumericPlan.ofModule_parts hplan).2 f hf).2.1) hbodies, plan, hplan,
    assemble_types, ?_⟩
  refine ⟨fun f depth => Gen.expr_nets, fun f depth id s t code hc => ?_, ?_⟩
  · exact Gen.condition_nets Gen.expr_nets hc
  · exact fun f returns depth => StmtGen.stmt_keeps Gen.expr_nets

def halving : Module :=
  .numbered [.parameter "x", .identifier "x" (some 1), .number 1.0, .binary .gt 2 3,
    .identifier "x" (some 1), .number 2.0, .assign .divAssign 5 6, .exprStmt 7, .whileStmt 4 8,
    .identifier "x" (some 1), .returnStmt (some 10), .block [9, 11],
    .functionDecl ⟨some "halving", [1], none, 12, false⟩] [13]

theorem halving_valid : ∃ b, generate halving = .ok b ∧ b.Valid := by
  obtain ⟨b, hb⟩ : ∃ b, generate halving = .ok b := ⟨_, rfl⟩
  exact ⟨b, hb, (generate_valid halving b hb).1⟩

end Wasm

end Retarget
