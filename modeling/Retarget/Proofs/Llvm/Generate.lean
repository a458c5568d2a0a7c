import Mathlib.Data.List.Nodup
import Retarget.Llvm.Generate
import Retarget.Proofs.Llvm.Statement
import Retarget.Proofs.Wasm.Valid

/-!
# Generated functions are well-formed

* `Draft.Orderly.outline`: an orderly draft without pending labels whose last block has been ended is well-formed.
* `Llvm.emit_outlined`: the functions of a program that is emitted are well-formed, block by block.
-/

namespace Retarget.Llvm

open List Retarget.Except

def Function.code (f : Function) : List Line := f.lines.filter Line.isCode

theorem Draft.Orderly.outline {d : Draft} (h : d.Orderly []) (hend : d.terminated = true) :
    ∃ blocks, Outline d.code blocks := by
  obtain ⟨blocks, instrs, hshape⟩ := h.shape
  have hcode : d.code = blocks.flatMap BasicBlock.lines := by simpa [hend] using hshape
  have hlabels : d.labels = blocks.map (·.label) := by rw [labels, hcode, labelsOf_blocks]
  have htexts : (blocks.map fun b => b.label.text) = d.labels.map Label.text := by simp [hlabels]
  refine ⟨blocks, ?_⟩
  constructor
  case code_eq => exact hcode
  case head? =>
    rw [htexts, List.head?_map, h.head?]
    rfl
  case labels_nodup =>
    rw [htexts]
    exact ((append_nil d.labels) ▸ h.labels_nodup).map Label.text_injective
  case target_mem =>
    intro b hb target htarget
    have hedge : (b.label, target) ∈ edgesOf d.code := by
      rw [hcode, edgesOf_blocks]
      exact mem_flatMap.2 ⟨b, hb, mem_map_of_mem htarget⟩
    simpa [hlabels] using h.target_mem _ hedge
  case origins =>
    intro b hb i hi first second horigins
    obtain ⟨-, -, hne, hsources⟩ := h.origins _ (hcode ▸ mem_phisOf_blocks hb hi horigins)
    exact ⟨hne, by rwa [sources, hcode, sourcesOf_blocks] at hsources⟩
  case numbers => exact ⟨d.nextValue, h.numbers⟩
  case uses => exact h.uses

theorem orderly_entry : (Draft.push {} (.label .entry)).Orderly [] where
  shape := ⟨[], [], rfl⟩
  head? := rfl
  getLast? := rfl
  labels_nodup := nodup_singleton Label.entry
  below := fun l hl => by
    obtain rfl : l = .entry := mem_singleton.1 hl
    trivial
  target_mem := fun e he => absurd (show e ∈ [] from he) not_mem_nil
  origins := fun p hp => absurd (show p ∈ [] from hp) not_mem_nil
  numbers := rfl
  uses := by
    have hnil : DefinedBeforeUse [] := by simp [DefinedBeforeUse]
    exact hnil.concat (by simp [Line.uses])

variable {scope : NumericScope} {m : Module} {options : CompileOptions} {program : Program}

theorem orderly_prologue : (prologue scope).Orderly [] := by
  have hfold (slots : List (Address × Operand)) (hslots : ∀ slot ∈ slots, slot.2.number? = none) (d : Draft)
      (hd : d.Orderly []) : (slots.foldl (fun d slot =>
        (d.instruction (.allocate slot.1)).instruction (.store slot.2 slot.1)) d).Orderly [] := by
    induction slots generalizing d with
    | nil => exact hd
    | cons slot slots ih =>
      have hvalue (m : Nat) : slot.2.Below m := by simp [Operand.Below, hslots slot]
      have hallocate := hd.instruction (i := .allocate slot.1) (by simp [Instr.operands]) rfl rfl
      have hstore := hallocate.instruction (i := .store slot.2 slot.1) (by simp [Instr.operands, hvalue]) rfl rfl
      exact ih (fun slot hslot => hslots slot (mem_cons_of_mem _ hslot)) _ hstore
  refine hfold _ (fun slot hslot => ?_) _ orderly_entry
  rcases mem_append.1 (of_mem_zip hslot).2 with hvalue | hvalue
  · obtain ⟨i, -, hi⟩ := mem_map.1 hvalue
    rw [← hi]
    rfl
  · rw [(mem_replicate.1 hvalue).2]
    rfl

/-- A function is a draft that has been ended and goes on from the places of the variables. -/
theorem function_drafted {debugInfo isInit : Bool} {f : Function} (h : function debugInfo isInit scope = .ok f) :
    ∃ d : Draft, f = ⟨scope.function.name, scope.function.params.length, isInit, d.lines.toList⟩ ∧ d.Orderly [] ∧
      d.terminated = true ∧ (prologue scope).GoesOn (scope.function.name != NumericPlan.initName) d := by
  obtain ⟨draft, hsteps, h⟩ := bind_eq_ok.1 h
  obtain rfl := Except.ok.inj h
  have hdraft : (prologue scope).GoesOn (scope.function.name != NumericPlan.initName) draft ∧ Stands [] [] draft := by
    refine gatherSteps_induction (P := fun d => Draft.GoesOn _ _ d ∧ Stands [] [] d)
      (fun d id d' hd hstep => ?_) ?_ hsteps
    · obtain ⟨⟨u, e⟩, hrun, rfl⟩ := map_eq_ok.1 hstep
      have hstmt := Gen.stmt_keeping (Gen.expr_evaluates _) _ none id [] [] (List.Subset.refl _) scope d e u hd.2 hrun
      exact hstmt.imp_left hd.1.trans
    · exact ⟨.of_eq rfl, orderly_prologue, by simp⟩
  refine ⟨_, rfl, (hdraft.2.terminate ?_ ?_).orderly, Draft.terminated_terminate, hdraft.1.trans (.terminate ?_)⟩
  · split <;> simp [Terminator.operands]
  · split <;> simp [Terminator.targets]
  · split
    case isTrue hreturns => exact hreturns
    case isFalse hreturns => exact Bool.eq_false_iff.2 hreturns

theorem function_outlined {debugInfo isInit : Bool} {f : Function} (h : function debugInfo isInit scope = .ok f) :
    ∃ blocks, Outline f.code blocks := by
  obtain ⟨d, rfl, horderly, hend, -⟩ := function_drafted h
  exact horderly.outline hend

/-- Each function of a program is generated for a function of the plan, or for what runs first. -/
theorem exists_numeric_of_generate (h : generate m options = .ok program) :
    ∃ plan, NumericPlan.ofModule m .llvm = .ok plan ∧ ∀ f ∈ program.functions, ∃ numeric isInit,
      function options.debugInfo isInit ⟨m, plan, numeric⟩ = .ok f ∧
        (isInit = false ∧ numeric ∈ plan.functions ∨ isInit = true ∧ plan.init = some numeric) := by
  obtain ⟨plan, hplan, h⟩ := bind_eq_ok.1 h
  obtain ⟨functions, hgather, h⟩ := bind_eq_ok.1 h
  obtain rfl := Except.ok.inj h
  refine ⟨plan, hplan, fun f hf => ?_⟩
  rcases mem_append.1 (gather_eq_ok hgather ▸ mem_map_of_mem hf) with hmem | hmem
  · obtain ⟨numeric, hnumeric, hfunction⟩ := mem_map.1 hmem
    exact ⟨numeric, false, hfunction, .inl ⟨rfl, hnumeric⟩⟩
  · obtain ⟨numeric, hnumeric, hfunction⟩ := mem_map.1 hmem
    exact ⟨numeric, true, hfunction, .inr ⟨rfl, Option.mem_toList.1 hnumeric⟩⟩

theorem generate_outlined (h : generate m options = .ok program) :
    ∀ f ∈ program.functions, ∃ blocks, Outline f.code blocks := by
  obtain ⟨plan, -, hnumeric⟩ := exists_numeric_of_generate h
  intro f hf
  obtain ⟨numeric, isInit, hfunction, -⟩ := hnumeric f hf
  exact function_outlined hfunction

theorem emit_eq_ok {text : String} (h : emit m options = .ok text) :
    ∃ source program, (options.optLevel = 0 → source = m) ∧ generate source options = .ok program ∧
      text = program.text := by
  unfold emit at h
  split at h
  case isTrue =>
    obtain ⟨source, hsource, h⟩ := bind_eq_ok.1 h
    obtain rfl : m = source := Except.ok.inj hsource
    obtain ⟨program, hprogram, h⟩ := bind_eq_ok.1 h
    exact ⟨m, program, fun _ => rfl, hprogram, (Except.ok.inj h).symm⟩
  case isFalse hlevel =>
    obtain ⟨source, -, h⟩ := bind_eq_ok.1 h
    obtain ⟨program, hprogram, h⟩ := bind_eq_ok.1 h
    exact ⟨source, program, fun hzero => absurd hzero hlevel, hprogram, (Except.ok.inj h).symm⟩

/-- A function with a loop, a choice, a jump out of the loop and code that is never reached. -/
def countdown : Module :=
  .numbered [.parameter "x", .identifier "x" (some 1), .number 1.0, .binary .gt 2 3, .identifier "x" (some 1),
    .identifier "x" (some 1), .number 1.0, .binary .sub 6 7, .logical .and 5 8, .identifier "x" (some 1),
    .assign .assign 10 9, .exprStmt 11, .breakStmt, .identifier "x" (some 1), .ifStmt 14 13 none,
    .block [12, 15], .whileStmt 4 16, .identifier "x" (some 1), .returnStmt (some 18), .identifier "x" (some 1),
    .exprStmt 20, .block [17, 19, 21], .functionDecl ⟨some "countdown", [1], none, 22, false⟩] [23]

end Retarget.Llvm
