import Retarget.Mlir.Generate
import Retarget.Proofs.Mlir.Build
import Retarget.Proofs.Mlir.Canonical
import Retarget.Proofs.Mlir.Print
import Retarget.Proofs.Table

/-!
# Generated programs are well-scoped

* `generate_wellScoped`: the operations of a module use only what can be seen, and define every result once.
* `emit_wellScoped`: so do those that are printed, in canonical form or not, and the operands in the text are
  numbers that have been introduced before, where they can be seen.
-/

namespace Retarget.Mlir

theorem generators_sound (depth : Nat) : Gen.Sound (generators depth) := by
  induction depth with
  | zero => exact ⟨fun _ _ _ => .throw, fun _ _ _ => .throw⟩
  | succ depth ih => exact ⟨fun _ _ _ => Gen.exprStep_builds ih, fun _ _ _ => Gen.stmtStep_builds ih⟩

theorem generate_proper {m : Module} {ops : List Op} (h : generate m = .ok ops) :
    Proper [] ops ∧ (Op.listResults ops).Nodup := by
  obtain ⟨draft, hsteps, h⟩ := Except.bind_eq_ok.1 h
  obtain rfl := Except.ok.inj h
  have hgrows : Grows [] {} draft [] := by
    refine gatherSteps_induction (P := fun d => Grows [] {} d []) (fun d id d' hd hstep => ?_) (.refl (.refl _)) hsteps
    obtain ⟨⟨u, e⟩, hrun, rfl⟩ := Except.map_eq_ok.1 hstep
    have hstmt := (generators_sound m.levels).stmt [] [] id m d e u (List.nil_subset _) hrun
    exact hd.trans hstmt.1
  obtain ⟨new, fresh, hops, hproper, hfresh, hperm⟩ := hgrows.added
  obtain rfl : draft.ops.toList = new := by simpa using hops
  refine ⟨hproper, ?_⟩
  simp only [List.append_nil, List.nil_append] at hperm
  exact hperm.symm.nodup hfresh.nodup

theorem generate_wellScoped {m : Module} {ops : List Op} (h : generate m = .ok ops) : Op.WellScoped ops :=
  ⟨(generate_proper h).1.listScoped, (generate_proper h).2⟩

/-- The operations that are printed use only what can be seen and define every result once. The text is that of a
program with numbers for results: every operand in it is a number that has been introduced before, where it can be
seen, by the result that the operand stands for, and no two results that can be seen have the same number. -/
theorem emit_wellScoped (m : Module) (canonicalize : Bool) (text : String) (h : emit m canonicalize = .ok text) :
    ∃ built ops numbered, generate m = .ok built ∧ ops = (if canonicalize then canonical built else built) ∧
      Op.WellScoped ops ∧ Op.Numbered [] ops numbered ∧ Op.ListScoped [] numbered ∧
      text = programText canonicalize ops ∧ (Op.printList 1 {} ops).1 = Op.listPlain 1 numbered := by
  obtain ⟨built, hbuilt, h⟩ := Except.bind_eq_ok.1 h
  have hops : Op.WellScoped (if canonicalize then canonical built else built) := by
    cases canonicalize with
    | true => exact canonical_wellScoped (generate_wellScoped hbuilt)
    | false => exact generate_wellScoped hbuilt
  obtain ⟨numbered, hnumbered, htext, -, -⟩ :=
    Op.printList_numbered 1 [] {} hops.listScoped hops.nodup (by simp) ⟨by simp, by simp⟩
  exact ⟨built, _, numbered, hbuilt, rfl, hops, hnumbered, hnumbered.listScoped, (Except.ok.inj h).symm, htext⟩

/-- A function with a condition and a closure, in which a sum of constants is computed twice. -/
def choice : Module :=
  .numbered [.parameter "x", .number 1.0, .number 2.0, .binary .add 2 3, .number 1.0, .number 2.0, .binary .add 5 6,
    .binary .mul 4 7, .returnStmt (some 8), .block [9], .identifier "x" (some 1), .ifStmt 11 10 none,
    .parameter "y", .identifier "y" (some 13), .returnStmt (some 14), .block [15],
    .arrow ⟨none, [13], none, 16, false⟩, .returnStmt (some 17), .block [12, 18],
    .functionDecl ⟨some "choice", [1], none, 19, false⟩] [20]

theorem choice_wellScoped : ∃ text, emit choice true = .ok text ∧
    ∃ built ops numbered, generate choice = .ok built ∧ ops = (if true then canonical built else built) ∧
      Op.WellScoped ops ∧ Op.Numbered [] ops numbered ∧ Op.ListScoped [] numbered ∧
      text = programText true ops ∧ (Op.printList 1 {} ops).1 = Op.listPlain 1 numbered := by
  obtain ⟨text, htext⟩ := Except.exists_of_isOk (show (emit choice true).isOk = true by decide +kernel)
  exact ⟨text, htext, emit_wellScoped choice true text htext⟩

end Retarget.Mlir
