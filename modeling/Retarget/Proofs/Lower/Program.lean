import Retarget.Lower.Program
import Retarget.Proofs.Flow.Graph
import Retarget.Proofs.Lower.Stmt
import Retarget.Syntax.Build

/-!
# Lowered programs

What is known of a whole program once it has been lowered.

* `lowerers_sound`: phrases nested to any depth are lowered to roots, by induction on the depth.
* `Finished b`: the builder of a lowered program. Every id that was given out has a node, every reference leads to a
  node that fits, and the top-level statements are roots.
* `lower_uses_builder_rightly`: lowering never fails because it used the builder in a wrong way.
* `problems_of_lower`: the module of a program has no problems but names that are used early, and names that are
  declared in one case of a switch and used in another.
-/

namespace Retarget

open Syntax LowerM Multiset Make Root

/-! ## All depths -/

theorem tooDeep_fails {α : Type} : Fails (throw .tooDeep : LowerM α) := fun _ => rfl

theorem lowerStmt_ifStmt {r : Lowerers} (hr : r.Sound) (test : Expr) (consequent : Stmt) (alternate : Tree (.opt .stmt))
    (pos : Pos) :
    Lowers true ∅ 0 (lowerStmt r (.ifStmt test consequent alternate pos))
      (fun ids => roots .statement ids.getLast?.toList) fun ids => {fact | ∃ id ∈ ids.getLast?, fact = .inert id} := by
  refine (lowerIf_lowers hr).andThen subset_rfl fun id => .pure (by simp) ?_
  rintro v ⟨id', hid, rfl⟩
  obtain rfl : id = id' := by simpa using hid
  exact .inr rfl

/-- **Phrases of any depth are lowered to roots.** -/
theorem lowerers_sound : ∀ depth, (lowerers depth).Sound
  | 0 => ⟨fun _ _ => .of_fails tooDeep_fails, fun _ => .of_fails tooDeep_fails, fun _ _ _ _ => .of_fails tooDeep_fails,
      fun _ _ _ _ => .of_fails tooDeep_fails⟩
  | depth + 1 =>
    have hr := lowerers_sound depth
    ⟨lowerExpr_lowers hr, lowerStmt_lowers hr, lowerStmt_ifStmt hr,
      fun _ _ _ hmode => destructurePattern_lowers hr hmode⟩

/-! ## The builder of a lowered program -/

theorem Grown.empty {b : Builder} (hnodes : b.nodes = ∅) (hreserved : b.reserved = ∅) (hnext : b.nextId = 1) :
    Grown b 0 := by
  have hkind : ∀ x, b.kind? x = none := fun x => by simp [Builder.kind?, NodeTable.kind?, hnodes]
  have hnone : ∀ x k, b.kind? x ≠ some k := fun x k => by simp [hkind]
  have howns : ∀ p c, ¬Owns b.kind? p c := by
    rintro p c ⟨k, hk, -⟩
    exact hnone p k hk
  refine ⟨fun x node hx => ?_, fun hx => absurd hx (hnone _ _), fun {x} hx => ?_, fun {x} _ => hkind x,
    fun {x} hpos hlt => ?_, fun hx => absurd hx (hnone _ _), ⟨fun hp => absurd hp (howns _ _), fun x hx => ?_⟩,
    nodup_zero, by simp, fun hx => absurd hx (hnone _ _), fun hi => absurd hi (hnone _ _),
    fun hi => absurd hi (hnone _ _)⟩
  · rw [hnodes] at hx
    exact absurd hx (by simp)
  · rw [hreserved] at hx
    exact absurd hx (by simp)
  · rw [hnext] at hlt
    exact absurd hlt (Nat.not_lt.2 hpos)
  · obtain ⟨c, hc, -⟩ := Relation.TransGen.head'_iff.1 hx
    exact howns x c hc

/-- The builder of a lowered program, with its top-level statements. -/
structure Finished (b : Builder) : Prop where
  filled : ∀ d, d ∉ b.reserved
  stored : ∀ d, 0 < d → d < b.nextId → ∃ kind, b.kind? d = some kind
  keys : b.nodes.KeysMatch
  resolved : Module.Resolved b.kind?
  forest : IsForest b.kind?
  statements : ∀ s ∈ b.body, ∃ kind, b.kind? s = some kind ∧ kind.isStatement = true
  roots : ∀ s ∈ b.body, ∀ q, ¬Owns b.kind? q s
  nodup : b.body.Nodup
  visible : ∀ {i name d}, b.kind? i = some (.identifier name (some d)) → VisibleAcross b.kind? d i

namespace Finished

variable {b : Builder} (h : Finished b)
include h

theorem completionError?_eq_none : b.completionError? = none :=
  Builder.completionError?_eq_none h.filled h.statements

theorem isMisuse_of_build {options : BuildOptions} {error : BuilderError} (hbuild : b.build options = .error error) :
    error.isMisuse = false := by
  rw [Builder.build, h.completionError?_eq_none] at hbuild
  dsimp only at hbuild
  split at hbuild
  · cases hbuild
    rfl
  · cases hbuild

theorem toModule_sound (deriveCfg : Bool) : (b.toModule deriveCfg).Sound :=
  ⟨h.keys, (by decide : isCompatible schemaVersion = true), h.resolved, h.statements, h.forest, h.roots, h.nodup⟩

end Finished

theorem Lowered.finished {s₀ s : LowerState} {body : List NodeId} {V : Set Fact} {fills : Bool}
    (h : Lowered fills s₀ 0 (roots .statement body) V s) (hstart : ∀ d, d ∉ s₀.builder.reserved) :
    Finished (s.builder.setBody body) := by
  obtain ⟨L, -, hready⟩ := h.ready
  have hgrown := hready.grown
  have hfilled : ∀ d, d ∉ s.builder.reserved := fun d hd =>
    (h.step.reserved d hd).elim (hstart d) (Set.notMem_empty d)
  have hroot :
      ∀ x ∈ body, (⟨x, .statement⟩ : Root) ∈ roots .statement body + L + 0 + roots .declarator s.pendingTemps :=
    fun x hx => by simp [hx]
  have hids : (body : Multiset NodeId) ≤
      ids (roots .statement body + L + 0 + roots .declarator s.pendingTemps) := by
    have heq : ids (roots .statement body) = body := by simp [ids, roots, Function.comp_def]
    rw [ids_add, ids_add, ids_add, heq, add_assoc, add_assoc]
    exact le_add_right _ _
  refine ⟨hfilled, fun d hpos hlt => (hgrown.dense hpos hlt).resolve_left (hfilled d), hgrown.keys,
    fun x k hk r hr => (hgrown.resolved hk r hr).resolve_right fun hwaits => hfilled _ hwaits.2, hgrown.forest,
    fun x hx => hready.held.fits _ (hroot x hx), fun x hx => (hgrown.held x (id_mem_ids (hroot x hx))).2, ?_,
    hgrown.visible⟩
  exact coe_nodup.1 (nodup_of_le hids hgrown.nodup)

namespace Syntax.Program

variable {p : Program} {options : LowerOptions} {m : Module} {b : Builder} {error : LoweringError}

theorem ready_initialState (p : Program) (options : LowerOptions) : Ready (p.initialState options) 0 := by
  refine ⟨⟨⟨Grown.empty rfl rfl rfl, fun r hr => ?_⟩, nofun⟩, nofun⟩
  exact absurd hr (notMem_zero r)

theorem lowerBody_endsWell (p : Program) (options : LowerOptions) (depth : Nat) :
    EndsWell (p.lowerBody (lowerers depth)) (p.initialState options) fun body s =>
      Lowered true (p.initialState options) 0 (roots .statement body) ∅ s := by
  refine blockStatements_lowers (lowerers_sound depth) p.body p.pos {} _ 0 (ready_initialState p options) ?_
  rintro u (rfl | rfl)
  · exact nofun
  · exact calm_of_names rfl

/-- **What is reserved while a program is lowered** becomes a node that names can be bound to. -/
theorem isBinding_of_reserved {depth : Nat} {body : List NodeId} {s : LowerState} {d : NodeId}
    (h : (p.lowerBody (lowerers depth)).run (p.initialState options) = .ok (body, s)) (hd : d ∈ s.reservations) :
    ∃ kind, s.builder.kind? d = some kind ∧ kind.isBinding = true := by
  have hlowered := (lowerBody_endsWell p options depth).of_ok h
  refine (hlowered.step.settled (fun d hd => ?_) d hd).resolve_left fun hreserved => ?_
  · exact absurd hd (by simp [initialState])
  · exact (hlowered.finished (by simp [initialState])).filled d hreserved

theorem finished_of_toBuilder (h : p.toBuilder options = .ok b) : Finished b := by
  obtain ⟨⟨body, s⟩, hrun, hb⟩ := Except.bind_eq_ok.1 h
  cases hb
  exact ((lowerBody_endsWell p options _).of_ok hrun).finished (by simp [initialState])

theorem isMisuse_of_toBuilder (h : p.toBuilder options = .error error) : error.isMisuse = false := by
  have hends := lowerBody_endsWell p options p.toJson.depth
  rw [toBuilder] at h
  unfold EndsWell at hends
  split at hends
  next body s hrun =>
    rw [StateT.run, hrun] at h
    exact absurd h nofun
  next e hrun =>
    rw [StateT.run, hrun] at h
    cases h
    exact hends

theorem lower_eq_mapError (h : p.toBuilder options = .ok b) :
    p.lower options = (b.build options.build).mapError .builder := by
  rw [lower, h]
  rfl

theorem lower_eq_ok :
    p.lower options = .ok m ↔ ∃ b, p.toBuilder options = .ok b ∧ m = b.toModule options.build.deriveCfg ∧
      (options.build.validate = true → m.isValid = true) := by
  cases hbuilder : p.toBuilder options with
  | error e =>
    rw [lower, hbuilder]
    simp only [reduceCtorEq, false_and, exists_false, iff_false]
    exact nofun
  | ok b =>
    have hcomplete := (finished_of_toBuilder hbuilder).completionError?_eq_none
    simp only [lower_eq_mapError hbuilder, Except.mapError_eq_ok, Builder.build_eq_ok, hcomplete, true_and,
      Except.ok.injEq, exists_eq_left']

/-! ## Errors -/

/-- **Lowering uses the builder rightly.** It never refers to a node that is missing or of the wrong sort, never
stores a node twice, and never leaves an id without its node. Whatever it reserves, on entry to a block or for a name
of a function or class, it fills with a node that names can be bound to. -/
theorem lower_uses_builder_rightly (p : Program) (options : LowerOptions) :
    (∀ error, p.lower options = .error error → error.isMisuse = false) ∧
      ∀ b, p.toBuilder options = .ok b → (∀ d, d ∉ b.reserved) ∧
        (∀ d, 0 < d → d < b.nextId → ∃ kind, b.kind? d = some kind) ∧ Module.Resolved b.kind? ∧
        ∃ body s, (p.lowerBody (lowerers p.toJson.depth)).run (p.initialState options) = .ok (body, s) ∧
          b = s.builder.setBody body ∧
            ∀ d ∈ s.reservations, ∃ kind, b.kind? d = some kind ∧ kind.isBinding = true := by
  refine ⟨fun error h => ?_, fun b hb => ?_⟩
  · cases hbuilder : p.toBuilder options with
    | error e =>
      rw [lower, hbuilder] at h
      cases h
      exact isMisuse_of_toBuilder hbuilder
    | ok b =>
      rw [lower_eq_mapError hbuilder] at h
      cases hbuild : b.build options.build with
      | ok m =>
        rw [hbuild] at h
        exact absurd h nofun
      | error e =>
        rw [hbuild] at h
        cases h
        exact (finished_of_toBuilder hbuilder).isMisuse_of_build hbuild
  · have hfinished := finished_of_toBuilder hb
    obtain ⟨⟨body, s⟩, hrun, hbody⟩ := Except.bind_eq_ok.1 hb
    cases hbody
    exact ⟨hfinished.filled, hfinished.stored, hfinished.resolved, body, s, hrun, rfl,
      fun d => isBinding_of_reserved hrun⟩

/-- A function that is called before its declaration, in a block with a name of its own. -/
def hoistedCall : Program :=
  program [block [exprStmt (call (name "f") []),
    function "f" [] [ret (some (name "y"))] false, declareName .letKind "y" none]]

def strayReturn : Program := program [ret none]

theorem hoistedCall_uses_builder_rightly :
    (∃ b, hoistedCall.toBuilder = .ok b ∧ (∀ d, d ∉ b.reserved) ∧
      ∀ d ∈ [1, 2], ∃ kind, b.kind? d = some kind ∧ kind.isBinding = true) ∧
      ∃ error, strayReturn.lower = .error error ∧ error.isMisuse = false := by
  have hcall : ((hoistedCall.lowerBody (lowerers hoistedCall.toJson.depth)).run
      (hoistedCall.initialState {})).toOption.any (·.2.reservations.toList = [1, 2]) = true := by decide +kernel
  have hreturn : strayReturn.lower.isOk = false := by decide +kernel
  refine ⟨?_, ?_⟩
  · obtain ⟨⟨body, s⟩, hrun, hlist⟩ := Except.exists_of_any hcall
    have hb : hoistedCall.toBuilder = .ok (s.builder.setBody body) := by
      rw [toBuilder, hrun]
      rfl
    obtain ⟨hfilled, -, -, body', s', hrun', -, hbinding⟩ := (lower_uses_builder_rightly hoistedCall {}).2 _ hb
    cases hrun.symm.trans hrun'
    refine ⟨_, hb, hfilled, fun d hd => hbinding d ?_⟩
    rwa [← Std.ExtTreeSet.mem_toList, of_decide_eq_true hlist]
  · cases he : strayReturn.lower with
    | error e => exact ⟨e, rfl, (lower_uses_builder_rightly strayReturn {}).1 e he⟩
    | ok m =>
      rw [he] at hreturn
      exact absurd hreturn nofun

/-! ## Problems -/

/-- **What can be wrong with the module of a program**: names that are used early, and names that are declared in one
case of a switch and used in another. -/
theorem problems_of_lower (hcfg : options.build.deriveCfg = true) (h : p.lower options = .ok m) :
    ∀ problem ∈ m.problems, ∃ i name d, m.kind? i = some (.identifier name (some d)) ∧
      ((problem = .usedEarly i name d ∧ Visible m.kind? d i) ∨
        (problem = .outOfScope i name d ∧ ∃ c, ScopeOwner m.kind? d c ∧ IsCase m.kind? c ∧ ¬Contains m.kind? c i ∧
          ∀ s, Owns m.kind? s c → Contains m.kind? s i)) := by
  obtain ⟨b, hb, rfl, -⟩ := lower_eq_ok.1 h
  have hfinished := finished_of_toBuilder hb
  have hsound := hfinished.toModule_sound options.build.deriveCfg
  have hflow : (b.toModule options.build.deriveCfg).flowProblems = [] :=
    Module.flowProblems_eq_nil hsound.resolved (by rw [hcfg]; rfl)
  intro problem hproblem
  rw [hsound.problems_eq hflow, hsound.mem_scopeProblems] at hproblem
  obtain ⟨i, name, d, hi, ⟨hproblem, hhidden⟩ | ⟨hproblem, hvisible, -⟩⟩ := hproblem
  · refine ⟨i, name, d, hi, .inr ⟨hproblem, ?_⟩⟩
    obtain ⟨c, hc⟩ := not_forall.1 hhidden
    obtain ⟨howner, houtside⟩ := Classical.not_imp.1 hc
    obtain ⟨hcase, hswitch⟩ := (hfinished.visible hi c howner).resolve_left houtside
    exact ⟨c, howner, hcase, houtside, hswitch⟩
  · exact ⟨i, name, d, hi, .inl ⟨hproblem, hvisible⟩⟩

/-- A switch that declares a name in one case and uses it in another. -/
def crossCase : Program :=
  program [declareName .letKind "x" (some (number 1)),
    switch (name "x") [(some (number 0), [declareName .letKind "a" (some (number 1))]),
      (some (number 1), [exprStmt (name "a")])]]

theorem crossCase_problem : ∃ m, crossCase.lower { build := { validate := false } } = .ok m ∧
    .outOfScope 11 "a" 5 ∈ m.problems ∧
      ∃ c, ScopeOwner m.kind? 5 c ∧ IsCase m.kind? c ∧ ¬Contains m.kind? c 11 ∧
        ∀ s, Owns m.kind? s c → Contains m.kind? s 11 := by
  have hok : crossCase.toBuilder.toOption.any (fun b =>
      decide (.outOfScope 11 "a" 5 ∈ (b.toModule true).scopeProblems (b.toModule true).parents)) = true := by
    decide +kernel
  obtain ⟨b, hb, hok⟩ := Except.exists_of_any hok
  have hmem : .outOfScope 11 "a" 5 ∈ (b.toModule true).problems := by
    simp [Module.problems, of_decide_eq_true hok]
  have hlower : crossCase.lower { build := { validate := false } } = .ok (b.toModule true) :=
    lower_eq_ok.2 ⟨b, hb, rfl, by simp⟩
  obtain ⟨i, name, d, -, ⟨h, -⟩ | ⟨h, hcase⟩⟩ := problems_of_lower rfl hlower _ hmem
  · cases h
  · cases h
    exact ⟨_, hlower, hmem, hcase⟩

end Syntax.Program

end Retarget
