import Retarget.Proofs.Optimize.Stable
import Retarget.Proofs.Optimize.Weight

/-!
# The optimizer comes to rest

Inlining makes programs lighter too, so that there is a last round that changes something.

* `Inline.run_tends`: inlining succeeds, and if it changes anything, all nodes together get lighter.
* `Pipeline.run_settles`: no round fails, and after some rounds a round changes nothing.
-/

namespace Retarget

open Option

variable {b : Builder} {id : NodeId} {old new : Kind} {w : NodeId → Nat}

/-! ## Inlining -/

namespace Inline

variable {found : IdMap Shape}

/-- A call is replaced by a copy of what the function always returns, or of something simple. -/
theorem plan_source (h : b.Plans (plan found) id old new) : (∃ callee arguments, old = .call callee arguments false) ∧
    ∃ source, b.kind? source = some new ∧ (isSimple new = true ∨
      ∃ function : NodeId, found[function]? = some (.constant source)) := by
  obtain ⟨-, e, hplan, hnew⟩ := h
  unfold plan at hplan
  split at hplan
  next callee arguments =>
    refine ⟨⟨callee, arguments, rfl⟩, ?_⟩
    split at hplan
    next name function hcallee =>
      obtain ⟨shape, hfound, hplan⟩ := bind_eq_some_iff.1 hplan
      obtain ⟨source, hsource, hplan⟩ := bind_eq_some_iff.1 hplan
      cases hplan
      obtain ⟨hkind, -⟩ := DeadCode.kind?_copy hnew
      refine ⟨source, hkind, ?_⟩
      unfold result? at hsource
      split at hsource
      next literal =>
        cases hsource
        exact .inr ⟨function, hfound⟩
      next argument =>
        obtain ⟨hsimple, heq⟩ := ite_none_right_eq_some.1 hsource
        cases heq
        exact .inl (by simpa [hkind] using hsimple)
      next => cases hsource
    next => cases hplan
  next => cases hplan

/-- What a function returns is a literal, if it is always the same. -/
def Constants (found : IdMap Shape) (b : Builder) : Prop :=
  ∀ (function literal : NodeId), found[function]? = some (.constant literal) →
    ∃ kind, b.kind? literal = some kind ∧ kind.truthiness?.isSome = true

theorem constants_candidates : Constants (candidates b) b := by
  intro function literal h
  obtain ⟨-, -, h⟩ := getElem?_candidates.1 h
  unfold candidate? at h
  split at h
  next f hf =>
    split at h
    next => cases h
    next =>
      obtain ⟨value, hvalue, h⟩ := bind_eq_some_iff.1 h
      obtain ⟨kind, hkind, h⟩ := bind_eq_some_iff.1 h
      split at h
      next => split at h <;> cases h
      next =>
        split at h
        next htruth =>
          cases h
          exact ⟨kind, hkind, (Bool.and_eq_true_iff.1 htruth).1⟩
        next => cases h
  next => cases h

/-- What stands in the place of a call has no children. -/
theorem children_of_isSimple (h : isSimple new = true) :
    new.isExpression = true ∧ new.isBinding = false ∧ new.children = [] := by
  cases new with
  | identifier name binding => cases binding <;> exact ⟨rfl, rfl, rfl⟩
  | number | string | boolean | null | undefined => exact ⟨rfl, rfl, rfl⟩
  | _ => cases h

theorem improves (h : b.Plans (plan found) id old new) (hb : b.Weighted w) (hconstants : Constants found b) :
    b.Improves w id old new := by
  obtain ⟨⟨callee, arguments, rfl⟩, source, hsource, hcases⟩ := plan_source h
  have hsimple : isSimple new = true := by
    obtain hsimple | ⟨function, hfound⟩ := hcases
    · exact hsimple
    · obtain ⟨kind, hkind, htruth⟩ := hconstants function source hfound
      rw [hsource] at hkind
      cases hkind
      unfold isSimple
      split
      · rfl
      · exact htruth
  obtain ⟨hexpression, hbinding, hchildren⟩ := children_of_isSimple hsimple
  refine ⟨⟨fun c hc => c.admits_expression hc rfl hexpression, hb.copyable source new hsource hbinding,
    hb.resolved source new hsource, by simp [hchildren]⟩, rfl, ?_⟩
  exact hb.childless_lt (c := callee) (by simp [Kind.children_eq, Kind.childList]) hchildren

theorem run_tends (hb : b.Weighted w) : b.Tends w (run b) := by
  refine Builder.Sheds.editList ⟨?_, ?_⟩ hb constants_candidates
  · exact fun hb hconstants hplans => improves hplans hb hconstants
  · intro b' id old new b'' hconstants hplans hrekinded function literal hfound
    obtain ⟨kind, hkind, htruth⟩ := hconstants function literal hfound
    -- A literal is not a call, so that it is not edited.
    have hne : literal ≠ id := by
      rintro rfl
      obtain ⟨⟨callee, arguments, rfl⟩, -⟩ := plan_source hplans
      rw [hplans.1] at hkind
      cases hkind
      cases htruth
    exact ⟨kind, by rw [hrekinded.kind?_eq, Function.update_of_ne hne, hkind], htruth⟩

end Inline

/-! ## Rounds -/

namespace Pipeline

theorem runPasses_tends (hb : b.Weighted w) : b.Tends w (runPasses standard.passes b) :=
  (Inline.run_tends hb).bind fun _ _ _ _ hb => (Fold.run_tends hb).bind fun _ _ _ _ hb =>
    (DeadCode.run_tends hb).bind fun _ b w _ hb => ⟨false, b, w, rfl, hb, le_rfl⟩

/-- **Rounds come to an end.** -/
theorem runRounds_settles (hb : b.Weighted w) : ∃ rounds b', runPasses standard.passes b' = .ok (false, b') ∧
    (∀ limit, rounds < limit → runRounds standard.passes limit b = .ok (rounds, b')) ∧
    ∀ limit ≤ rounds, ∃ b'', runRounds standard.passes limit b = .ok (limit, b'') := by
  induction hload : b.load w using Nat.strong_induction_on generalizing b w with
  | _ load ih =>
    obtain ⟨changed, b₁, w₁, hround, hb₁, hlighter⟩ := runPasses_tends hb
    cases changed with
    | false =>
      obtain ⟨rfl, -⟩ := runPasses_standard.1 hround
      refine ⟨0, b₁, hround, fun limit hlimit => ?_, fun limit hlimit => ⟨b₁, ?_⟩⟩
      · obtain ⟨limit, rfl⟩ := Nat.exists_eq_add_one.2 hlimit
        exact runRounds_zero hround
      · obtain rfl := Nat.le_zero.1 hlimit
        rfl
    | true =>
      have hlt : b₁.load w₁ < load := by
        rw [Bool.toNat_true] at hlighter
        omega
      obtain ⟨rounds, b', hstable, hlong, hshort⟩ := ih _ hlt hb₁ rfl
      have hstep {limit n : Nat} {b₂ : Builder} (h : runRounds standard.passes limit b₁ = .ok (n, b₂)) :
          runRounds standard.passes (limit + 1) b = .ok (n + 1, b₂) :=
        Except.bind_eq_ok.2 ⟨_, hround, Except.bind_eq_ok.2 ⟨_, h, rfl⟩⟩
      refine ⟨rounds + 1, b', hstable, fun limit hlimit => ?_, fun limit hlimit => ?_⟩
      · obtain ⟨limit, rfl⟩ := Nat.exists_eq_add_one.2 (Nat.zero_lt_of_lt hlimit)
        exact hstep (hlong limit (Nat.lt_of_succ_lt_succ hlimit))
      · cases limit with
        | zero => exact ⟨b, rfl⟩
        | succ limit =>
          obtain ⟨b'', hb''⟩ := hshort limit (Nat.le_of_succ_le_succ hlimit)
          exact ⟨b'', hstep hb''⟩

/-- **The optimizer comes to rest.** In a valid module whose names are not empty and whose numbers are finite, no
round fails, and there is a number of rounds after which a round changes nothing. -/
theorem run_settles {m : Module} (hm : m.isValid = true)
    (hnames : ∀ id name binding, m.kind? id = some (.identifier name binding) → name ≠ "")
    (hnumbers : ∀ id x, m.kind? id = some (.number x) → x.isFinite = true) :
    ∃ rounds b, runPasses standard.passes b = .ok (false, b) ∧
      (∀ limit, rounds < limit → (standard.withMaxRounds limit).run (.ofModule m) = .ok (rounds, b)) ∧
      ∀ limit ≤ rounds, ∃ b', runRounds standard.passes limit (.ofModule m) = .ok (limit, b') := by
  have hsound : m.Sound := (Module.isValid_iff.1 hm).1
  have hcopyable : (Builder.ofModule m).Copyable := by
    intro id kind hkind hbinding
    cases kind with
    | number x => simp [Builder.scalarError?, hnumbers id x hkind]
    | identifier name binding => simp [Builder.scalarError?, hnames id name binding hkind]
    | parameter | declarator | classDecl | classExpr => cases hbinding
    | _ => rfl
  obtain ⟨w, hw⟩ := Builder.exists_weighs (b := .ofModule m) hsound.resolved hsound.forest.acyclic
  obtain ⟨rounds, b, hstable, hlong, hshort⟩ := runRounds_settles ⟨hw, hsound.resolved, hcopyable⟩
  refine ⟨rounds, b, hstable, fun limit hlimit => ?_, hshort⟩
  have hmax : max limit 1 = limit := max_eq_left (Nat.one_le_of_lt hlimit)
  rw [withMaxRounds, hmax]
  exact hlong limit hlimit

/-- The expression `(true ? false : null) ? "a" : "b"`, where a first round only decides the test. -/
def nested : Module :=
  .numbered [.conditional 5 2 3, .string "a", .string "b", .boolean true, .conditional 4 6 7, .boolean false, .null,
    .exprStmt 1] [8]

theorem nested_settles : ∃ b, runPasses standard.passes b = .ok (false, b) ∧
    ∀ limit, 2 < limit → (standard.withMaxRounds limit).run (.ofModule nested) = .ok (2, b) := by
  obtain ⟨rounds, b, hstable, hlong, hshort⟩ := run_settles (m := nested) (by decide +kernel)
    (fun _ _ _ h => by simpa using mem_of_kind?_numbered h) fun _ _ h => by simpa using mem_of_kind?_numbered h
  have hrounds : ((runRounds standard.passes 3 (.ofModule nested)).map Prod.fst).toOption = some 2 := by
    decide +kernel
  obtain rfl : rounds = 2 := by
    obtain hlt | hle := Nat.lt_or_ge rounds 3
    · rw [show runRounds standard.passes 3 (.ofModule nested) = _ from hlong 3 hlt] at hrounds
      exact some.inj hrounds
    · obtain ⟨b', hb'⟩ := hshort 3 hle
      rw [hb'] at hrounds
      cases hrounds
  exact ⟨b, hstable, hlong⟩

/-- The expression `true ? x : null` with a node of the given kind for `x`. -/
def choice (x : Kind) : Module := .numbered [.boolean true, x, .null, .conditional 1 2 3, .exprStmt 4] [5]

theorem run_error {error : BuilderError} {m : Module} (h : runPasses standard.passes (.ofModule m) = .error error)
    {limit : Nat} : (standard.withMaxRounds limit).run (.ofModule m) = .error error := by
  obtain ⟨n, hn⟩ := Nat.exists_eq_add_one.2 (Nat.lt_of_lt_of_le Nat.one_pos (le_max_right limit 1))
  rw [run, withMaxRounds, hn, runRounds, h]
  rfl

/-- Validation does not look at the values in nodes, but the builder does not copy an empty name or an infinite
number. -/
theorem choice_fails : (choice (.identifier "" none)).isValid = true ∧ (choice (.number (1.0 / 0.0))).isValid = true ∧
    ∀ limit, (standard.withMaxRounds limit).run (.ofModule (choice (.identifier "" none))) =
        .error (.invalidNode "Identifier" "name must not be empty") ∧
      (standard.withMaxRounds limit).run (.ofModule (choice (.number (1.0 / 0.0)))) =
        .error (.invalidNode "NumericLiteral" "numeric literals must be finite") :=
  ⟨by decide +kernel, by decide +kernel, fun limit => ⟨run_error rfl, run_error rfl⟩⟩

end Pipeline

end Retarget
