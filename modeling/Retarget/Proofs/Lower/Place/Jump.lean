import Retarget.Proofs.Lower.Program

/-!
# Jumps stay inside of what they refer to

In the module of a lowered program every `break` is inside of a loop or a switch of its own function, every `continue`
inside of a loop of its own function, every `return` inside of a function, and every `await` inside of an asynchronous
one. Nodes are looked at from the jump upward.

* `Module.nearest? m test x`: the first node above `x` that passes a test.
* `Housed.meets`: from a jump that is housed the way upward leads to the node that houses it.
* `jumps_of_lower`: the statement for programs.
-/

namespace Retarget

open Syntax LowerM Make

def Module.nearest? (m : Module) (test : Kind → Bool) (x : NodeId) : Option Kind :=
  ((m.parents.ancestors x).filterMap m.kind?).find? test

namespace Kind

def isFunction (kind : Kind) : Bool := kind.function?.isSome

def isAsync (kind : Kind) : Bool := kind.function?.any (·.isAsync)

end Kind

variable {m : Module} {x y p : NodeId} {kind : Kind}

theorem Module.Sound.nearest?_of_owns (h : m.Sound) (hp : m.kind? p = some kind) (hx : x ∈ kind.children)
    (test : Kind → Bool) : m.nearest? test x = if test kind then some kind else m.nearest? test p := by
  have howns : Owns m.kind? p x := ⟨kind, hp, hx⟩
  rw [Module.nearest?, Parents.ancestors_of_some h.acyclic_owner (h.parent?_eq_some.2 howns),
    List.filterMap_cons_some hp, List.find?_cons]
  cases test kind <;> rfl

/-- The first node above `x` that passes a test passes another one too. -/
def Module.Meets (m : Module) (test good : Kind → Bool) (x : NodeId) : Prop :=
  ∃ above, m.nearest? test x = some above ∧ good above = true

variable {test good : Kind → Bool}

theorem Module.Sound.meets_of_owns (h : m.Sound) (hp : m.kind? p = some kind) (hx : x ∈ kind.children)
    (hmeets : (test kind = true ∧ good kind = true) ∨ (test kind = false ∧ m.Meets test good p)) :
    m.Meets test good x := by
  unfold Module.Meets
  rw [h.nearest?_of_owns hp hx]
  rcases hmeets with ⟨htest, hgood⟩ | ⟨htest, hmeets⟩
  · rw [if_pos htest]
    exact ⟨kind, rfl, hgood⟩
  · rw [if_neg (by simp [htest])]
    exact hmeets

theorem Module.Sound.meets_of_nested (h : m.Sound)
    (hgood : ∀ k : Kind, k.isFunction = false → test k = true → good k = true) (hmeets : m.Meets test good y)
    (hx : Nested m.kind? y x) : m.Meets test good x := by
  induction hx with
  | refl => exact hmeets
  | @tail p x _ hstep ih =>
    obtain ⟨⟨kind, hp, hchild⟩, hfunction⟩ := hstep
    refine h.meets_of_owns hp hchild ?_
    cases htest : test kind with
    | false => exact .inr ⟨rfl, ih⟩
    | true =>
      refine .inl ⟨rfl, hgood kind ?_ htest⟩
      by_contra hkind
      exact hfunction ⟨kind, hp, by simpa only [Kind.isFunction, Bool.not_eq_false] using hkind⟩

/-- **From a housed jump upward**: the node that houses it passes the test, and nothing below that node stops the way
to it. -/
theorem Housed.meets (hx : Housed m.kind? kind x) (h : m.Sound) (hjump : kind.allowedAt {} = false)
    (houter : ∀ outer : Kind, kind.allowedAt (outer.inside {}) = true → test outer = true ∧ good outer = true)
    (hgood : ∀ k : Kind, k.isFunction = false → test k = true → good k = true) : m.Meets test good x := by
  obtain hcalm | ⟨p, outer, c, hp, hc, hnested, hallowed⟩ := hx
  · rw [hjump] at hcalm
    cases hcalm
  · exact h.meets_of_nested hgood (h.meets_of_owns hp hc (.inl (houter outer hallowed))) hnested

namespace Syntax.Program

variable {p : Program} {options : LowerOptions} {b : Builder}

theorem housed_of_toBuilder (h : p.toBuilder options = .ok b) (hx : b.kind? x = some kind) : Housed b.kind? kind x := by
  obtain ⟨⟨body, s⟩, hrun, hb⟩ := Except.bind_eq_ok.1 h
  cases hb
  have hnew : (p.initialState options).builder.kind? x = none := by
    simp [initialState, Builder.kind?, NodeTable.kind?]
  -- At the start of a program there is nothing that a jump could refer to.
  obtain hhoused | ⟨-, c, rfl, hallowed⟩ := ((lowerBody_endsWell p options _).of_ok hrun).tame.jumps hnew hx
  · exact hhoused
  · exact .inl hallowed

attribute [local simp] Kind.allowedAt

/-- **Jumps of a lowered program are inside of what they refer to.** On the way up from a `break` a loop or a switch
comes before any function, from a `continue` a loop comes before any function, from a `return` there is a function, and
from an `await` the first function is asynchronous. -/
theorem jumps_of_lower (h : p.lower options = .ok m) (hx : m.kind? x = some kind) :
    (kind = .breakStmt → ∃ above, m.nearest? (fun k => k.isLoop || k.isSwitch || k.isFunction) x = some above ∧
      (above.isLoop || above.isSwitch) = true) ∧
    (kind = .continueStmt → ∃ above, m.nearest? (fun k => k.isLoop || k.isFunction) x = some above ∧
      above.isLoop = true) ∧
    (∀ argument, kind = .returnStmt argument → ∃ above, m.nearest? (·.isFunction) x = some above ∧
      above.isFunction = true) ∧
    ∀ argument, kind = .awaitExpr argument → ∃ above, m.nearest? (·.isFunction) x = some above ∧
      above.isAsync = true := by
  obtain ⟨b, hb, rfl, -⟩ := lower_eq_ok.1 h
  have hsound := (finished_of_toBuilder hb).toModule_sound options.build.deriveCfg
  have hhoused : Housed (b.toModule options.build.deriveCfg).kind? kind x := housed_of_toBuilder hb hx
  have hinside := fun outer : Kind => outer.inside_cases (c := {})
  refine ⟨?_, ?_, ?_, ?_⟩
  · rintro rfl
    refine hhoused.meets hsound rfl (fun outer hallowed => ?_) (by simp +contextual)
    obtain ⟨f, -, -, -, h⟩ | ⟨-, hloop, -, -⟩ | ⟨-, -, hswitch, -⟩ | ⟨-, -, -, h⟩ := hinside outer
    · simp [h, FunctionContext.function] at hallowed
    · simp [hloop]
    · simp [hswitch]
    · simp [h] at hallowed
  · rintro rfl
    refine hhoused.meets hsound rfl (fun outer hallowed => ?_) (by simp +contextual)
    obtain ⟨f, -, -, -, h⟩ | ⟨-, hloop, -, -⟩ | ⟨-, -, -, h⟩ | ⟨-, -, -, h⟩ := hinside outer
    · simp [h, FunctionContext.function] at hallowed
    · simp [hloop]
    · simp [h, FunctionContext.switch] at hallowed
    · simp [h] at hallowed
  · rintro argument rfl
    refine hhoused.meets hsound rfl (fun outer hallowed => ?_) (by simp)
    obtain ⟨f, hf, -, -, -⟩ | ⟨-, -, -, h⟩ | ⟨-, -, -, h⟩ | ⟨-, -, -, h⟩ := hinside outer
    · simp [Kind.isFunction, hf]
    all_goals simp [h, FunctionContext.loop, FunctionContext.switch] at hallowed
  · rintro argument rfl
    refine hhoused.meets hsound rfl (fun outer hallowed => ?_) (by simp +contextual)
    obtain ⟨f, hf, -, -, h⟩ | ⟨-, -, -, h⟩ | ⟨-, -, -, h⟩ | ⟨-, -, -, h⟩ := hinside outer
    · rw [h] at hallowed
      exact ⟨by simp [Kind.isFunction, hf], by rwa [Kind.isAsync, hf]⟩
    all_goals simp [h, FunctionContext.loop, FunctionContext.switch] at hallowed

def polling : Program :=
  program [function "poll" [nameTarget "next"] [
    while_ (await (call (name "next") [])) [
      switch (name "next") [(some null, [continue_]), (none, [break_])],
      ret none]] true]

theorem polling_jumps : ∃ m, polling.lower { build := { validate := false } } = .ok m ∧
    (m.kind? 10 = some .breakStmt ∧
      ∃ above, m.nearest? (fun k => k.isLoop || k.isSwitch || k.isFunction) 10 = some above ∧
        (above.isLoop || above.isSwitch) = true) ∧
    (m.kind? 8 = some .continueStmt ∧
      ∃ above, m.nearest? (fun k => k.isLoop || k.isFunction) 8 = some above ∧ above.isLoop = true) ∧
    (m.kind? 13 = some (.returnStmt none) ∧
      ∃ above, m.nearest? (·.isFunction) 13 = some above ∧ above.isFunction = true) ∧
    m.kind? 5 = some (.awaitExpr 4) ∧
      ∃ above, m.nearest? (·.isFunction) 5 = some above ∧ above.isAsync = true := by
  have hok : polling.toBuilder.toOption.any (fun b => b.kind? 10 = some .breakStmt ∧ b.kind? 8 = some .continueStmt ∧
      b.kind? 13 = some (.returnStmt none) ∧ b.kind? 5 = some (.awaitExpr 4)) = true := by decide +kernel
  obtain ⟨b, hb, hok⟩ := Except.exists_of_any hok
  obtain ⟨hbreak, hcontinue, hreturn, hawait⟩ := of_decide_eq_true hok
  have hlower : polling.lower { build := { validate := false } } = .ok (b.toModule true) :=
    lower_eq_ok.2 ⟨b, hb, rfl, nofun⟩
  exact ⟨_, hlower, ⟨hbreak, (jumps_of_lower hlower hbreak).1 rfl⟩,
    ⟨hcontinue, (jumps_of_lower hlower hcontinue).2.1 rfl⟩, ⟨hreturn, (jumps_of_lower hlower hreturn).2.2.1 _ rfl⟩,
    hawait, (jumps_of_lower hlower hawait).2.2.2 _ rfl⟩

end Syntax.Program

end Retarget
