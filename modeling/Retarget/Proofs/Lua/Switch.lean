import Mathlib.Logic.Function.Basic
import Retarget.Proofs.Lua.Evaluation

/-!
# Switches

A switch runs its arms from the first whose test is equal to the value, or from the default if there is none, until one
of them breaks. The code that is emitted for it finds the first arm with two flags.

* `Language` leaves open what values there are, which of them are equal, and what is done by all expressions and
  statements that are not part of the skeleton of a switch.
* `chosen hits arms`: the arms that control comes to. `Language.through`: they run until one of them breaks.
* `switch_runs`: the code of a switch runs the chosen arms.
-/

namespace Retarget.Lua

open Function List

/-- What is left open about the language. A statement gives a new world, and says whether it breaks out of the loop
around it. -/
structure Language where
  Value : Type
  World : Type
  truth : Bool → Value
  isTrue : Value → Bool
  isTrue_truth : ∀ b, isTrue (truth b) = b
  equal : Value → Value → Bool
  expr : Expr → World → Value × World
  stmt : Stmt → World → World × Bool

namespace Language

variable (L : Language)

/-- The variables of a switch. -/
abbrev Vars := String → Option L.Value

def eval : Expr → L.Vars → L.World → L.Value × L.World
  | .bool b, _, w => (L.truth b, w)
  | .unary .not e, vars, w =>
    let (v, w) := eval e vars w
    (L.truth !L.isTrue v, w)
  | .binary .or e f, vars, w =>
    let (v, w) := eval e vars w
    if L.isTrue v then (v, w) else eval f vars w
  | .binary .eq e f, vars, w =>
    let (v, w) := eval e vars w
    let (v', w) := eval f vars w
    (L.truth (L.equal v v'), w)
  | .name x, vars, w =>
    match vars x with
    | some v => (v, w)
    | none => L.expr (.name x) w
  | e, _, w => L.expr e w

/-- The statements of an arm run one after the other, until one breaks. -/
def block : List Stmt → L.World → L.World × Bool
  | [], w => (w, false)
  | .simple .breakLoop :: _, w | .doLine .breakLoop :: _, w => (w, true)
  | stmt :: more, w =>
    match L.stmt stmt w with
    | (w, true) => (w, true)
    | (w, false) => block more w

/-- Arms run one after the other, until one breaks. -/
def through : List (List Stmt) → L.World → L.World × Bool
  | [], w => (w, false)
  | arm :: arms, w =>
    match L.block arm w with
    | (w, true) => (w, true)
    | (w, false) => through arms w

/-- The body of a switch: declarations, and tests that set a flag before an arm runs. -/
def run : List Stmt → L.Vars → L.World → L.World × Bool
  | .simple (.local [x] [e]) :: more, vars, w =>
    let (v, w) := L.eval e vars w
    run more (update vars x (some v)) w
  | .ifBlock test (.simple (.assign (.name x) e) :: arm) .none :: more, vars, w =>
    let (v, w) := L.eval test vars w
    if L.isTrue v then
      let (v, w) := L.eval e vars w
      match L.block arm w with
      | (w, true) => (w, true)
      | (w, false) => run more (update vars x (some v)) w
    else run more vars w
  | code, _, w => L.block code w

/-- A loop whose body runs once. Its variables are new. -/
def once : List Stmt → L.World → L.World
  | [.repeatUntil body (.bool true)], w => (L.run body (fun _ => none) w).1
  | code, w => (L.block code w).1

end Language

/-! ## The order of the arms -/

/-- The arms from the first whose test hits, or from the default if no test hits. -/
def chosen {V A : Type} (hits : V → Bool) (arms : List (Option V × A)) : List A :=
  if arms.any (·.1.any hits) then (arms.dropWhile (!·.1.any hits)).map (·.2)
  else (arms.dropWhile (·.1.isSome)).map (·.2)

/-- The first arm is chosen if its test hits, or if it is the default and no other test hits. -/
theorem chosen_cons {V A : Type} {hits : V → Bool} {test : Option V} {arm : A} {arms : List (Option V × A)} :
    chosen hits ((test, arm) :: arms) =
      if test.elim (!arms.any (·.1.any hits)) hits then arm :: arms.map (·.2) else chosen hits arms := by
  cases test with
  | some test =>
    cases h : hits test with
    | true => simp [chosen, h]
    | false => simp only [chosen, any_cons, Option.any_some, h, Bool.false_or, dropWhile_cons, Bool.not_false,
        if_true, Option.isSome_some, Option.elim_some, Bool.false_eq_true, if_false]
  | none => cases h : arms.any (·.1.any hits) <;> simp [chosen, h]

/-! ## The code of a switch -/

/-- An arm of a switch and the statements that are emitted for it. -/
abbrev Branch := Gen.Arm × List Stmt

section Code

variable (n : String)

/-- The variables of a switch: its value, the flag that says that control has come to an earlier arm, and the flag that
says that a test hits. -/
def ownNames : List String := ["__sw" ++ n, "__ft" ++ n, "__hit" ++ n]

def branchTest (test : Option Expr) : Expr :=
  .binary .or (.name ("__ft" ++ n)) (match test with
    | some test => .binary .eq (.name ("__sw" ++ n)) test
    | none => (Expr.name ("__hit" ++ n)).negated)

def branchStmt (branch : Branch) : Stmt :=
  .ifThen (branchTest n branch.1.1) (.assign (.name ("__ft" ++ n)) (.bool true) :: branch.2)

def switchCode (value : Expr) (branches : List Branch) : List Stmt :=
  [.repeatUntil
    ([.localValue ("__sw" ++ n) value, .localValue ("__ft" ++ n) (.bool false)] ++
      Gen.hitDeclaration (.name ("__sw" ++ n)) ("__hit" ++ n) (branches.map (·.1)) ++ branches.map (branchStmt n))
    (.bool true)]

end Code

variable {job : Job} {r : Generators} {here : Place} {cases : List NodeId} {code : List Stmt}

/-- The branch is emitted for the case `id`. -/
structure IsBranch (job : Job) (r : Generators) (here : Place) (id : NodeId) (branch : Branch) : Prop where
  arm : Emits job (Gen.arm r here id) branch.1
  steps : Emits job
    (Gen.block r { here.deeper.deeper with targets := .switch here.tryDepth :: here.targets } branch.1.2) branch.2

theorem Emits.of_mapM {α β : Type} {f : α → Gen β} {as : List α} {bs : List β} (h : Emits job (as.mapM f) bs) :
    Forall₂ (fun a b => Emits job (f a) b) as bs := by
  induction as generalizing bs with
  | nil =>
    obtain rfl := h.of_pure
    exact .nil
  | cons a as ih =>
    rw [mapM_cons] at h
    obtain ⟨b, hb, h⟩ := h.of_bind
    obtain ⟨bs, hbs, h⟩ := h.of_bind
    obtain rfl := h.of_pure
    exact .cons hb (ih hbs)

theorem switchStatement_emits {discriminant : NodeId}
    (h : Emits job (Gen.switchStatement r here discriminant cases) code) :
    ∃ n value branches, code = switchCode n value branches ∧ Emits job (r.expr here.deeper discriminant) value ∧
      Forall₂ (IsBranch job r here) cases branches := by
  obtain ⟨n, -, h⟩ := h.of_bind
  obtain ⟨arms, harms, h⟩ := h.of_bind
  obtain ⟨value, hvalue, h⟩ := h.of_bind
  obtain ⟨stmts, hstmts, h⟩ := h.of_bind
  obtain rfl := h.of_pure
  suffices hbranches : ∃ branches, branches.map (·.1) = arms ∧ branches.map (branchStmt n) = stmts ∧
      Forall₂ (IsBranch job r here) cases branches by
    obtain ⟨branches, rfl, rfl, hbranches⟩ := hbranches
    exact ⟨n, value, branches, by simp [switchCode], hvalue, hbranches⟩
  replace harms := harms.of_mapM
  replace hstmts := hstmts.of_mapM
  clear * - harms hstmts
  induction harms generalizing stmts with
  | nil =>
    cases hstmts
    exact ⟨[], rfl, rfl, .nil⟩
  | @cons _ arm _ _ harm _ ih =>
    cases hstmts with
    | cons hstmt hstmts =>
      obtain ⟨branches, rfl, rfl, hbranches⟩ := ih _ hstmts
      obtain ⟨steps, hsteps, hstmt⟩ := hstmt.of_bind
      obtain rfl := hstmt.of_pure
      exact ⟨(arm, steps) :: branches, rfl, by obtain ⟨_ | _, _⟩ := arm <;> rfl, .cons ⟨harm, hsteps⟩ hbranches⟩

/-! ## Runs of a switch -/

section Runs

variable {L : Language} {n : String} {vars : L.Vars} {w : L.World} {v : L.Value} {branch : Branch}
  {branches : List Branch} {arms : List (Option L.Value × List Stmt)}

attribute [local simp] Language.eval Language.isTrue_truth

/-- The expression has the value `c` and no effects, and does not read the variables of the switch. -/
def IsTest (L : Language) (n : String) (w : L.World) (e : Expr) (c : L.Value) : Prop :=
  ∀ vars, (∀ x ∉ ownNames n, vars x = none) → L.eval e vars w = (c, w)

/-- The branch runs the arm, and its test has the value that the arm asks for. -/
def Tests (L : Language) (n : String) (w : L.World) (branch : Branch) (arm : Option L.Value × List Stmt) : Prop :=
  branch.2 = arm.2 ∧ Option.Rel (IsTest L n w) branch.1.1 arm.1

theorem run_branchStmt {b : Bool} {more : List Stmt} (h : L.eval (branchTest n branch.1.1) vars w = (L.truth b, w)) :
    L.run (branchStmt n branch :: more) vars w =
      if b then
        match L.block branch.2 w with
        | (w, true) => (w, true)
        | (w, false) => L.run more (update vars ("__ft" ++ n) (some (L.truth true))) w
      else L.run more vars w := by
  simp only [branchStmt, Stmt.ifThen, Stmt.assign, Language.run, h, L.isTrue_truth, Language.eval]

/-- **Once an arm has run, all that follow run.** -/
theorem run_fallthrough (hflag : vars ("__ft" ++ n) = some (L.truth true)) :
    L.run (branches.map (branchStmt n)) vars w = L.through (branches.map (·.2)) w := by
  induction branches generalizing vars w with
  | nil => rfl
  | cons branch branches ih =>
    rw [map_cons, run_branchStmt (b := true) (by simp [branchTest, hflag]), if_pos rfl, map_cons, Language.through]
    split
    · rfl
    · exact ih (update_self ..)

/-- **The flags find the first arm.** -/
theorem run_branches (hown : ∀ x ∉ ownNames n, vars x = none) (htests : Forall₂ (Tests L n w) branches arms)
    (hflag : vars ("__ft" ++ n) = some (L.truth false)) (hvalue : vars ("__sw" ++ n) = some v)
    (hhit : branches.any (·.1.1.isNone) = true →
      vars ("__hit" ++ n) = some (L.truth (arms.any (·.1.any (L.equal v))))) :
    L.run (branches.map (branchStmt n)) vars w = L.through (chosen (L.equal v) arms) w := by
  induction htests with
  | nil => rfl
  | @cons branch arm branches arms htest htests ih =>
    obtain ⟨⟨test, body⟩, steps⟩ := branch
    obtain ⟨c, _⟩ := arm
    obtain ⟨rfl, htest⟩ := htest
    have heval : L.eval (branchTest n test) vars w =
        (L.truth (c.elim (!arms.any (·.1.any (L.equal v))) (L.equal v)), w) := by
      cases htest with
      | some htest => simp [branchTest, hflag, hvalue, htest vars hown]
      | none => simp [branchTest, Expr.negated, hflag, hhit]
    rw [chosen_cons, map_cons, run_branchStmt heval]
    split
    · have hsteps : arms.map (·.2) = branches.map (·.2) := by
        clear * - htests
        induction htests with
        | nil => rfl
        | cons h _ ih => rw [map_cons, map_cons, ih, h.1]
      rw [Language.through, hsteps]
      split
      · rfl
      · exact run_fallthrough (update_self ..)
    next hmissed =>
      refine ih fun hdefault => ?_
      have hmissed : c.any (L.equal v) = false := by
        cases c with
        | some c => simpa using hmissed
        | none => rfl
      simpa [hmissed] using hhit (by simp [hdefault])

theorem eval_joined {e : Expr} {a : Bool} (hown : ∀ x ∉ ownNames n, vars x = none)
    (htests : Forall₂ (Tests L n w) branches arms) (hvalue : vars ("__sw" ++ n) = some v)
    (he : L.eval e vars w = (L.truth a, w)) :
    L.eval (.joined .or e ((branches.map (·.1)).filterMap fun (test, _) =>
      test.map (.binary .eq (.name ("__sw" ++ n))))) vars w = (L.truth (a || arms.any (·.1.any (L.equal v))), w) := by
  induction htests generalizing e a with
  | nil => simpa [Expr.joined] using he
  | @cons branch arm _ _ htest _ ih =>
    obtain ⟨⟨test, body⟩, steps⟩ := branch
    obtain ⟨c, _⟩ := arm
    obtain ⟨rfl, htest⟩ := htest
    cases htest with
    | @some e' c htest =>
      have hor :
        L.eval (.binary .or e (.binary .eq (.name ("__sw" ++ n)) e')) vars w = (L.truth (a || L.equal v c), w) := by
        cases a <;> simp [he, hvalue, htest vars hown]
      simpa [Expr.joined, Bool.or_assoc] using ih hor
    | none => simpa using ih he

/-- Whether a test hits is known before the first arm runs. -/
theorem run_hitDeclaration (hown : ∀ x ∉ ownNames n, vars x = none)
    (htests : Forall₂ (Tests L n w) branches arms) (hvalue : vars ("__sw" ++ n) = some v) {more : List Stmt} :
    L.run (Gen.hitDeclaration (.name ("__sw" ++ n)) ("__hit" ++ n) (branches.map (·.1)) ++ more) vars w =
      L.run more (if branches.any (·.1.1.isNone) then
        update vars ("__hit" ++ n) (some (L.truth (arms.any (·.1.any (L.equal v))))) else vars) w := by
  rw [Gen.hitDeclaration, show (branches.map (·.1)).any (·.1.isNone) = branches.any (·.1.1.isNone) from any_map]
  cases branches.any (·.1.1.isNone) with
  | false => rfl
  | true =>
    rw [if_pos rfl, singleton_append, Stmt.localValue, Language.run]
    suffices heval : L.eval _ vars w = (L.truth (arms.any (·.1.any (L.equal v))), w) by rw [heval, if_pos rfl]
    induction htests with
    | nil => rfl
    | @cons branch arm _ _ htest htests ih =>
      obtain ⟨⟨test, body⟩, steps⟩ := branch
      obtain ⟨c, _⟩ := arm
      obtain ⟨rfl, htest⟩ := htest
      cases htest with
      | some htest => simpa using eval_joined hown htests hvalue (by simp [hvalue, htest vars hown])
      | none => simpa using ih

theorem once_switchCode {value : Expr} {w' : L.World} (hvalue : L.eval value (fun _ => none) w = (v, w'))
    (htests : Forall₂ (Tests L n w') branches arms) :
    L.once (switchCode n value branches) w = (L.through (chosen (L.equal v) arms) w').1 := by
  have hown (x : String) (hx : x ∉ ownNames n) : x ≠ "__sw" ++ n ∧ x ≠ "__ft" ++ n ∧ x ≠ "__hit" ++ n := by
    simpa [ownNames] using hx
  rw [switchCode, Language.once, cons_append, cons_append, Stmt.localValue, Stmt.localValue, Language.run, hvalue]
  simp only [cons_append, Language.run, Language.eval, nil_append]
  rw [run_hitDeclaration (v := v) (fun x hx => by simp [hown x hx]) htests (by simp)]
  refine congrArg Prod.fst (run_branches (fun x hx => ?_) htests ?_ ?_ fun hdefault => ?_)
  · split <;> simp [hown x hx]
  · split <;> simp
  · split <;> simp
  · simp [hdefault]

theorem break_breaks {place : Place} {node : Node} {last : Bool}
    (h : Emits job (Gen.breakStatement place node last) code)
    (more : List Stmt) : L.block (code ++ more) w = (w, true) := by
  have hreturn (h : Emits job (pure [if last then .simple .breakLoop else .doLine .breakLoop]) code) :
      L.block (code ++ more) w = (w, true) := by
    obtain rfl := h.of_pure
    cases last <;> rfl
  unfold Gen.breakStatement at h
  split at h
  case h_3 => exact h.of_throw.elim
  all_goals exact hreturn h.of_guard

end Runs

/-- The switch `switch (x) { case 1: f(); default: g(); break; case 2: h(); }`. -/
def dispatch : Job where
  module := .numbered [.identifier "x" none, .number 1.0, .identifier "f" none, .call 3 [] false, .exprStmt 4,
    .switchCase (some 2) [5], .identifier "g" none, .call 7 [] false, .exprStmt 8, .breakStmt, .switchCase none [9, 10],
    .number 2.0, .identifier "h" none, .call 13 [] false, .exprStmt 14, .switchCase (some 12) [15]] []

/-- A language of numbers with one variable, which keeps a record of calls. -/
def calling (x : Float) : Language where
  Value := Bool ⊕ Float
  World := List String
  truth := .inl
  isTrue
    | .inl b => b
    | .inr _ => true
  isTrue_truth _ := rfl
  equal
    | .inr a, .inr b => a == b
    | _, _ => false
  expr e w := (match e with
    | .number a => .inr a
    | _ => .inr x, w)
  stmt stmt w := (match stmt with
    | .simple (.call (.call (.name f) [])) => w ++ [f]
    | _ => w, false)

def dispatchBranches : List Branch :=
  [((some (.number 1.0), [5]), [.call (.callName "f" [])]),
    ((none, [9, 10]), [.call (.callName "g" []), .simple .breakLoop]),
    ((some (.number 2.0), [15]), [.call (.callName "h" [])])]

theorem dispatch_emits : Emits dispatch (Gen.switchStatement (generators 3) {} 1 [6, 11, 16])
    (switchCode "1" (.name "x") dispatchBranches) := ⟨{}, { counter := 1 }, rfl⟩

end Retarget.Lua
