import Mathlib.Algebra.BigOperators.Group.List.Basic
import Mathlib.Algebra.Group.Pointwise.Set.Basic
import Mathlib.Algebra.Group.Submonoid.Basic
import Mathlib.Algebra.Order.Group.Multiset
import Retarget.Proofs.Lua.Operators

/-!
# How often targets are evaluated

A run of a part of a program is told by the variables that it mentions. Which way a test goes is left open, and how
often a loop goes round.

* `Expr.runs`, `Stmt.runs`: all runs that there can be.
* `Emits job g a`: the computation `g` gives `a`, whatever has been gathered before.
* `write_evaluates`: every run of what is emitted for a compound assignment, a logical assignment or an update of a
  member evaluates the member at least twice, unless it is a logical assignment that writes nothing.
-/

namespace Retarget.Lua

open scoped Pointwise

/-! ## Runs -/

/-- Runs, each with the variables that it mentions. -/
abbrev RunSet := Set (Multiset String)

def RunSet.rounds (body : RunSet) : RunSet := (AddSubmonoid.closure body : AddSubmonoid (Multiset String))

/-- Control may not reach what follows the statement in its block. -/
def Stmt.canLeave : Stmt → Bool
  | .simple s | .doLine s | .ifLine _ s =>
    match s with
    | .goto _ | .breakLoop | .ret _ => true
    | _ => false
  | .function .. => false
  | _ => true

mutual

/-- The runs of an expression. A function runs only when it is called, and what is known of that is a function that is
called at once. -/
def Expr.runs : Expr → RunSet
  | .name name => {{name}}
  | .paren e | .unary _ e | .field e _ => e.runs
  | .binary op l q => l.runs + if op = .and ∨ op = .or then {0} ∪ q.runs else q.runs
  | .index t k => t.runs + k.runs
  | .call (.paren (.function _ _ body)) arguments => exprsRuns arguments + stmtsRuns body
  | .call f arguments => f.runs + exprsRuns arguments
  | .method receiver _ arguments => receiver.runs + exprsRuns arguments
  | .table entries => entriesRuns entries
  | _ => {0}

def exprsRuns : List Expr → RunSet
  | [] => {0}
  | e :: more => e.runs + exprsRuns more

def entriesRuns : List Entry → RunSet
  | [] => {0}
  | e :: more => e.runs + entriesRuns more

def Entry.runs : Entry → RunSet
  | .item value | .named _ value => value.runs
  | .keyed key value => key.runs + value.runs

def Simple.runs : Simple → RunSet
  | .local _ values | .ret values => exprsRuns values
  | .assign place value => place.runs + value.runs
  | .call value => value.runs
  | _ => {0}

def Stmt.runs : Stmt → RunSet
  | .simple s | .doLine s => s.runs
  | .ifLine test s => test.runs + ({0} ∪ s.runs)
  | .function .. => {0}
  | .doBlock body => stmtsRuns body
  | .ifBlock test body alternate => test.runs + (stmtsRuns body ∪ alternate.runs)
  | .whileLoop test body | .repeatUntil body test => .rounds (test.runs ∪ stmtsRuns body)
  | .forIn _ iterator body => iterator.runs + .rounds (stmtsRuns body)
  | .forRange _ first last body => first.runs + last.runs + .rounds (stmtsRuns body)

def Alternate.runs : Alternate → RunSet
  | .none => {0}
  | .elseIf test body alternate => test.runs + (stmtsRuns body ∪ alternate.runs)
  | .otherwise body => stmtsRuns body

def stmtsRuns : List Stmt → RunSet
  | [] => {0}
  | s :: more => s.runs + if s.canLeave then {0} ∪ stmtsRuns more else stmtsRuns more

end

attribute [local simp] Expr.runs exprsRuns Simple.runs Stmt.runs stmtsRuns

/-! ## Computations that give a result -/

/-- A computation gives a result, from some of what can have been gathered before. -/
def Emits {α : Type} (job : Job) (g : Gen α) (a : α) : Prop := ∃ s s', g job s = (.ok a, s')

namespace Emits

variable {α β : Type} {job : Job} {b : β} {a : α} {id : NodeId} {node : Node}

theorem of_bind {g : Gen α} {f : α → Gen β} (h : Emits job (g >>= f) b) : ∃ a, Emits job g a ∧ Emits job (f a) b := by
  obtain ⟨s, s', h⟩ := h
  change StateT.bind (g job) (ExceptT.bindCont fun a => f a job) s = _ at h
  cases hg : g job s with
  | mk result t =>
    simp only [StateT.bind, hg] at h
    cases result with
    | error e => cases congrArg Prod.fst h
    | ok a => exact ⟨a, ⟨s, t, hg⟩, t, s', h⟩

theorem of_guard {c : Prop} [Decidable c] {g : Gen Unit} {f : Unit → Gen β}
    (h : Emits job (if c then g >>= f else f ()) b) : Emits job (f ()) b := by
  split at h
  case isTrue =>
    obtain ⟨_, -, h⟩ := h.of_bind
    exact h
  case isFalse => exact h

theorem of_pure {b : α} (h : Emits job (pure a) b) : a = b := by
  obtain ⟨s, s', h⟩ := h
  exact Except.ok.inj (congrArg Prod.fst h)

theorem of_throw {e : BackendError} (h : Emits job (throw e) a) : False := by
  obtain ⟨s, s', h⟩ := h
  cases congrArg Prod.fst h

theorem of_node (h : Emits job (Gen.node id) node) : job.module.node? id = some node := by
  obtain ⟨_, ⟨s, s', hread⟩, h⟩ := h.of_bind
  cases congrArg Prod.fst hread
  unfold Module.find at h
  cases hnode : job.module.node? id with
  | none => exact ((by simpa only [hnode] using h : Emits job (throw _) node).of_throw).elim
  | some found => rw [(by simpa only [hnode] using h : Emits job (pure found) node).of_pure]

theorem kind_eq {kind : Kind} (h : Emits job (Gen.node id) node) (hkind : job.module.kind? id = some kind) :
    node.kind = kind := by
  simpa [Module.kind?, NodeTable.kind?, show job.module.nodes[id]? = some node from h.of_node] using hkind

theorem of_found {f : Node → Gen α} (hnode : job.module.node? id = some node) (h : Emits job (f node) a) :
    Emits job (Gen.node id >>= f) a := by
  obtain ⟨s, s', h⟩ := h
  refine ⟨s, s', ?_⟩
  change StateT.bind (Gen.node id job) (ExceptT.bindCont fun node => f node job) s = _
  simp only [StateT.bind, Yields.node hnode s]
  exact h

end Emits

/-! ## Writes -/

/-- A run of what is emitted for the node as an expression. -/
def IsRun (job : Job) (id : NodeId) (ran : Multiset String) : Prop :=
  ∃ depth here e, Emits job ((generators depth).expr here id) e ∧ ran ∈ e.runs

/-- The run evaluates the node `n` times and mentions `rest` besides. -/
def Evaluates (job : Job) (id : NodeId) (n : Nat) (rest ran : Multiset String) : Prop :=
  ∃ runs : List (Multiset String), runs.length = n ∧ (∀ r ∈ runs, IsRun job id r) ∧ ran = runs.sum + rest

/-- How often a write evaluates its target, if it is a statement or if its value is used. -/
def evaluations (statement : Bool) : Kind → Nat
  | .update _ before _ => if before && !statement then 3 else 2
  | _ => if statement then 2 else 3

/-- The run evaluates the target of the write so often. A logical assignment that writes nothing does so once less, and
does nothing else. -/
def Rewrites (job : Job) (statement : Bool) (kind : Kind) (t : NodeId) (ran : Multiset String) : Prop :=
  (∃ rest, Evaluates job t (evaluations statement kind) rest ran) ∨
    (∃ op value, kind = .assign op t value ∧ op.logical?.isSome = true) ∧
      Evaluates job t (evaluations statement kind - 1) 0 ran

section Member

variable {job : Job} {object property t v : NodeId} {computed : Bool} {depth n k : Nat} {here : Place} {node : Node}
  {op : AssignmentOperator} {place e : Expr} {ran ran' rest rest' : Multiset String}

theorem IsRun.once (h : IsRun job t ran) : Evaluates job t 1 0 ran := ⟨[ran], rfl, by simpa using h, by simp⟩

theorem Evaluates.add (h : Evaluates job t n rest ran) (h' : Evaluates job t k rest' ran') :
    Evaluates job t (n + k) (rest + rest') (ran + ran') := by
  obtain ⟨runs, rfl, hruns, rfl⟩ := h
  obtain ⟨runs', rfl, hruns', rfl⟩ := h'
  refine ⟨runs ++ runs', List.length_append, ?_, ?_⟩
  · simpa [or_imp, forall_and] using ⟨hruns, hruns'⟩
  · rw [List.sum_append, add_add_add_comm]

theorem Evaluates.more (h : Evaluates job t n rest ran) : Evaluates job t n (rest + ran') (ran + ran') :=
  h.add ⟨[], rfl, by simp, by simp⟩

variable (hmember : job.module.kind? t = some (.member object property computed))
include hmember

theorem target_isRun (h : Emits job (Gen.target (generators depth) here t) place) (hran : ran ∈ place.runs) :
    IsRun job t ran := by
  obtain ⟨node, hnode, h⟩ := h.of_bind
  have hkind := hnode.kind_eq hmember
  have hemits : Emits job (Gen.member (generators depth) here node object property computed) place := by
    simp only [hkind] at h
    split at h
    case isTrue =>
      obtain ⟨name, -, h⟩ := h.of_bind
      split at h
      case isTrue =>
        obtain ⟨_, hthrow, -⟩ := h.of_bind
        exact hthrow.of_throw.elim
      case isFalse => exact h
    case isFalse => exact h
  refine ⟨depth + 1, here, place, .of_found hnode.of_node ?_, hran⟩
  simpa only [hkind] using hemits

omit hmember in
theorem operand_isRun (h : Emits job (Gen.operand (generators depth) here t) e) (hran : ran ∈ e.runs) :
    IsRun job t ran := by
  obtain ⟨e', he', h⟩ := h.of_bind
  obtain ⟨node, -, h⟩ := h.of_bind
  obtain rfl := h.of_pure
  refine ⟨depth, here, e', he', ?_⟩
  split at hran
  · rwa [Expr.runs] at hran
  · exact hran

omit hmember in
/-- An operation evaluates its left operand. -/
theorem binary_evaluates {op : BinaryOperator} (h : Emits job (Gen.binary (generators depth) here node op t v) e)
    (hran : ran ∈ e.runs) : ∃ rest, Evaluates job t 1 rest ran := by
  unfold Gen.binary at h
  replace h := Emits.of_guard h
  dsimp only at h
  split at h
  on_goal 1 =>
    obtain ⟨_, -, h⟩ := h.of_bind
    obtain ⟨_, -, h⟩ := h.of_bind
  all_goals
    obtain ⟨joins, -, h⟩ := h.of_bind
    obtain ⟨l, hl, h⟩ := h.of_bind
    obtain ⟨q, -, h⟩ := h.of_bind
    suffices hleft : ∃ others, e.runs = l.runs + others by
      obtain ⟨others, heq⟩ := hleft
      rw [heq] at hran
      obtain ⟨left, hleft, other, -, rfl⟩ := hran
      exact ⟨_, (operand_isRun hl hleft).once.more⟩
    split at h
    case isTrue =>
      obtain rfl := h.of_pure
      exact ⟨q.runs, by simp⟩
    case isFalse =>
      cases op
      case rem =>
        obtain rfl := Emits.of_pure h
        exact ⟨{{"math"}} + q.runs, by simp [Helper.library, add_left_comm, -Set.singleton_add]⟩
      case instanceOf =>
        obtain ⟨_, -, h⟩ := Emits.of_bind h
        obtain rfl := h.of_pure
        exact ⟨{{Helper.instanceOf.name}} + q.runs, by simp [Expr.callName, add_left_comm]⟩
      case isIn =>
        obtain rfl := Emits.of_pure h
        exact ⟨q.runs, by simp [add_comm]⟩
      all_goals
        obtain rfl := Emits.of_pure h
        exact ⟨q.runs, by simp⟩

theorem assignment_rewrites {code : List Stmt} (hop : op ≠ .assign)
    (h : Emits job (Gen.assignment (generators depth) here node op t v) code) : ∃ s : Stmt, code = [s] ∧
      s.canLeave = false ∧ ∀ ran ∈ s.runs, Rewrites job true (.assign op t v) t ran := by
  obtain ⟨place, hplace, h⟩ := h.of_bind
  have honce {ran : Multiset String} (hran : ran ∈ place.runs) : Evaluates job t 1 0 ran :=
    (target_isRun hmember hplace hran).once
  split at h
  case h_1 _ _ logical hlogical =>
    obtain ⟨value, -, h⟩ := h.of_bind
    obtain rfl := h.of_pure
    refine ⟨_, rfl, rfl, fun ran hran => ?_⟩
    have hran : ran ∈ place.runs + ({0} ∪ (place.runs + value.runs)) := by
      cases logical <;>
        simpa [Expr.negated, Expr.isNil] using hran
    obtain ⟨tested, htested, _, rfl | ⟨written, hwritten, other, -, rfl⟩, rfl⟩ := hran
    · exact .inr ⟨⟨op, v, rfl, by simp [hlogical]⟩, (honce htested).more⟩
    · exact .inl ⟨_, (honce htested).add (honce hwritten).more⟩
  case h_2 _ _ binary _ _ =>
    obtain ⟨value, hvalue, h⟩ := h.of_bind
    obtain rfl := h.of_pure
    refine ⟨_, rfl, rfl, fun ran hran => ?_⟩
    obtain ⟨written, hwritten, computed, hcomputed, rfl⟩ := hran
    obtain ⟨rest, hevaluates⟩ := binary_evaluates hvalue hcomputed
    exact .inl ⟨_, (honce hwritten).add hevaluates⟩
  case h_3 _ _ hlogical hbinary => cases op <;> contradiction

omit hmember

theorem stmtsRuns_cons {s : Stmt} {more : List Stmt} (h : s.canLeave = false) :
    stmtsRuns (s :: more) = s.runs + stmtsRuns more := by
  simp [h]

theorem stmtsRuns_ret : stmtsRuns [.ret e] = e.runs := by
  simp [Stmt.ret]

theorem updateStatement_runs {op : UpdateOperator} : (Gen.updateStatement op place e).runs = place.runs + e.runs := by
  simp [Gen.updateStatement, Gen.updateOp, Stmt.assign]

theorem immediately_runs {body : Place → Gen (List Stmt)} (h : Emits job (Gen.immediately here body) e) :
    ∃ steps, Emits job (body here.deeper) steps ∧ e.runs = stmtsRuns steps := by
  obtain ⟨steps, hsteps, h⟩ := h.of_bind
  obtain rfl := h.of_pure
  exact ⟨steps, hsteps, by simp [Expr.immediately]⟩

end Member

/-- **How often the target of a write is evaluated.** Every run of what is emitted for a compound assignment, a logical
assignment or an update of a member evaluates the member more than once, as a statement and as an expression; only a
logical assignment that is a statement and writes nothing evaluates it once. -/
theorem write_evaluates (job : Job) (depth : Nat) (here : Place) (id t object property : NodeId) (computed : Bool)
    (kind : Kind) (hkind : job.module.kind? id = some kind)
    (hwrites : (∃ op value, kind = .assign op t value ∧ op ≠ .assign) ∨ ∃ op before, kind = .update op before t)
    (hmember : job.module.kind? t = some (.member object property computed)) :
    (∀ code, Emits job ((generators depth).effect here id) code → ∀ ran ∈ stmtsRuns code,
      Rewrites job true kind t ran) ∧
    ∀ e, Emits job ((generators depth).expr here id) e → ∀ ran ∈ e.runs, Rewrites job false kind t ran := by
  cases depth with
  | zero => exact ⟨fun _ h => h.of_throw.elim, fun _ h => h.of_throw.elim⟩
  | succ depth =>
    refine ⟨fun code h ran hran => ?_, fun e h ran hran => ?_⟩
    · obtain ⟨node, hnode, h⟩ := h.of_bind
      obtain ⟨op, v, rfl, hop⟩ | ⟨op, before, rfl⟩ := hwrites <;> simp only [hnode.kind_eq hkind] at h
      · obtain ⟨s, rfl, -, hs⟩ := assignment_rewrites hmember hop h
        exact hs ran (by simpa using hran)
      · obtain ⟨place, hplace, h⟩ := h.of_bind
        obtain rfl := h.of_pure
        have hran : ran ∈ place.runs + place.runs := by simpa [updateStatement_runs] using hran
        obtain ⟨first, hfirst, second, hsecond, rfl⟩ := hran
        have honce := (target_isRun hmember hplace hfirst).once
        exact .inl ⟨_, by simpa [evaluations] using honce.add (target_isRun hmember hplace hsecond).once⟩
    · obtain ⟨node, hnode, h⟩ := h.of_bind
      obtain ⟨op, v, rfl, hop⟩ | ⟨op, before, rfl⟩ := hwrites <;> simp only [hnode.kind_eq hkind] at h
      · obtain ⟨steps, h, heq⟩ := immediately_runs h
        obtain ⟨code, hcode, h⟩ := h.of_bind
        obtain ⟨place, hplace, h⟩ := h.of_bind
        obtain rfl := h.of_pure
        obtain ⟨s, rfl, hstays, hs⟩ := assignment_rewrites hmember hop hcode
        rw [heq, List.singleton_append, stmtsRuns_cons hstays, stmtsRuns_ret] at hran
        obtain ⟨first, hfirst, last, hlast, rfl⟩ := hran
        have hagain := (target_isRun hmember hplace hlast).once
        rcases hs first hfirst with ⟨rest, hevaluates⟩ | ⟨hlogical, hevaluates⟩
        · exact .inl ⟨_, hevaluates.add hagain⟩
        · exact .inr ⟨hlogical, hevaluates.add hagain⟩
      · obtain ⟨place, hplace, h⟩ := h.of_bind
        obtain ⟨steps, h, heq⟩ := immediately_runs h
        obtain rfl := h.of_pure
        have honce {ran : Multiset String} (hran : ran ∈ place.runs) : Evaluates job t 1 0 ran :=
          (target_isRun hmember hplace hran).once
        rw [heq] at hran
        cases before with
        | true =>
          rw [if_pos rfl, stmtsRuns_cons rfl, stmtsRuns_ret, updateStatement_runs] at hran
          obtain ⟨_, ⟨first, hfirst, second, hsecond, rfl⟩, last, hlast, rfl⟩ := hran
          exact .inl ⟨_, ((honce hfirst).add (honce hsecond)).add (honce hlast)⟩
        | false =>
          have hlocal : (Stmt.localValue "__v" place).runs = place.runs := by
            simp [Stmt.localValue]
          rw [if_neg (by decide), stmtsRuns_cons rfl, hlocal] at hran
          obtain ⟨first, hfirst, _, ⟨_, ⟨second, hsecond, other, -, rfl⟩, _, -, rfl⟩, rfl⟩ := hran
          exact .inl ⟨_, (honce hfirst).add (honce hsecond).more.more⟩

/-- The assignment `f().x += y`. -/
def increase : Job where
  module := .numbered [.identifier "f" none, .call 1 [] false, .string "x", .member 2 3 false, .identifier "y" none,
    .assign .addAssign 4 5] []

theorem increase_evaluates : ∃ code, Emits increase ((generators 6).effect {} 6) code ∧
    {"f", "f", "y"} ∈ stmtsRuns code ∧ ∀ ran ∈ stmtsRuns code, ∃ rest, Evaluates increase 4 2 rest ran := by
  let place : Expr := .field (.call (.name "f") []) "x"
  refine ⟨[.assign place (.binary .add place (.name "y"))], ⟨{}, {}, rfl⟩, ?_, ?_⟩
  · simp [place, Stmt.assign]
  · intro ran hran
    have hwrite := write_evaluates increase 6 {} 6 4 2 3 false _ rfl (.inl ⟨_, _, rfl, by decide⟩) rfl
    rcases hwrite.1 _ ⟨{}, {}, rfl⟩ ran hran with h | ⟨⟨op, value, hkind, hlogical⟩, -⟩
    · exact h
    · cases hkind
      cases hlogical

end Retarget.Lua
