import Retarget.Flow.Derive
import Retarget.Proofs.Table

/-!
# Structured execution

How the statements of a function run, whatever their expressions evaluate to: every branch, every number of rounds
and every case can be chosen.

* `Run nodes visited code trace outcome`: the code can run such that the statements of `trace` are visited in this
  order. A loop is visited at each of its tests, a branch or a switch at its test, and any other statement when it runs;
  blocks only hold other statements. What stands first in the head of a `for` loop is visited if `visited` says so.
* `Execution nodes`: the runs that visit every statement. `Recorded nodes`: what is recorded of them, which leaves out
  the statements in the heads of `for` loops.
* `Run.recorded`: every run is recorded as one that only leaves out these.
* `Built nodes id`: the statement is made of statements other than `try`, at every depth.
* `Graph.Walk g i trace`: the statements of the blocks along some path of the graph from the block `i` on.
-/

namespace Retarget.Flow

open Relation

inductive Outcome where
  | normal
  | broke
  | continued
  | stopped
  deriving DecidableEq, Repr

namespace Outcome

def goesOn : Outcome → Bool
  | normal | continued => true
  | broke | stopped => false

def leaveSwitch : Outcome → Outcome
  | broke => normal
  | outcome => outcome

end Outcome

inductive Code where
  | statement (id : NodeId)
  | list (ids : List NodeId)
  /-- The rounds of the loop `id`, from its test on or from its body on. -/
  | rounds (id body : NodeId) (tested atTest : Bool)

def isPlain : Kind → Bool
  | .block _ | .ifStmt .. | .whileStmt .. | .forEach .. | .doWhile .. | .forStmt .. | .switchStmt .. | .tryStmt ..
  | .returnStmt _ | .throwStmt _ | .breakStmt | .continueStmt => false
  | _ => true

abbrev caseBody (nodes : NodeTable) (id : NodeId) : List NodeId := (caseParts nodes id).2

section

variable (nodes : NodeTable) (visited : NodeId → Bool)

inductive Run : Code → List NodeId → Outcome → Prop
  | nil : Run (.list []) [] .normal
  | next {id rest trace trace' outcome} (h : Run (.statement id) trace .normal)
      (hrest : Run (.list rest) trace' outcome) : Run (.list (id :: rest)) (trace ++ trace') outcome
  | leave {id rest trace outcome} (h : Run (.statement id) trace outcome) (houtcome : outcome ≠ .normal) :
    Run (.list (id :: rest)) trace outcome
  | exit {id body} : Run (.rounds id body true true) [id] .normal
  | pause {id body tested} : Run (.rounds id body tested true) [id] .stopped
  | enter {id body tested trace outcome} (h : Run (.rounds id body tested false) trace outcome) :
    Run (.rounds id body tested true) (id :: trace) outcome
  | again {id body tested trace trace' outcome outcome'} (h : Run (.statement body) trace outcome)
      (houtcome : outcome.goesOn = true) (hrest : Run (.rounds id body tested true) trace' outcome') :
      Run (.rounds id body tested false) (trace ++ trace') outcome'
  | broke {id body tested trace} (h : Run (.statement body) trace .broke) :
    Run (.rounds id body tested false) trace .normal
  | stop {id body tested trace} (h : Run (.statement body) trace .stopped) :
    Run (.rounds id body tested false) trace .stopped
  | plain {id kind} (h : nodes.kind? id = some kind) (hkind : isPlain kind = true) : Run (.statement id) [id] .normal
  | block {id body trace outcome} (h : nodes.kind? id = some (.block body)) (hbody : Run (.list body) trace outcome) :
    Run (.statement id) trace outcome
  | consequent {id test consequent alternate trace outcome}
      (h : nodes.kind? id = some (.ifStmt test consequent alternate))
      (hrun : Run (.statement consequent) trace outcome) : Run (.statement id) (id :: trace) outcome
  | alternate {id test consequent alternate trace outcome}
      (h : nodes.kind? id = some (.ifStmt test consequent (some alternate)))
      (hrun : Run (.statement alternate) trace outcome) : Run (.statement id) (id :: trace) outcome
  | skip {id test consequent} (h : nodes.kind? id = some (.ifStmt test consequent none)) :
    Run (.statement id) [id] .normal
  | whileStmt {id test body trace outcome} (h : nodes.kind? id = some (.whileStmt test body))
      (hrounds : Run (.rounds id body true true) trace outcome) : Run (.statement id) trace outcome
  | forEach {id iterate binding iterable body trace outcome}
      (h : nodes.kind? id = some (.forEach iterate binding iterable body))
      (hrounds : Run (.rounds id body true true) trace outcome) : Run (.statement id) trace outcome
  | doWhile {id body test trace outcome} (h : nodes.kind? id = some (.doWhile body test))
      (hrounds : Run (.rounds id body true false) trace outcome) : Run (.statement id) trace outcome
  | forStmt {id init test step body trace outcome} (h : nodes.kind? id = some (.forStmt init test step body))
      (hrounds : Run (.rounds id body test.isSome true) trace outcome) :
      Run (.statement id) (init.toList.filter visited ++ trace) outcome
  | switchStmt {id discriminant before entered trace outcome} {after : List NodeId}
      (h : nodes.kind? id = some (.switchStmt discriminant (before ++ entered :: after)))
      (hrun : Run (.list ((entered :: after).flatMap (caseBody nodes))) trace outcome) :
      Run (.statement id) (id :: trace) outcome.leaveSwitch
  | noCase {id discriminant cases} (h : nodes.kind? id = some (.switchStmt discriminant cases))
      (hdefault : ∀ c ∈ cases, (caseParts nodes c).1 = false) : Run (.statement id) [id] .normal
  | returnStmt {id argument} (h : nodes.kind? id = some (.returnStmt argument)) : Run (.statement id) [id] .stopped
  | throwStmt {id argument} (h : nodes.kind? id = some (.throwStmt argument)) : Run (.statement id) [id] .stopped
  | breakStmt {id} (h : nodes.kind? id = some .breakStmt) : Run (.statement id) [id] .broke
  | continueStmt {id} (h : nodes.kind? id = some .continueStmt) : Run (.statement id) [id] .continued

end

/-- Structured execution, which visits the declaration in the head of a `for` loop as any other statement. -/
abbrev Execution (nodes : NodeTable) := Run nodes fun id => (nodes.kind? id).any Kind.isStatement

/-- Runs as they are recorded. -/
abbrev Recorded (nodes : NodeTable) := Run nodes fun _ => false

/-- The statement stands in the head of a `for` loop. -/
def InHead (nodes : NodeTable) (id : NodeId) : Prop :=
  ∃ loop test step body, nodes.kind? loop = some (.forStmt (some id) test step body)

/-- Nothing is left out of the trace but statements in the heads of `for` loops. -/
inductive Omits (nodes : NodeTable) : (trace shown : List NodeId) → Prop
  | nil : Omits nodes [] []
  | keep {id trace shown} (h : Omits nodes trace shown) : Omits nodes (id :: trace) (id :: shown)
  | skip {id trace shown} (hid : InHead nodes id) (h : Omits nodes trace shown) : Omits nodes (id :: trace) shown

def nested (nodes : NodeTable) (id : NodeId) : List NodeId :=
  match nodes.kind? id with
  | some (.block body) => body
  | some (.ifStmt _ consequent alternate) => consequent :: alternate.toList
  | some (.whileStmt _ body) | some (.forEach _ _ _ body) | some (.doWhile body _) | some (.forStmt _ _ _ body) =>
    [body]
  | some (.switchStmt _ cases) => cases.flatMap (caseBody nodes)
  | _ => []

/-- The statement `id` is made of statements other than `try`, at every depth. -/
inductive Built (nodes : NodeTable) : NodeId → Prop
  | intro {id kind} (h : nodes.kind? id = some kind)
      (htry : ∀ block handler finalizer, kind ≠ .tryStmt block handler finalizer)
      (hnested : ∀ c ∈ nested nodes id, Built nodes c) : Built nodes id

namespace Graph

/-- The statements of the blocks along some path from the block `i` on. -/
inductive Walk (g : Graph) : Nat → List NodeId → Prop
  | last {i block} (h : g.block? i = some block) : Walk g i block.statements
  | step {i j block trace} (h : g.block? i = some block) (hj : j ∈ block.successors) (hrest : Walk g j trace) :
    Walk g i (block.statements ++ trace)

end Graph

variable {nodes : NodeTable} {id : NodeId} {trace : List NodeId} {outcome : Outcome}

/-! ## What is recorded -/

namespace Omits

variable {t t' shown shown' : List NodeId}

theorem refl : ∀ t : List NodeId, Omits nodes t t
  | [] => .nil
  | _ :: t => .keep (refl t)

theorem append (h : Omits nodes t shown) (h' : Omits nodes t' shown') : Omits nodes (t ++ t') (shown ++ shown') := by
  induction h with
  | nil => exact h'
  | keep _ ih => exact .keep ih
  | skip hid _ ih => exact .skip hid ih

theorem of_forall : ∀ t : List NodeId, (∀ id ∈ t, InHead nodes id) → Omits nodes t []
  | [], _ => .nil
  | id :: t, h => .skip (h id List.mem_cons_self) (of_forall t fun i hi => h i (List.mem_cons_of_mem _ hi))

theorem eq (h : Omits nodes t shown) (hhead : ∀ id ∈ t, ¬InHead nodes id) : shown = t := by
  induction h with
  | nil => rfl
  | keep _ ih => rw [ih fun i hi => hhead i (List.mem_cons_of_mem _ hi)]
  | skip hid => exact absurd hid (hhead _ List.mem_cons_self)

end Omits

/-- **Every run is recorded**, apart from statements in the heads of `for` loops. -/
theorem Run.recorded {visited : NodeId → Bool} {code : Code} (h : Run nodes visited code trace outcome) :
    ∃ shown, Recorded nodes code shown outcome ∧ Omits nodes trace shown := by
  induction h with
  | nil => exact ⟨_, .nil, .refl _⟩
  | next _ _ ih ih' =>
    obtain ⟨_, hrun, homits⟩ := ih
    obtain ⟨_, hrun', homits'⟩ := ih'
    exact ⟨_, .next hrun hrun', homits.append homits'⟩
  | leave _ houtcome ih => exact ih.imp fun _ h => ⟨.leave h.1 houtcome, h.2⟩
  | exit => exact ⟨_, .exit, .refl _⟩
  | pause => exact ⟨_, .pause, .refl _⟩
  | enter _ ih =>
    obtain ⟨_, hrun, homits⟩ := ih
    exact ⟨_, .enter hrun, .keep homits⟩
  | again _ houtcome _ ih ih' =>
    obtain ⟨_, hrun, homits⟩ := ih
    obtain ⟨_, hrun', homits'⟩ := ih'
    exact ⟨_, .again hrun houtcome hrun', homits.append homits'⟩
  | broke _ ih => exact ih.imp fun _ h => ⟨.broke h.1, h.2⟩
  | stop _ ih => exact ih.imp fun _ h => ⟨.stop h.1, h.2⟩
  | plain h hkind => exact ⟨_, .plain h hkind, .refl _⟩
  | block h _ ih => exact ih.imp fun _ hrun => ⟨.block h hrun.1, hrun.2⟩
  | consequent h _ ih =>
    obtain ⟨_, hrun, homits⟩ := ih
    exact ⟨_, .consequent h hrun, .keep homits⟩
  | alternate h _ ih =>
    obtain ⟨_, hrun, homits⟩ := ih
    exact ⟨_, .alternate h hrun, .keep homits⟩
  | skip h => exact ⟨_, .skip h, .refl _⟩
  | whileStmt h _ ih => exact ih.imp fun _ hrun => ⟨.whileStmt h hrun.1, hrun.2⟩
  | forEach h _ ih => exact ih.imp fun _ hrun => ⟨.forEach h hrun.1, hrun.2⟩
  | doWhile h _ ih => exact ih.imp fun _ hrun => ⟨.doWhile h hrun.1, hrun.2⟩
  | @forStmt id init test step body trace outcome h _ ih =>
    obtain ⟨shown, hrun, homits⟩ := ih
    have hshown : Recorded nodes (.statement id) (init.toList.filter (fun _ => false) ++ shown) outcome :=
      .forStmt h hrun
    refine ⟨shown, by simpa using hshown, ?_⟩
    refine (Omits.of_forall _ fun i hi => ?_).append homits
    obtain rfl : init = some i := by simpa using (List.mem_filter.1 hi).1
    exact ⟨id, test, step, body, h⟩
  | switchStmt h _ ih =>
    obtain ⟨_, hrun, homits⟩ := ih
    exact ⟨_, .switchStmt h hrun, .keep homits⟩
  | noCase h hdefault => exact ⟨_, .noCase h hdefault, .refl _⟩
  | returnStmt h => exact ⟨_, .returnStmt h, .refl _⟩
  | throwStmt h => exact ⟨_, .throwStmt h, .refl _⟩
  | breakStmt h => exact ⟨_, .breakStmt h, .refl _⟩
  | continueStmt h => exact ⟨_, .continueStmt h, .refl _⟩

/-! ## Runs by kind -/

/-- What a run of the statement `id` is, by the kind of the statement. -/
def RunsAs (nodes : NodeTable) (id : NodeId) (trace : List NodeId) (outcome : Outcome) : Kind → Prop
  | .block body => Recorded nodes (.list body) trace outcome
  | .ifStmt _ consequent alternate =>
    (∃ t, trace = id :: t ∧ Recorded nodes (.statement consequent) t outcome) ∨
      (∃ a t, alternate = some a ∧ trace = id :: t ∧ Recorded nodes (.statement a) t outcome) ∨
      alternate = none ∧ trace = [id] ∧ outcome = .normal
  | .whileStmt _ body | .forEach _ _ _ body => Recorded nodes (.rounds id body true true) trace outcome
  | .doWhile body _ => Recorded nodes (.rounds id body true false) trace outcome
  | .forStmt _ test _ body => Recorded nodes (.rounds id body test.isSome true) trace outcome
  | .switchStmt _ cases =>
    (∃ before entered after t o, cases = before ++ entered :: after ∧ trace = id :: t ∧
      outcome = Outcome.leaveSwitch o ∧ Recorded nodes (.list ((entered :: after).flatMap (caseBody nodes))) t o) ∨
      (∀ c ∈ cases, (caseParts nodes c).1 = false) ∧ trace = [id] ∧ outcome = .normal
  | .returnStmt _ | .throwStmt _ => trace = [id] ∧ outcome = .stopped
  | .breakStmt => trace = [id] ∧ outcome = .broke
  | .continueStmt => trace = [id] ∧ outcome = .continued
  | _ => trace = [id] ∧ outcome = .normal

namespace Run

variable (h : Recorded nodes (.statement id) trace outcome) {kind : Kind}

include h

theorem byKind (hid : nodes.kind? id = some kind) : RunsAs nodes id trace outcome kind := by
  cases h with
  | plain h hkind =>
    cases hid.symm.trans h
    cases kind <;> first | exact ⟨rfl, rfl⟩ | exact nomatch hkind
  | block h hrun | whileStmt h hrun | forEach h hrun | doWhile h hrun =>
    cases hid.symm.trans h
    exact hrun
  | forStmt h hrun =>
    cases hid.symm.trans h
    simpa [RunsAs] using hrun
  | consequent h hrun =>
    cases hid.symm.trans h
    exact .inl ⟨_, rfl, hrun⟩
  | alternate h hrun =>
    cases hid.symm.trans h
    exact .inr (.inl ⟨_, _, rfl, rfl, hrun⟩)
  | skip h =>
    cases hid.symm.trans h
    exact .inr (.inr ⟨rfl, rfl, rfl⟩)
  | switchStmt h hrun =>
    cases hid.symm.trans h
    exact .inl ⟨_, _, _, _, _, rfl, rfl, rfl, hrun⟩
  | noCase h hdefault =>
    cases hid.symm.trans h
    exact .inr ⟨hdefault, rfl, rfl⟩
  | returnStmt h | throwStmt h | breakStmt h | continueStmt h =>
    cases hid.symm.trans h
    exact ⟨rfl, rfl⟩

theorem of_plain (hid : nodes.kind? id = some kind) (hkind : isPlain kind = true) :
    trace = [id] ∧ outcome = .normal := by
  have hrun := h.byKind hid
  cases kind <;> first | exact hrun | cases hkind

end Run

theorem Run.of_append {ids ids' : List NodeId} (h : Recorded nodes (.list (ids ++ ids')) trace outcome) :
    (∃ t t', trace = t ++ t' ∧ Recorded nodes (.list ids) t .normal ∧ Recorded nodes (.list ids') t' outcome) ∨
      Recorded nodes (.list ids) trace outcome ∧ outcome ≠ .normal := by
  induction ids generalizing trace with
  | nil => exact .inl ⟨[], trace, rfl, .nil, h⟩
  | cons id ids ih =>
    cases h with
    | @next _ _ t₁ _ _ hid hrest =>
      obtain ⟨t, t', rfl, hfirst, hsecond⟩ | ⟨hfirst, houtcome⟩ := ih hrest
      · exact .inl ⟨t₁ ++ t, t', (List.append_assoc ..).symm, .next hid hfirst, hsecond⟩
      · exact .inr ⟨.next hid hfirst, houtcome⟩
    | leave hid houtcome => exact .inr ⟨.leave hid houtcome, houtcome⟩

/-! ## Depth -/

theorem Built.acc (h : Built nodes id) : Acc (fun c p => c ∈ nested nodes p) id := by
  induction h with
  | intro _ _ _ ih => exact ⟨_, ih⟩

theorem Built.fuel_induction {Q : Nat → NodeId → Prop}
    (step : ∀ fuel id, Built nodes id → (∀ c ∈ nested nodes id, Q fuel c) → Q (fuel + 1) id)
    (h : Built nodes id) : Q (nodes.size + 1) id := by
  have hnext : ∀ x c, c ∈ nested nodes x → x ∈ nodes := by
    intro x c hc
    by_contra hx
    have hnone : nodes.kind? x = none := by simp [NodeTable.kind?, Std.ExtTreeMap.getElem?_eq_none hx]
    simp [nested, hnone] at hc
  refine IdMap.descent (Q := fun fuel id => Built nodes id → Q fuel id) hnext (fun fuel id ih hid => ?_)
    (fun _ => not_transGen_of_acc h.acc) h
  refine step fuel id hid fun c hc => ih c hc ?_
  cases hid with
  | intro _ _ hnested => exact hnested c hc

end Retarget.Flow
