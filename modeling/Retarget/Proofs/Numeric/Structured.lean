import Retarget.Proofs.Numeric.Formula

/-!
# Structured programs on doubles

Statements as trees whose expressions are nodes of a module. What an expression gives is taken as known: `eval e σ` is
its value on the contents `σ` of the slots and what it leaves there, or nothing if it never ends.

* `Statement.Ends eval s σ c σ'`: run from the contents `σ`, the statement ends in the way `c` with the contents `σ'`.
  A statement that never ends has no such `c` and `σ'`.
* `Builds scope returns inLoop clause s`: the nodes of a clause, read with all that is below, are the statement `s`.
* `Builds.acc`: whatever is read has an end downward.
-/

namespace Retarget.Numeric

open List

/-! ## Courses -/

/-- What expressions do to the contents of the slots, and the values that they end with. -/
abbrev Evaluation := NodeId → Store → Option (Float × Store)

abbrev Course (α : Type) := Store → α → Store → Prop

/-- No end leads away from what follows. -/
def goesOn {α β : Type} : α → Option β := fun _ => none

namespace Course

variable {α β : Type}

def finish (a : α) : Course α := fun σ a' σ' => a' = a ∧ σ' = σ

/-- Goes on with `S`, unless the end of `R` leads away. -/
def andThen (R : Course α) (leaves : α → Option β) (S : α → Course β) : Course β := fun σ b σ' =>
  ∃ a σ₁, R σ a σ₁ ∧
    match leaves a with
    | some b' => b = b' ∧ σ' = σ₁
    | none => S a σ₁ b σ'

/-- Rounds follow each other until one says how the whole ends. -/
inductive Iterates (R : Course (Option α)) : Course α
  | stop {σ a σ'} (h : R σ (some a) σ') : Iterates R σ a σ'
  | next {σ σ₁ a σ'} (h : R σ none σ₁) (hrest : Iterates R σ₁ a σ') : Iterates R σ a σ'

def of (eval : Evaluation) (e : NodeId) : Course Float := fun σ x σ' => eval e σ = some (x, σ')

end Course

/-! ## Statements -/

inductive Completion where
  | normal
  | broke
  | continued
  | returned (value : Float)
  deriving DecidableEq, Repr

namespace Completion

/-- Whatever does not end normally leaves a row of statements. -/
def leavesRow? : Completion → Option Completion
  | normal => none
  | c => some c

/-- What the end of its body means for a round of a loop. -/
def leavesRound? : Completion → Option (Option Completion)
  | normal | continued => none
  | broke => some (some normal)
  | returned value => some (some (returned value))

/-- The value of a function whose body ends like this; one that reaches its end returns NaN. -/
def result : Completion → Float
  | returned value => value
  | _ => 0.0 / 0.0

end Completion

inductive Statement where
  | effect (e : NodeId)
  | declare (p : Place) (init : Option NodeId)
  | skip
  | seq (first rest : Statement)
  | choose (test : NodeId) (consequent alternate : Statement)
  /-- A loop with its test before each round and its update after it. -/
  | loop (test update : Option NodeId) (body : Statement)
  | doWhile (body : Statement) (test : NodeId)
  | leave
  | again
  | ret (value : Option NodeId)
  deriving Repr

/-- What the outcome of its test means for a round of a loop. -/
def stops? : Bool → Option (Option Completion)
  | true => none
  | false => some (some .normal)

/-- A test; where there is none, it succeeds. -/
def check (eval : Evaluation) : Option NodeId → Course Bool
  | none => .finish true
  | some e => (Course.of eval e).andThen goesOn fun x => .finish (truthy x)

def perform (eval : Evaluation) : Option NodeId → Course (Option Completion)
  | none => .finish none
  | some e => (Course.of eval e).andThen goesOn fun _ => .finish none

def assign (p : Place) (x : Float) : Course Completion := fun σ c σ' => c = .normal ∧ σ' = σ.write p x

namespace Statement

/-- The ways in which a statement ends. A variable without a value is undefined, and so is what a function returns that
returns no value. -/
def Ends (eval : Evaluation) : Statement → Course Completion
  | effect e => (Course.of eval e).andThen goesOn fun _ => .finish .normal
  | declare p none => assign p (0.0 / 0.0)
  | declare p (some e) => (Course.of eval e).andThen goesOn (assign p)
  | skip => .finish .normal
  | seq first rest => (first.Ends eval).andThen Completion.leavesRow? fun _ => rest.Ends eval
  | choose test consequent alternate =>
    (Course.of eval test).andThen goesOn fun x => if truthy x then consequent.Ends eval else alternate.Ends eval
  | loop test update body =>
    .Iterates ((check eval test).andThen stops? fun _ =>
      (body.Ends eval).andThen Completion.leavesRound? fun _ => perform eval update)
  | doWhile body test =>
    .Iterates ((body.Ends eval).andThen Completion.leavesRound? fun _ =>
      (check eval (some test)).andThen stops? fun _ => .finish none)
  | leave => .finish .broke
  | again => .finish .continued
  | ret none => .finish (.returned (0.0 / 0.0))
  | ret (some e) => (Course.of eval e).andThen goesOn fun x => .finish (.returned x)

/-- The expressions that a statement evaluates for their values or their effects. -/
def values : Statement → List NodeId
  | effect e => [e]
  | declare _ init => init.toList
  | seq first rest => first.values ++ rest.values
  | choose _ consequent alternate => consequent.values ++ alternate.values
  | loop _ update body => body.values ++ update.toList
  | doWhile body _ => body.values
  | ret value => value.toList
  | skip | leave | again => []

def tests : Statement → List NodeId
  | seq first rest => first.tests ++ rest.tests
  | choose test consequent alternate => test :: (consequent.tests ++ alternate.tests)
  | loop test _ body => test.toList ++ body.tests
  | doWhile body test => test :: body.tests
  | effect _ | declare .. | skip | leave | again | ret _ => []

end Statement

/-! ## Reading statements off a module -/

/-- What is read: a statement, statements in a row, declarators in a row, or what comes first in a loop. -/
inductive Clause where
  | stmt (id : NodeId)
  | row (ids : List NodeId)
  | declarators (ids : List NodeId)
  | init (id : Option NodeId)

section

variable (scope : NumericScope) (returns : Bool)

/-- A clause stands for a statement. It can stand in a loop or not, and in a function that returns a value or not. -/
inductive Builds : (inLoop : Bool) → Clause → Statement → Prop
  | effect {inLoop id e} (h : scope.module.kind? id = some (.exprStmt e)) : Builds inLoop (.stmt id) (.effect e)
  | declaration {inLoop id kind ids s} (h : scope.module.kind? id = some (.variableDecl kind ids))
      (hkind : kind ≠ .varKind) (hs : Builds inLoop (.declarators ids) s) : Builds inLoop (.stmt id) s
  | block {inLoop id ids s} (h : scope.module.kind? id = some (.block ids)) (hs : Builds inLoop (.row ids) s) :
    Builds inLoop (.stmt id) s
  | empty {inLoop id} (h : scope.module.kind? id = some .empty) : Builds inLoop (.stmt id) .skip
  | ifThen {inLoop id test consequent s} (h : scope.module.kind? id = some (.ifStmt test consequent none))
      (hs : Builds inLoop (.stmt consequent) s) : Builds inLoop (.stmt id) (.choose test s .skip)
  | ifElse {inLoop id test consequent alternate s t}
      (h : scope.module.kind? id = some (.ifStmt test consequent (some alternate)))
      (hs : Builds inLoop (.stmt consequent) s) (ht : Builds inLoop (.stmt alternate) t) :
      Builds inLoop (.stmt id) (.choose test s t)
  | whileLoop {inLoop id test body s} (h : scope.module.kind? id = some (.whileStmt test body))
      (hs : Builds true (.stmt body) s) : Builds inLoop (.stmt id) (.loop (some test) none s)
  | doLoop {inLoop id body test s} (h : scope.module.kind? id = some (.doWhile body test))
      (hs : Builds true (.stmt body) s) : Builds inLoop (.stmt id) (.doWhile s test)
  | forLoop {inLoop id init test update body s t} (h : scope.module.kind? id = some (.forStmt init test update body))
      (hs : Builds inLoop (.init init) s) (ht : Builds true (.stmt body) t) :
      Builds inLoop (.stmt id) (.seq s (.loop test update t))
  | leave {id} (h : scope.module.kind? id = some .breakStmt) : Builds true (.stmt id) .leave
  | again {id} (h : scope.module.kind? id = some .continueStmt) : Builds true (.stmt id) .again
  | ret {inLoop id value} (h : scope.module.kind? id = some (.returnStmt value)) (hreturns : returns = true) :
    Builds inLoop (.stmt id) (.ret value)
  | nil {inLoop} : Builds inLoop (.row []) .skip
  | cons {inLoop id ids s t} (hs : Builds inLoop (.stmt id) s) (ht : Builds inLoop (.row ids) t) :
    Builds inLoop (.row (id :: ids)) (.seq s t)
  | declared {inLoop} : Builds inLoop (.declarators []) .skip
  | declare {inLoop id ids node name init p t} (h : scope.module.node? id = some node)
      (hkind : node.kind = .declarator name init) (hp : scope.slot? (some node.id) = some p.slot)
      (ht : Builds inLoop (.declarators ids) t) : Builds inLoop (.declarators (id :: ids)) (.seq (.declare p init) t)
  | initNone {inLoop} : Builds inLoop (.init none) .skip
  | initDeclaration {inLoop id kind ids s} (h : scope.module.kind? id = some (.variableDecl kind ids))
      (hs : Builds inLoop (.stmt id) s) : Builds inLoop (.init (some id)) s
  | initEffect {inLoop id kind} (h : scope.module.kind? id = some kind) (hkind : ∀ k ids, kind ≠ .variableDecl k ids) :
    Builds inLoop (.init (some id)) (.effect id)

end

def declares (m : Module) (id : NodeId) : Bool :=
  match m.kind? id with
  | some (.variableDecl ..) => true
  | _ => false

def nested (m : Module) (id : NodeId) : List NodeId :=
  match m.kind? id with
  | some (.block ids) => ids
  | some (.ifStmt _ consequent alternate) => consequent :: alternate.toList
  | some (.whileStmt _ body) | some (.doWhile body _) => [body]
  | some (.forStmt init _ _ body) => body :: init.toList.filter (declares m)
  | _ => []

variable {id : NodeId} {scope : NumericScope} {returns inLoop : Bool} {s : Statement} {clause : Clause}

theorem mem_nodes_of_nested {m : Module} {c : NodeId} (h : c ∈ nested m id) : id ∈ m.nodes := by
  cases hkind : m.kind? id with
  | none =>
    rw [nested, hkind] at h
    exact absurd h not_mem_nil
  | some kind =>
    obtain ⟨node, hnode, -⟩ := NodeTable.kind?_eq_some.1 hkind
    exact IdMap.mem_iff.2 ⟨node, hnode⟩

theorem Builds.kind (h : Builds scope returns inLoop (.stmt id) s) : ∃ kind, scope.module.kind? id = some kind := by
  cases h <;> exact ⟨_, ‹_›⟩

def Clause.nodes (m : Module) : Clause → List NodeId
  | stmt id => [id]
  | row ids => ids
  | declarators _ => []
  | init id => id.toList.filter (declares m)

/-- **What is read has an end downward.** -/
theorem Builds.acc (h : Builds scope returns inLoop clause s) :
    ∀ id ∈ clause.nodes scope.module, Acc (fun c p => c ∈ nested scope.module p) id := by
  induction h with
  | effect h | declaration h | empty h | leave h | again h | ret h =>
    refine forall_mem_singleton.2 ⟨_, fun c hc => ?_⟩
    rw [nested, h] at hc
    cases hc
  | block h _ ih | ifThen h _ ih | whileLoop h _ ih | doLoop h _ ih =>
    refine forall_mem_singleton.2 ⟨_, fun c hc => ih c ?_⟩
    rwa [nested, h] at hc
  | ifElse h _ _ ih ih' =>
    refine forall_mem_singleton.2 ⟨_, fun c hc => ?_⟩
    rw [nested, h] at hc
    exact forall_mem_cons.2 ⟨ih _ (mem_singleton_self _), ih'⟩ c hc
  | forLoop h _ _ ih ih' =>
    refine forall_mem_singleton.2 ⟨_, fun c hc => ?_⟩
    rw [nested, h] at hc
    exact forall_mem_cons.2 ⟨ih' _ (mem_singleton_self _), ih⟩ c hc
  | cons _ _ ih ih' => exact forall_mem_cons.2 ⟨ih _ (mem_singleton_self _), ih'⟩
  | nil | declared | declare | initNone => exact forall_mem_nil _
  | initDeclaration h _ ih => exact fun c hc => ih c (mem_filter.1 hc).1
  | @initEffect _ id kind h hkind =>
    intro c hc
    obtain ⟨hmem, hdeclares⟩ := mem_filter.1 hc
    cases mem_singleton.1 hmem
    rw [declares, h] at hdeclares
    cases kind <;> first | exact absurd rfl (hkind _ _) | cases hdeclares

/-! ## Where statements can end -/

/-- The ends that a statement can have where it stands. -/
def Completion.Suits (returns inLoop : Bool) : Completion → Prop
  | normal => True
  | broke | continued => inLoop = true
  | returned _ => returns = true

section Suits

variable {eval : Evaluation} {returns inLoop : Bool} {s t : Statement} {σ σ' : Store} {c : Completion}

theorem suits_seq (hs : ∀ {σ c σ'}, s.Ends eval σ c σ' → c.Suits returns inLoop)
    (ht : ∀ {σ c σ'}, t.Ends eval σ c σ' → c.Suits returns inLoop) (hc : (Statement.seq s t).Ends eval σ c σ') :
    c.Suits returns inLoop := by
  obtain ⟨c₁, σ₁, hfirst, hrest⟩ := hc
  cases c₁ with
  | normal => exact ht hrest
  | broke | continued | returned =>
    obtain ⟨rfl, -⟩ := hrest
    exact hs hfirst

theorem Course.Iterates.of_round {α : Type} {R : Course (Option α)} {P : α → Prop} {a : α}
    (hR : ∀ σ a σ', R σ (some a) σ' → P a) (h : Iterates R σ a σ') : P a := by
  induction h with
  | stop h => exact hR _ _ _ h
  | next _ _ ih => exact ih

variable {S : Course (Option Completion)} {test : Option NodeId}

theorem suits_round (hs : ∀ {σ c σ'}, s.Ends eval σ c σ' → c.Suits returns true)
    (hS : ∀ σ c σ', S σ (some c) σ' → c.Suits returns inLoop)
    (hc : ((s.Ends eval).andThen Completion.leavesRound? fun _ => S) σ (some c) σ') : c.Suits returns inLoop := by
  obtain ⟨c₁, σ₁, hbody, hrest⟩ := hc
  cases c₁ with
  | normal | continued => exact hS _ _ _ hrest
  | broke =>
    obtain ⟨hend, -⟩ := hrest
    cases hend
    trivial
  | returned x =>
    obtain ⟨hend, -⟩ := hrest
    cases hend
    exact hs hbody

theorem suits_tested (hS : ∀ σ c σ', S σ (some c) σ' → c.Suits returns inLoop)
    (hc : ((check eval test).andThen stops? fun _ => S) σ (some c) σ') : c.Suits returns inLoop := by
  obtain ⟨again, σ₁, -, hrest⟩ := hc
  cases again with
  | true => exact hS _ _ _ hrest
  | false =>
    obtain ⟨hend, -⟩ := hrest
    cases hend
    trivial

theorem suits_loop {update : Option NodeId} (hs : ∀ {σ c σ'}, s.Ends eval σ c σ' → c.Suits returns true)
    (hc : (Statement.loop test update s).Ends eval σ c σ') : c.Suits returns inLoop := by
  refine Course.Iterates.of_round (fun σ c σ' => suits_tested fun σ c σ' => suits_round hs fun σ c σ' h => ?_) hc
  cases update with
  | none =>
    obtain ⟨hend, -⟩ := h
    cases hend
  | some e =>
    obtain ⟨x, σ₁, -, hend, -⟩ := h
    cases hend

/-- **Jumps stay in their loops, and only a function that returns a value is returned from.** -/
theorem Builds.suits (h : Builds scope returns inLoop clause s) (hc : s.Ends eval σ c σ') : c.Suits returns inLoop := by
  induction h generalizing σ σ' c with
  | effect | initEffect =>
    obtain ⟨x, σ₁, -, rfl, -⟩ := hc
    trivial
  | declaration _ _ _ ih | block _ _ ih | initDeclaration _ _ ih => exact ih hc
  | empty | nil | declared | initNone =>
    obtain ⟨rfl, -⟩ := hc
    trivial
  | ifThen _ _ ih =>
    obtain ⟨x, σ₁, -, hc⟩ := hc
    cases htruthy : truthy x <;> simp only [goesOn, htruthy] at hc
    · obtain ⟨rfl, -⟩ := hc
      trivial
    · exact ih hc
  | ifElse _ _ _ ih ih' =>
    obtain ⟨x, σ₁, -, hc⟩ := hc
    cases htruthy : truthy x <;> simp only [goesOn, htruthy] at hc
    · exact ih' hc
    · exact ih hc
  | whileLoop _ _ ih => exact suits_loop ih hc
  | doLoop _ _ ih =>
    refine Course.Iterates.of_round (fun σ c σ' => suits_round ih fun σ c σ' => suits_tested fun σ c σ' h => ?_) hc
    obtain ⟨hend, -⟩ := h
    cases hend
  | forLoop _ _ _ ih ih' => exact suits_seq ih (suits_loop ih') hc
  | leave | again =>
    obtain ⟨rfl, -⟩ := hc
    rfl
  | @ret _ _ value _ hreturns =>
    cases value with
    | none =>
      obtain ⟨rfl, -⟩ := hc
      exact hreturns
    | some e =>
      obtain ⟨x, σ₁, -, rfl, -⟩ := hc
      exact hreturns
  | cons _ _ ih ih' => exact suits_seq ih ih' hc
  | @declare _ _ _ _ _ init _ _ _ _ _ _ ih =>
    refine suits_seq (fun h => ?_) ih hc
    cases init with
    | none =>
      obtain ⟨rfl, -⟩ := h
      trivial
    | some e =>
      obtain ⟨x, σ₁, -, rfl, -⟩ := h
      trivial

end Suits

end Retarget.Numeric
