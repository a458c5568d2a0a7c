import Retarget.Numeric.Plan
import Retarget.Proofs.Ownership

/-!
# Numeric expressions

The part of the language in which every value is a double: literals, variables in slots, arithmetic, comparisons, the
logical operators, updates, assignments, choices and sequences.

* `Numeric.Formula` is its syntax, and `Formula.eval` runs a formula from left to right on the contents of the slots.
* `Reads scope phrase t`: the node or the row of nodes, read with all that is below, is the formula `t`. A node that is
  shared between others is read once for each of them.
* `Reads.acc`: whatever is read has an end downward, so that a module has levels enough for it.
-/

namespace Retarget.Numeric

open List

/-! ## Values -/

def ofBool (b : Bool) : Float := if b then 1.0 else 0.0

def truthy (x : Float) : Bool := x != 0.0 && !x.isNaN

theorem truthy_ofBool (b : Bool) : truthy (ofBool b) = b := by
  cases b <;> decide

inductive Comparison where
  | eq | ne | lt | le | gt | ge
  deriving DecidableEq, Repr

def Comparison.holds : Comparison → Float → Float → Bool
  | eq, a, b => a == b
  | ne, a, b => a != b
  | lt, a, b => a < b
  | le, a, b => a ≤ b
  | gt, a, b => a > b
  | ge, a, b => a ≥ b

def Comparison.of? : BinaryOperator → Option Comparison
  | .eq | .strictEq => some eq
  | .notEq | .strictNotEq => some ne
  | .lt => some lt
  | .ltEq => some le
  | .gt => some gt
  | .gtEq => some ge
  | _ => none

inductive Arithmetic where
  | add | sub | mul | div
  deriving DecidableEq, Repr

def Arithmetic.apply : Arithmetic → Float → Float → Float
  | add, a, b => a + b
  | sub, a, b => a - b
  | mul, a, b => a * b
  | div, a, b => a / b

def Arithmetic.of? : BinaryOperator → Option Arithmetic
  | .add => some add
  | .sub => some sub
  | .mul => some mul
  | .div => some div
  | _ => none

def stepOf : UpdateOperator → Arithmetic
  | .increment => .add
  | .decrement => .sub

def literal? : Kind → Option Float
  | .number value => some value
  | .boolean value => some (ofBool value)
  | .null => some 0.0
  | .undefined => some (0.0 / 0.0)
  | _ => none

/-! ## The contents of slots -/

inductive Place where
  | local (index : Nat)
  | global (index : Nat)
  deriving DecidableEq, Repr

def Place.slot : Place → Slot
  | .local index => .local index
  | .global index => .global index

structure Store where
  locals : List Float
  globals : List Float
  deriving DecidableEq, Repr

variable {σ : Store} {scope : NumericScope} {m : Module} {id c : NodeId} {kind : Kind}

namespace Store

def read (σ : Store) : Place → Float
  | .local index => σ.locals.getD index 0.0
  | .global index => σ.globals.getD index 0.0

def write (σ : Store) (p : Place) (x : Float) : Store :=
  match p with
  | .local index => { σ with locals := σ.locals.set index x }
  | .global index => { σ with globals := σ.globals.set index x }

/-- The contents are those of the slots of a function and of the globals of its layout. -/
structure Fits (σ : Store) (scope : NumericScope) : Prop where
  locals_eq : σ.locals.length = scope.function.slotCount
  globals_eq : σ.globals.length = scope.plan.globals.length

theorem Fits.write (h : σ.Fits scope) (p : Place) (x : Float) : (σ.write p x).Fits scope := by
  cases p with
  | «local» index => exact ⟨by simpa [Store.write] using h.locals_eq, h.globals_eq⟩
  | global index => exact ⟨h.locals_eq, by simpa [Store.write] using h.globals_eq⟩

end Store

/-! ## Formulas -/

inductive Formula where
  | literal (value : Float)
  | name (p : Place)
  | arithmetic (op : Arithmetic) (left right : Formula)
  | comparison (op : Comparison) (left right : Formula)
  | and (left right : Formula)
  | or (left right : Formula)
  | neg (argument : Formula)
  | plus (argument : Formula)
  | not (argument : Formula)
  | void (argument : Formula)
  | update (op : UpdateOperator) (before : Bool) (p : Place)
  | assign (p : Place) (value : Formula)
  | assignWith (op : Arithmetic) (p : Place) (value : Formula)
  | conditional (test consequent alternate : Formula)
  | sequence (first rest : Formula)

namespace Formula

/-- The value of a formula and the contents of the slots after it, from left to right. -/
def eval : Formula → Store → Float × Store
  | literal value, σ => (value, σ)
  | name p, σ => (σ.read p, σ)
  | arithmetic op left right, σ =>
    let (a, σ) := left.eval σ
    let (b, σ) := right.eval σ
    (op.apply a b, σ)
  | comparison op left right, σ =>
    let (a, σ) := left.eval σ
    let (b, σ) := right.eval σ
    (ofBool (op.holds a b), σ)
  | and left right, σ =>
    let (a, σ) := left.eval σ
    if truthy a then right.eval σ else (a, σ)
  | or left right, σ =>
    let (a, σ) := left.eval σ
    if truthy a then (a, σ) else right.eval σ
  | neg argument, σ =>
    let (a, σ) := argument.eval σ
    (-a, σ)
  | plus argument, σ => argument.eval σ
  | not argument, σ =>
    let (a, σ) := argument.eval σ
    (ofBool !truthy a, σ)
  | void argument, σ => (0.0 / 0.0, (argument.eval σ).2)
  | update op before p, σ =>
    let old := σ.read p
    let new := (stepOf op).apply old 1.0
    (if before then new else old, σ.write p new)
  | assign p value, σ =>
    let (a, σ) := value.eval σ
    (a, σ.write p a)
  | assignWith op p value, σ =>
    let old := σ.read p
    let (a, σ) := value.eval σ
    let new := op.apply old a
    (new, σ.write p new)
  | conditional test consequent alternate, σ =>
    let (a, σ) := test.eval σ
    if truthy a then consequent.eval σ else alternate.eval σ
  | sequence first rest, σ => rest.eval (first.eval σ).2

theorem eval_fits (t : Formula) (h : σ.Fits scope) : (t.eval σ).2.Fits scope := by
  induction t generalizing σ with
  | literal | name => exact h
  | arithmetic _ _ _ ihl ihr | comparison _ _ _ ihl ihr => exact ihr (ihl h)
  | and _ _ ihl ihr | or _ _ ihl ihr =>
    simp only [eval]
    split
    · first | exact ihr (ihl h) | exact ihl h
    · first | exact ihl h | exact ihr (ihl h)
  | neg _ ih | plus _ ih | not _ ih | void _ ih => exact ih h
  | update _ _ p => exact h.write p _
  | assign p _ ih | assignWith _ p _ ih => exact (ih h).write p _
  | conditional _ _ _ iht ihc iha =>
    simp only [eval]
    split
    · exact ihc (iht h)
    · exact iha (iht h)
  | sequence _ _ ihf ihr => exact ihr (ihf h)

end Formula

/-! ## Reading formulas off a module -/

/-- The node `id` names the variable at `p`. -/
def Names (scope : NumericScope) (id : NodeId) (p : Place) : Prop :=
  ∃ name binding, scope.module.kind? id = some (.identifier name binding) ∧ scope.slot? binding = some p.slot

inductive Phrase where
  | expr (id : NodeId)
  | row (ids : List NodeId)

def Phrase.nodes : Phrase → List NodeId
  | expr id => [id]
  | row ids => ids

section

variable (scope : NumericScope)

inductive Reads : Phrase → Formula → Prop
  | literal {id kind value} (h : scope.module.kind? id = some kind) (hvalue : literal? kind = some value) :
    Reads (.expr id) (.literal value)
  | name {id p} (h : Names scope id p) : Reads (.expr id) (.name p)
  | arithmetic {id op left right a l r} (h : scope.module.kind? id = some (.binary op left right))
      (hop : Arithmetic.of? op = some a) (hl : Reads (.expr left) l) (hr : Reads (.expr right) r) :
      Reads (.expr id) (.arithmetic a l r)
  | comparison {id op left right c l r} (h : scope.module.kind? id = some (.binary op left right))
      (hop : Comparison.of? op = some c) (hl : Reads (.expr left) l) (hr : Reads (.expr right) r) :
      Reads (.expr id) (.comparison c l r)
  | and {id left right l r} (h : scope.module.kind? id = some (.logical .and left right)) (hl : Reads (.expr left) l)
      (hr : Reads (.expr right) r) : Reads (.expr id) (.and l r)
  | or {id left right l r} (h : scope.module.kind? id = some (.logical .or left right)) (hl : Reads (.expr left) l)
      (hr : Reads (.expr right) r) : Reads (.expr id) (.or l r)
  | neg {id argument t} (h : scope.module.kind? id = some (.unary .neg argument)) (ht : Reads (.expr argument) t) :
    Reads (.expr id) (.neg t)
  | plus {id argument t} (h : scope.module.kind? id = some (.unary .plus argument)) (ht : Reads (.expr argument) t) :
    Reads (.expr id) (.plus t)
  | not {id argument t} (h : scope.module.kind? id = some (.unary .not argument)) (ht : Reads (.expr argument) t) :
    Reads (.expr id) (.not t)
  | void {id argument t} (h : scope.module.kind? id = some (.unary .void argument)) (ht : Reads (.expr argument) t) :
    Reads (.expr id) (.void t)
  | update {id op before argument p} (h : scope.module.kind? id = some (.update op before argument))
      (hp : Names scope argument p) : Reads (.expr id) (.update op before p)
  | assign {id target value p t} (h : scope.module.kind? id = some (.assign .assign target value))
      (hp : Names scope target p) (ht : Reads (.expr value) t) : Reads (.expr id) (.assign p t)
  | assignWith {id op target value binary a p t} (h : scope.module.kind? id = some (.assign op target value))
      (hbinary : op.binary? = some binary) (hop : Arithmetic.of? binary = some a) (hp : Names scope target p)
      (ht : Reads (.expr value) t) : Reads (.expr id) (.assignWith a p t)
  | conditional {id test consequent alternate t c a}
      (h : scope.module.kind? id = some (.conditional test consequent alternate)) (ht : Reads (.expr test) t)
      (hc : Reads (.expr consequent) c) (ha : Reads (.expr alternate) a) : Reads (.expr id) (.conditional t c a)
  | sequence {id ids t} (h : scope.module.kind? id = some (.sequence ids)) (ht : Reads (.row ids) t) :
    Reads (.expr id) t
  | last {id t} (h : Reads (.expr id) t) : Reads (.row [id]) t
  | next {id id' ids t t'} (h : Reads (.expr id) t) (hrest : Reads (.row (id' :: ids)) t') :
    Reads (.row (id :: id' :: ids)) (.sequence t t')

end

def childrenAt (m : Module) (id : NodeId) : List NodeId := (m.kind? id).elim [] Kind.childList

theorem mem_childrenAt (h : m.kind? id = some kind) : c ∈ childrenAt m id ↔ c ∈ kind.childList := by
  rw [childrenAt, h]
  rfl

theorem mem_nodes_of_childrenAt (h : c ∈ childrenAt m id) : id ∈ m.nodes := by
  cases hkind : m.kind? id with
  | none =>
    rw [childrenAt, hkind] at h
    exact absurd h not_mem_nil
  | some kind =>
    obtain ⟨node, hnode, -⟩ := NodeTable.kind?_eq_some.1 hkind
    exact IdMap.mem_iff.2 ⟨node, hnode⟩

section Acc

variable {scope : NumericScope}

theorem acc_of_children (h : scope.module.kind? id = some kind)
    (hc : ∀ c ∈ kind.childList, Acc (fun c p => c ∈ childrenAt scope.module p) c) :
    Acc (fun c p => c ∈ childrenAt scope.module p) id :=
  ⟨id, fun c hmem => hc c ((mem_childrenAt h).1 hmem)⟩

theorem Names.acc {p : Place} (h : Names scope id p) : Acc (fun c p => c ∈ childrenAt scope.module p) id := by
  obtain ⟨name, binding, h, -⟩ := h
  exact acc_of_children h (by simp [Kind.childList])

/-- **What is read has an end downward.** -/
theorem Reads.acc {phrase : Phrase} {t : Formula} (h : Reads scope phrase t) :
    ∀ id ∈ phrase.nodes, Acc (fun c p => c ∈ childrenAt scope.module p) id := by
  induction h with
  | @literal id kind value h hvalue =>
    refine forall_mem_singleton.2 (acc_of_children h ?_)
    cases kind <;> first | exact forall_mem_nil _ | cases hvalue
  | name h => exact forall_mem_singleton.2 h.acc
  | arithmetic h _ _ _ ihl ihr | comparison h _ _ _ ihl ihr | and h _ _ ihl ihr | or h _ _ ihl ihr =>
    refine forall_mem_singleton.2 (acc_of_children h ?_)
    exact forall_mem_cons.2 ⟨ihl _ (mem_singleton_self _), ihr⟩
  | neg h _ ih | plus h _ ih | not h _ ih | void h _ ih =>
    exact forall_mem_singleton.2 (acc_of_children h ih)
  | update h hp =>
    exact forall_mem_singleton.2 (acc_of_children h (forall_mem_singleton.2 hp.acc))
  | assign h hp _ ih | assignWith h _ _ hp _ ih =>
    exact forall_mem_singleton.2 (acc_of_children h (forall_mem_cons.2 ⟨hp.acc, ih⟩))
  | conditional h _ _ _ iht ihc iha =>
    refine forall_mem_singleton.2 (acc_of_children h ?_)
    exact forall_mem_cons.2 ⟨iht _ (mem_singleton_self _),
      forall_mem_cons.2 ⟨ihc _ (mem_singleton_self _), iha⟩⟩
  | sequence h _ ih => exact forall_mem_singleton.2 (acc_of_children h ih)
  | last _ ih => exact ih
  | next _ _ ih ihrest => exact forall_mem_cons.2 ⟨ih _ (mem_singleton_self _), ihrest⟩

end Acc

end Retarget.Numeric
