import Retarget.Lua.Chunk
import Retarget.Proofs.Lua.Number
import Retarget.Proofs.Lua.Written
import Retarget.Proofs.Table

/-!
# Which operators are read back as they are meant

`Denotes m id t` says that a node of a module is an expression of names, natural numbers and operators, and
that `t` is its operator tree. Such an expression is always generated, and its text is read back as `t` if and
only if the names in it are names of Lua and every operand that is left without parentheses is held together
by its own operator (`expr_read_back_iff`).

The generator is followed by `Yields`: a computation gives a result and leaves what has been gathered alone.
-/

namespace Retarget.Lua

open List Option Gen

/-! ## The first character of an expression -/

attribute [local simp] Expr.text Expr.firstChar?

theorem Expr.firstChar?_eq (width : Nat) : ∀ e : Expr, e.firstChar? = (e.text width).toList.head?
  | .nil => by simp
  | .bool value => by cases value <;> simp
  | .number value => by simp
  | .string value => by simp [quote]
  | .name s => by simp
  | .varargs => by simp
  | .paren inner => by simp
  | .unary op operand => by cases op <;> simp [UnaryOp.symbol]
  | .binary _ first _ | .index first _ | .field first _ | .call first _ | .method first _ _ => by
    rw [Expr.firstChar?, firstChar?_eq width first]
    simp [List.head?_append]
  | .function level params body => by simp
  | .table entries => by simp

/-- An expression whose text is a phrase, whatever the indentation. -/
def Expr.Spells (e : Expr) (p : Phrase) : Prop := ∀ width, (e.text width).toList = p.chars

variable {p : Phrase} {e l : Expr}

attribute [local simp] Phrase.chars

theorem Expr.Spells.startsWithParen (h : e.Spells p) :
    e.startsWithParen = (p.chars.head? == some '(') := by rw [Expr.startsWithParen, Expr.firstChar?_eq 0, h]
theorem Expr.Spells.paren (h : e.Spells p) : (Expr.paren e).Spells (.paren p) := by
  intro width
  simp [h width]

theorem Expr.Spells.binary {op : BinaryOp} {r : Expr} {q : Phrase} (hl : l.Spells p) (hr : r.Spells q) :
    (Expr.binary op l r).Spells (.binary op p q) := by
  intro width
  simp [hl width, hr width, op.toList_symbol]

theorem Expr.Spells.unary {op : UnaryOp} (h : e.Spells p) : (Expr.unary op e).Spells (.unary op p) := by
  intro width
  simp [h width, op.toList_symbol]

/-! ## Computations that give a result -/

/-- A computation that gives a result and leaves what has been gathered alone. -/
def Yields {α : Type} (job : Job) (g : Gen α) (a : α) : Prop := ∀ s, g job s = (.ok a, s)

namespace Yields

variable {α β : Type} {job : Job}

theorem pure (a : α) : Yields job (Pure.pure a) a := fun _ => rfl

theorem bind {g : Gen α} {f : α → Gen β} {a : α} {b : β} (hg : Yields job g a) (hf : Yields job (f a) b) :
    Yields job (g >>= f) b := by
  intro s
  change StateT.bind (g job) (ExceptT.bindCont fun a => f a job) s = _
  simp only [StateT.bind, hg s]
  exact hf s

theorem read : Yields job (MonadReader.read : Gen Job) job := fun _ => rfl

theorem node {id : NodeId} {node : Node} (h : job.module.node? id = some node) : Yields job (Gen.node id) node := by
  refine read.bind ?_
  simp only [Module.find, h]
  exact pure node

end Yields

/-! ## Expressions of names, natural numbers and operators -/

def isStringNode (m : Module) (id : NodeId) : Bool :=
  (m.node? id).any fun node => (match node.kind with
    | .string _ | .template _ => true
    | _ => false) || node.type.any (·.isString)

/-- The operator of Lua that a binary operation stands for; an addition of strings joins them. -/
def binaryOp? (m : Module) (node : Node) (op : BinaryOperator) (left right : NodeId) : Option BinaryOp :=
  if op.isBitwise then none
  else if op = .add ∧ (isStringNode m left || isStringNode m right || node.type.any (·.isString)) = true then
    some .concat
  else operator? op

def logicalOp? : LogicalOperator → Option BinaryOp
  | .and => some .and
  | .or => some .or
  | .nullish => none

def unaryOp? : UnaryOperator → Option UnaryOp
  | .neg => some .neg
  | .not => some .not
  | _ => none

/-- The operator tree of a node that is an expression of bound names, natural numbers and operators. -/
inductive Denotes (m : Module) : NodeId → Tree → Prop
  | name {id node name binding} (hnode : m.node? id = some node)
      (hkind : node.kind = .identifier name (some binding)) (hname : nameOf name = name) :
      Denotes m id (.name name)
  | numeral {id node value} (hnode : m.node? id = some node) (hkind : node.kind = .number value)
      (hvalue : IsNatural value) : Denotes m id (.numeral (numberText value))
  | binary {id node op left right op' l r} (hnode : m.node? id = some node)
      (hkind : node.kind = .binary op left right) (hop : binaryOp? m node op left right = some op')
      (hl : Denotes m left l) (hr : Denotes m right r) : Denotes m id (.binary op' l r)
  | logical {id node op left right op' l r} (hnode : m.node? id = some node)
      (hkind : node.kind = .logical op left right) (hop : logicalOp? op = some op')
      (hl : Denotes m left l) (hr : Denotes m right r) : Denotes m id (.binary op' l r)
  | unary {id node op argument op' t} (hnode : m.node? id = some node)
      (hkind : node.kind = .unary op argument) (hop : unaryOp? op = some op')
      (ht : Denotes m argument t) : Denotes m id (.unary op' t)

variable {job : Job} {m : Module} {id : NodeId} {t : Tree}

theorem Denotes.needsParens (h : Denotes m id t) :
    ∃ node, m.node? id = some node ∧ needsParens node.kind = t.isCompound := by
  cases h with
  | name hnode hkind _ => exact ⟨_, hnode, by rw [hkind]; rfl⟩
  | numeral hnode hkind hvalue =>
    refine ⟨_, hnode, ?_⟩
    rw [hkind]
    simpa [needsParens, Tree.isCompound] using hvalue.not_neg
  | binary hnode hkind _ _ _ | logical hnode hkind _ _ _ | unary hnode hkind _ _ =>
    exact ⟨_, hnode, by rw [hkind]; rfl⟩

/-- The expression of an operand, which may be put in parentheses. -/
def parenthesized (t : Tree) (e : Expr) : Expr := if t.isCompound && !e.startsWithParen then .paren e else e

theorem spells_parenthesized (h : e.Spells t.written) :
    (parenthesized t e).Spells (Tree.asOperand t.isCompound t.written) := by
  rw [parenthesized, h.startsWithParen, Tree.asOperand, bne]
  split
  · exact h.paren
  · exact h

section Generators

variable {r : Generators} {here : Place} {e : Expr}

theorem operand_yields (hd : Denotes job.module id t) (h : Yields job (r.expr here id) e) :
    Yields job (operand r here id) (parenthesized t e) := by
  obtain ⟨node, hnode, hparens⟩ := hd.needsParens
  rw [parenthesized, ← hparens]
  exact h.bind ((Yields.node hnode).bind (Yields.pure _))

theorem isString_yields : Yields job (isString id) (isStringNode job.module id) :=
  Yields.read.bind (Yields.pure _)

variable {op' : BinaryOp} {left right : NodeId} {q : Expr}

theorem binary_yields {node : Node} {op : BinaryOperator} (hop : binaryOp? job.module node op left right = some op')
    (hl : Yields job (operand r here left) l) (hq : Yields job (operand r here right) q) :
    Yields job (binary r here node op left right) (.binary op' l q) := by
  unfold binaryOp? at hop
  split at hop
  case isTrue => cases hop
  case isFalse hbits =>
    unfold binary
    rw [if_neg hbits]
    by_cases hadd : op = .add
    · rw [if_pos hadd]
      refine isString_yields.bind (isString_yields.bind ((Yields.pure _).bind ?_))
      refine hl.bind (hq.bind ?_)
      split at hop
      case isTrue hjoins =>
        obtain rfl := some.inj hop
        rw [if_pos hjoins.2]
        exact Yields.pure _
      case isFalse hjoins =>
        rw [if_neg fun h => hjoins ⟨hadd, h⟩, hop]
        exact Yields.pure _
    · rw [if_neg fun h => hadd h.1] at hop
      rw [if_neg hadd]
      refine (Yields.pure _).bind (hl.bind (hq.bind ?_))
      rw [hop]
      exact Yields.pure _

theorem logical_yields {op : LogicalOperator} (hop : logicalOp? op = some op')
    (hl : Yields job (operand r here left) l) (hq : Yields job (operand r here right) q) :
    Yields job (logical r here op left right) (.binary op' l q) := by
  refine hl.bind (hq.bind ?_)
  cases op with
  | and | or =>
    obtain rfl := some.inj hop
    exact Yields.pure _
  | nullish => cases hop

theorem unary_yields {node : Node} {op : UnaryOperator} {op' : UnaryOp} {argument : NodeId}
    (hop : unaryOp? op = some op') (hq : Yields job (operand r here argument) q) :
    Yields job (unary r here node op argument) (.unary op' q) := by
  cases op with
  | neg | not =>
    obtain rfl := some.inj hop
    exact hq.bind (Yields.pure _)
  | _ => cases hop

end Generators

def Tree.height : Tree → Nat
  | name _ | numeral _ => 1
  | binary _ left right => max left.height right.height + 1
  | unary _ operand => operand.height + 1

theorem yields_deeper {n : Nat} (h : ∀ depth here, n ≤ depth → Yields job (expr (generators depth) here id) e) :
    ∀ depth here, n + 1 ≤ depth → Yields job ((generators depth).expr here id) e := by
  intro depth here hdepth
  obtain ⟨depth, rfl⟩ : ∃ k, depth = k + 1 := ⟨depth - 1, by omega⟩
  exact h depth here (by omega)

/-- **An expression of names, natural numbers and operators is generated**, with the text that is written for
its tree. -/
theorem expr_yields (hd : Denotes job.module id t) : ∃ e : Expr, e.Spells t.written ∧
      ∀ depth here, t.height ≤ depth → Yields job ((generators depth).expr here id) e := by
  induction hd with
  | @name _ _ name _ hnode hkind hname =>
    refine ⟨.name name, fun width => by simp [Tree.written], ?_⟩
    refine yields_deeper fun depth here _ => (Yields.node hnode).bind ?_
    have hglobal (binding : NodeId) : (Kind.identifier name (some binding)).globalNumber? = none := by
      simp [Kind.globalNumber?]
    simp only [hkind, hglobal, hname]
    exact Yields.pure _
  | @numeral _ _ value hnode hkind _ =>
    refine ⟨.number value, fun width => by simp [Tree.written], ?_⟩
    refine yields_deeper fun depth here _ => (Yields.node hnode).bind ?_
    rw [hkind]
    exact Yields.pure _
  | @binary _ _ _ _ _ op' l r hnode hkind hop hdl hdr ihl ihr
  | @logical _ _ _ _ _ op' l r hnode hkind hop hdl hdr ihl ihr =>
    obtain ⟨el, hel, hl⟩ := ihl
    obtain ⟨er, her, hr⟩ := ihr
    refine ⟨.binary op' (parenthesized l el) (parenthesized r er),
      (spells_parenthesized hel).binary (spells_parenthesized her), ?_⟩
    refine yields_deeper fun depth here hdepth => (Yields.node hnode).bind ?_
    rw [hkind]
    have hl := operand_yields hdl (hl depth here (Nat.le_trans (Nat.le_max_left ..) hdepth))
    have hr := operand_yields hdr (hr depth here (Nat.le_trans (Nat.le_max_right ..) hdepth))
    first
    | exact binary_yields hop hl hr
    | exact logical_yields hop hl hr
  | @unary _ _ _ _ op' t hnode hkind hop hdt ih =>
    obtain ⟨e, he, ht⟩ := ih
    refine ⟨.unary op' (parenthesized t e), (spells_parenthesized he).unary, ?_⟩
    refine yields_deeper fun depth here hdepth => (Yields.node hnode).bind ?_
    rw [hkind]
    exact unary_yields hop (operand_yields hdt (ht depth here hdepth))

/-! ## The depth of an expression -/

theorem Denotes.unique {t' : Tree} (h : Denotes m id t) (h' : Denotes m id t') : t = t' := by
  induction h generalizing t' with
  | name hnode hkind _ | numeral hnode hkind _ => cases h' <;> simp_all
  | binary hnode hkind hop _ _ ihl ihr =>
    cases h' with
    | binary hnode' hkind' hop' hl hr =>
      obtain rfl := some.inj (hnode.symm.trans hnode')
      cases hkind.symm.trans hkind'
      cases hop.symm.trans hop'
      rw [ihl hl, ihr hr]
    | _ => simp_all
  | logical hnode hkind hop _ _ ihl ihr =>
    cases h' with
    | logical hnode' hkind' hop' hl hr =>
      obtain rfl := some.inj (hnode.symm.trans hnode')
      cases hkind.symm.trans hkind'
      cases hop.symm.trans hop'
      rw [ihl hl, ihr hr]
    | _ => simp_all
  | unary hnode hkind hop _ ih =>
    cases h' with
    | unary hnode' hkind' hop' ht =>
      obtain rfl := some.inj (hnode.symm.trans hnode')
      cases hkind.symm.trans hkind'
      cases hop.symm.trans hop'
      rw [ih ht]
    | _ => simp_all

theorem Denotes.mem_nodes (h : Denotes m id t) : id ∈ m.nodes := by
  cases h <;> exact Std.ExtTreeMap.mem_iff_isSome_getElem?.2 (isSome_of_eq_some ‹_›)

/-- Nodes on the way down to a node: their trees are larger than the tree of the node. -/
structure Above (m : Module) (t : Tree) (above : List NodeId) : Prop where
  nodup : above.Nodup
  larger : ∀ a ∈ above, ∃ ta, Denotes m a ta ∧ t.size < ta.size

namespace Above

variable {above : List NodeId} {c : Tree}

theorem nodup_cons (h : Above m t above) (hd : Denotes m id t) : (id :: above).Nodup := by
  refine List.nodup_cons.2 ⟨fun hid => ?_, h.nodup⟩
  obtain ⟨ta, hta, hlt⟩ := h.larger id hid
  rw [hd.unique hta] at hlt
  exact Nat.lt_irrefl _ hlt

theorem cons (h : Above m t above) (hd : Denotes m id t) (hc : c.size < t.size) : Above m c (id :: above) := by
  refine ⟨h.nodup_cons hd, fun a ha => ?_⟩
  rcases mem_cons.1 ha with rfl | ha
  · exact ⟨t, hd, hc⟩
  · obtain ⟨ta, hta, hlt⟩ := h.larger a ha
    exact ⟨ta, hta, Nat.lt_trans hc hlt⟩

theorem length_lt (h : Above m t above) (hd : Denotes m id t) : above.length + 1 ≤ m.nodes.size := by
  refine IdMap.length_le_size (h.nodup_cons hd) fun a ha => ?_
  rcases mem_cons.1 ha with rfl | ha
  · exact hd.mem_nodes
  · obtain ⟨ta, hta, -⟩ := h.larger a ha
    exact hta.mem_nodes

end Above

theorem Denotes.height_le_of_above (hd : Denotes m id t) {above : List NodeId} (h : Above m t above) :
    above.length + t.height ≤ m.nodes.size := by
  induction hd generalizing above with
  | name hnode hkind hname => exact h.length_lt (.name hnode hkind hname)
  | numeral hnode hkind hvalue => exact h.length_lt (.numeral hnode hkind hvalue)
  | binary hnode hkind hop hl hr ihl ihr =>
    have hd := Denotes.binary hnode hkind hop hl hr
    have hl := ihl (h.cons hd (by simp only [Tree.size]; omega))
    have hr := ihr (h.cons hd (by simp only [Tree.size]; omega))
    simp only [length_cons, Tree.height] at hl hr ⊢
    omega
  | logical hnode hkind hop hl hr ihl ihr =>
    have hd := Denotes.logical hnode hkind hop hl hr
    have hl := ihl (h.cons hd (by simp only [Tree.size]; omega))
    have hr := ihr (h.cons hd (by simp only [Tree.size]; omega))
    simp only [length_cons, Tree.height] at hl hr ⊢
    omega
  | unary hnode hkind hop ht ih =>
    have hd := Denotes.unary hnode hkind hop ht
    have ht := ih (h.cons hd (by simp only [Tree.size]; omega))
    simp only [length_cons, Tree.height] at ht ⊢
    omega

theorem Denotes.height_le (hd : Denotes m id t) : t.height ≤ m.levels := by
  have h := hd.height_le_of_above ⟨nodup_nil, fun a ha => nomatch ha⟩
  simp only [length_nil, Nat.zero_add] at h
  exact Nat.le_succ_of_le h

theorem Denotes.isNumeral (hd : Denotes m id t) : ∀ s ∈ t.numerals, isNumeral s.toList = true := by
  induction hd with
  | name => exact fun s hs => nomatch hs
  | numeral _ _ hvalue =>
    intro s hs
    rw [mem_singleton.1 hs]
    exact isNumeral_numberText hvalue
  | binary _ _ _ _ _ ihl ihr | logical _ _ _ _ _ ihl ihr =>
    exact fun s hs => (mem_append.1 hs).elim (ihl s) (ihr s)
  | unary _ _ _ _ ih => exact ih

/-- **An expression of bound names, natural numbers and operators is always generated, and its text is read
back as its operator tree exactly if its names are names of Lua and it is grouped.** -/
theorem expr_read_back_iff (job : Job) (here : Place) (id : NodeId) (t : Tree) (h : Denotes job.module id t) :
    ∃ e : Expr, (∀ s, (generators job.module.levels).expr here id job s = (.ok e, s)) ∧
      ∀ width, parse (e.text width) = some t ↔
        (∀ name ∈ t.names, isIdentifier name = true) ∧ t.isGrouped = true := by
  obtain ⟨e, he, hyields⟩ := expr_yields h
  refine ⟨e, hyields _ here h.height_le, fun width => ?_⟩
  exact Tree.parse_written_iff h.isNumeral (he width)

/-- The parameters `a`, `b` and `c`, the product `a * (b + c)` as node 8, and the product `a * ((b + c) - a)`
as node 11. -/
def products : Job where
  module := .numbered [.parameter "a", .parameter "b", .parameter "c", .identifier "a" (some 1),
    .identifier "b" (some 2), .identifier "c" (some 3), .binary .add 5 6, .binary .mul 4 7,
    .identifier "a" (some 1), .binary .sub 7 9, .binary .mul 4 10] []

/-- The tree of the sum in `products`. -/
def sumTree : Tree := .binary .add (.name "b") (.name "c")

theorem products_denote : Denotes products.module 8 (.binary .mul (.name "a") sumTree) ∧
    Denotes products.module 11 (.binary .mul (.name "a") (.binary .sub sumTree (.name "a"))) := by
  have ha : Denotes products.module 4 (.name "a") := .name rfl rfl rfl
  have hb : Denotes products.module 5 (.name "b") := .name rfl rfl rfl
  have hc : Denotes products.module 6 (.name "c") := .name rfl rfl rfl
  have ha' : Denotes products.module 9 (.name "a") := .name rfl rfl rfl
  have hsum : Denotes products.module 7 sumTree := .binary rfl rfl rfl hb hc
  have hdifference : Denotes products.module 10 (.binary .sub sumTree (.name "a")) :=
    .binary rfl rfl rfl hsum ha'
  exact ⟨.binary rfl rfl rfl ha hsum, .binary rfl rfl rfl ha hdifference⟩

theorem products_read_back : (∃ e : Expr, (∀ s, (generators products.module.levels).expr {} 8 products s = (.ok e, s)) ∧
      ∀ width, parse (e.text width) = some (.binary .mul (.name "a") sumTree)) ∧
    ∃ e : Expr, (∀ s, (generators products.module.levels).expr {} 11 products s = (.ok e, s)) ∧
      ∀ width, parse (e.text width) ≠ some (.binary .mul (.name "a") (.binary .sub sumTree (.name "a"))) := by
  obtain ⟨e, he, hread⟩ := expr_read_back_iff products {} 8 _ products_denote.1
  obtain ⟨e', he', hread'⟩ := expr_read_back_iff products {} 11 _ products_denote.2
  exact ⟨⟨e, he, fun width => (hread width).2 (by decide)⟩,
    e', he', fun width h => absurd ((hread' width).1 h).2 (by decide)⟩

end Retarget.Lua
