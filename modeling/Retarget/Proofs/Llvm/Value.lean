import Retarget.Llvm.Value
import Retarget.Proofs.Inversion
import Retarget.Proofs.Llvm.Draft

/-!
# Expressions extend a draft

`Computes n x post`: if the values below `n` have been defined, `x` extends the draft, whatever labels are
pending, and its result satisfies `post` with the number of values that have been defined then. There is a rule
for each way to put computations together, and with them a lemma for each kind of expression.

* `Gen.computes_select`: the values of two arms meet in a block that exactly the ends of the arms lead to.
* `Gen.expr_evaluates`: an expression extends the draft, and its value has been defined afterwards.
-/

namespace Retarget.Llvm

open List Surrounded Operand Draft Terminator

@[simp]
theorem Operand.below_value {n m : Nat} : (value n).Below m ↔ n < m := by
  simp [Operand.Below, number?]

variable {m : Nat}

@[simp]
theorem Operand.below_const {x : Float} : (const x).Below m := nofun

@[simp]
theorem Operand.below_half : half.Below m := nofun

@[simp]
theorem Gen.below_nan : Gen.nan.Below m := nofun

namespace Gen

variable {α β : Type} {n m : Nat}

/-- A computation extends every draft in which the values below `n` have been defined. -/
def Computes (n : Nat) (x : Gen α) (post : α → Nat → Prop) : Prop :=
  ∀ pending scope (d d' : Draft) a, d.Orderly pending → n ≤ d.nextValue → x scope d = .ok (a, d') →
    d.Extends pending d' ∧ post a d'.nextValue

def Evaluates (r : NodeId → Gen Operand) : Prop := ∀ id n, Computes n (r id) fun o m => o.Below m

/-! ## Rules -/

variable {scope : NumericScope} {d d' : Draft} {c : Computation} {id argument : NodeId} {reason : String}
  {op : BinaryOperator} {l done : Label} {u : Unit} {pending : List Label} {flag : Nat} {taken other : Gen Operand}
  {items : List ListItem}

theorem define_ok {number : Nat} :
    define c scope d = .ok (number, d') ↔ (d.define c).nextValue - 1 = number ∧ d.define c = d' := by
  change Except.ok ((d.define c).nextValue - 1, d.define c) = .ok (number, d') ↔ _
  rw [Except.ok.injEq, Prod.mk.injEq]

namespace Computes

variable {x : Gen α} {f : α → Gen β} {post : α → Nat → Prop} {post' : β → Nat → Prop} {a : α} {e : BackendError}

theorem pure (ha : ∀ m, n ≤ m → post a m) : Computes n (Pure.pure a) post := by
  intro pending scope d d' b h hn hrun
  obtain ⟨rfl, rfl⟩ := pure_ok.1 hrun
  exact ⟨.refl h, ha _ hn⟩

theorem bind (hx : Computes n x post) (hf : ∀ a m, n ≤ m → post a m → Computes m (f a) post') :
    Computes n (x >>= f) post' := by
  intro pending scope d d' b h hn hrun
  obtain ⟨a, e, ha, hb⟩ := bind_ok.1 hrun
  obtain ⟨hext, hpost⟩ := hx pending scope d e a h hn ha
  have hle := Nat.le_trans hn hext.value_le
  obtain ⟨hext', hpost'⟩ := hf a e.nextValue hle hpost pending scope e d' b hext.orderly (Nat.le_refl _) hb
  exact ⟨hext.trans hext', hpost'⟩

theorem throw : Computes n (throw e : Gen α) post := by
  intro pending scope d d' a h hn hrun
  exact absurd hrun throw_ok

theorem throw_bind : Computes n (MonadExcept.throw e >>= f) post' := by
  intro pending scope d d' a h hn hrun
  obtain ⟨b, e', hb, -⟩ := bind_ok.1 hrun
  exact absurd hb throw_ok

theorem pure_bind (h : Computes n (f a) post') : Computes n (Pure.pure a >>= f) post' := by
  intro pending scope d d' b hd hn hrun
  obtain ⟨a', e, ha, hb⟩ := bind_ok.1 hrun
  obtain ⟨rfl, rfl⟩ := pure_ok.1 ha
  exact h pending scope d d' b hd hn hb

theorem read : Computes n (read : Gen NumericScope) fun _ _ => True := by
  intro pending scope d d' a h hn hrun
  obtain ⟨-, rfl⟩ := read_ok.1 hrun
  exact ⟨.refl h, trivial⟩

theorem lift {x : Except BackendError α} : Computes n (liftM x : Gen α) fun _ _ => True := by
  intro pending scope d d' a h hn hrun
  obtain ⟨-, rfl⟩ := lift_ok.1 hrun
  exact ⟨.refl h, trivial⟩

theorem store {o : Operand} {place : Address} (ho : o.Below n) :
    Computes n (Gen.instruction (.store o place)) fun _ _ => True := by
  intro pending scope d d' a h hn hrun
  obtain rfl := modify_ok.1 hrun
  have horderly := h.instruction (i := .store o place) (by simpa [Instr.operands] using ho.mono hn) rfl rfl
  exact ⟨h.opened.1.trans (Orderly.extends_instr (fun _ => trivial) (Nat.le_refl _) horderly), trivial⟩

theorem define (hoperands : ∀ o ∈ c.operands, o.Below n) (horigins : c.origins? = none) :
    Computes n (Gen.define c) fun number m => number < m := by
  intro pending scope d d' number h hn hrun
  obtain ⟨rfl, rfl⟩ := define_ok.1 hrun
  obtain ⟨hext, hvalue⟩ := h.define (fun o ho => (hoperands o ho).mono hn) horigins
  exact ⟨hext, by omega⟩

theorem value (hoperands : ∀ o ∈ c.operands, o.Below n) (horigins : c.origins? = none) :
    Computes n (Gen.value c) fun o m => o.Below m :=
  (define hoperands horigins).bind fun _ _ _ hnumber =>
    pure fun _ hk => below_value.2 (Nat.lt_of_lt_of_le hnumber hk)

end Computes

/-! ## Looking nodes up -/

theorem computes_node : Computes n (node id) fun _ _ => True :=
  Computes.read.bind fun _ _ _ _ => .lift

variable {node : Node}

theorem computes_unsupported {post : α → Nat → Prop} : Computes n (unsupported node reason) post :=
  .throw

theorem computes_found {address? : Option Address} : Computes n (address.found node address?) fun _ _ => True := by
  cases address? with
  | some a => exact .pure fun _ _ => trivial
  | none => exact .throw

theorem computes_address {slot : Slot} : Computes n (address node slot) fun _ _ => True := by
  refine Computes.read.bind fun scope m _ _ => ?_
  cases slot with
  | «local» index => exact computes_found
  | global index => exact computes_found
  | function index => exact computes_unsupported

theorem computes_variableAddress {binding : Option NodeId} :
    Computes n (variableAddress node binding) fun _ _ => True :=
  Computes.read.bind fun _ _ _ _ => Computes.lift.bind fun _ _ _ _ => computes_address

theorem computes_variableTarget : Computes n (variableTarget node reason id) fun _ _ => True := by
  refine computes_node.bind fun target m _ _ => ?_
  split
  · exact computes_variableAddress
  · exact computes_unsupported

/-! ## Operations on operands -/

variable {left right operand : Operand}

attribute [local simp] Computation.operands

theorem computes_truthy (h : operand.Below n) : Computes n (truthy operand) fun flag m => flag < m :=
  .define (by simp [h]) rfl

theorem computes_compare (hl : left.Below n) (hr : right.Below n) :
    Computes n (compare node op left right) fun flag m => flag < m := by
  have hpredicate (predicate : Predicate) : Computes n
      (pure predicate >>= fun predicate => define (.compare predicate left right)) fun flag m => flag < m := by
    exact .pure_bind (.define (by simp [hl, hr]) rfl)
  cases op <;> first | exact hpredicate _ | exact .throw_bind

theorem computes_arithmetic (hl : left.Below n) (hr : right.Below n) :
    Computes n (arithmetic node op left right) fun o m => o.Below m := by
  have hboth : ∀ o ∈ [left, right], o.Below n := by simp [hl, hr]
  have hcompare (op : BinaryOperator) : Computes n
      (compare node op left right >>= fun flag => value (.toFloat flag)) fun o => o.Below :=
    (computes_compare hl hr).bind fun flag m _ hflag => .value (by simp [hflag]) rfl
  cases op <;> first | exact .value hboth rfl | exact hcompare _

theorem computes_update {op : UpdateOperator} {before : Bool} :
    Computes n (update node op before argument) fun o m => o.Below m := by
  refine computes_variableTarget.bind fun place m _ _ => ?_
  refine Computes.bind (.value (by simp) rfl) fun old m₁ _ hold => ?_
  refine Computes.bind (.value (by simp [hold]) rfl) fun new m₂ hm hnew => ?_
  refine Computes.bind (.store hnew) fun _ m₃ hm' _ => ?_
  refine .pure fun k hk => ?_
  cases before with
  | true => exact hnew.mono (by omega)
  | false => exact hold.mono (by omega)

/-! ## Two arms -/

variable {construct : Construct}

theorem label_ok {part : Part} : label construct part scope d = .ok (l, d') ↔
      .part construct part d.nextLabel = l ∧ { d with nextLabel := d.nextLabel + 1 } = d' := by
  change Except.ok (Label.part construct part d.nextLabel, { d with nextLabel := d.nextLabel + 1 }) =
    .ok (l, d') ↔ _
  rw [Except.ok.injEq, Prod.mk.injEq]

theorem terminator_ok {t : Terminator} : terminator t scope d = .ok (u, d') ↔ d.terminate t = d' :=
  modify_ok

theorem startBlock_ok : startBlock l scope d = .ok (u, d') ↔ d.start l = d' :=
  modify_ok

/-- An arm that is started in a new block leads to the join `done` from the block that it ends in. -/
structure ArmEnds (d d' : Draft) (pending : List Label) (done : Label) (o : Operand) : Prop where
  orderly : (d'.terminate (.jump done)).Orderly (done :: pending)
  keeps : ∀ kept : Label → Prop, ¬kept done → (∀ l, kept l → l.Below d.nextLabel) →
    d.Keeps kept (d'.terminate (.jump done))
  sources_eq : (d'.terminate (.jump done)).sources done = d.sources done ++ [d'.block]
  block_mem : d'.block ∈ (d'.terminate (.jump done)).labels
  block_new : d'.block ∉ d.labels
  below : o.Below (d'.terminate (.jump done)).nextValue

attribute [local simp] targets

theorem armEnds {arm : Gen Operand} {o : Operand} (h : d.Orderly (l :: done :: pending)) (hend : d.terminated = true)
    (hn : n ≤ d.nextValue) (harm : Computes n arm fun o m => o.Below m) (hrun : arm scope (d.start l) = .ok (o, d')) :
    ArmEnds d d' pending done o := by
  have hstart := h.start hend
  obtain ⟨hext, ho⟩ := harm _ scope _ d' o hstart hn hrun
  have hopen : d'.terminated = false := hext.open_of_open rfl
  have hdone : done.Below d.nextLabel := h.below done (by simp)
  constructor
  case orderly =>
    refine hext.orderly.terminate (by simp [operands]) ?_
    simpa using hext.orderly.target_of_pending mem_cons_self
  case keeps =>
    intro kept hkept hbelow
    exact (Draft.Keeps.start.trans (hext.toKeeps.mono hbelow)).trans
      (.terminate (fun _ => trivial) (by simpa using hkept))
  case sources_eq =>
    rw [hext.orderly.sources_jump hopen, hext.sources_eq done hdone, sources_start]
  case block_mem =>
    rw [labels_terminate]
    exact hext.orderly.block_mem
  case block_new =>
    rcases hext.block_new with heq | hnew
    · exact heq ▸ h.notMem_of_pending mem_cons_self
    · exact fun hmem => hnew (labels_start ▸ mem_append_left _ hmem)
  case below =>
    rw [nextValue_terminate]
    exact ho

/-- The labels of a choice are pending after its branch, and nothing leads to the join. -/
structure Forks (d e : Draft) (pending : List Label) (taken other done : Label) : Prop where
  orderly : e.Orderly (taken :: done :: other :: pending)
  terminated : e.terminated = true
  keeps : d.Keeps (·.Below d.nextLabel) e
  sources_eq : e.sources done = []
  done_new : ¬done.Below d.nextLabel

theorem forks {taken other : Label} (htaken : taken = .part construct .taken d.nextLabel)
    (hother : other = .part construct .other (d.nextLabel + 1)) (hdone : done = .part construct .done (d.nextLabel + 2))
    (h : d.Orderly pending) (hflag : flag < d.nextValue) :
    Forks d (terminate { d with nextLabel := d.nextLabel + 3 } (.branch flag taken other)) pending taken
      other done := by
  have hnew : ∀ l ∈ [taken, other, done], ¬l.Below d.nextLabel := by simp [htaken, hother, hdone, Label.Below]
  have hpending : Draft.Orderly (taken :: done :: other :: pending) { d with nextLabel := d.nextLabel + 3 } := by
    have h₁ := h.label (hnew taken (by simp)) (by simp [htaken, Label.Below])
    have h₂ := h₁.label (l := other) (by simp [hother, Label.Below]) (by simp [hother, Label.Below])
    have h₃ := h₂.label (l := done) (by simp [hdone, Label.Below]) (by simp [hdone, Label.Below])
    exact h₃.perm perm_rotate
  have hlabels {kept : Label → Prop} : d.Keeps kept { d with nextLabel := d.nextLabel + 3 } :=
    { Draft.Keeps.refl with label_le := Nat.le_add_right _ _, goesOn := fun _ => .of_eq rfl }
  constructor
  case orderly =>
    refine hpending.terminate (by simpa [operands] using hflag) fun l hl => ?_
    refine hpending.target_of_pending ?_
    simp only [targets, mem_cons, not_mem_nil, or_false] at hl ⊢
    rcases hl with hl | hl <;> simp [hl]
  case terminated => exact terminated_terminate
  case keeps => exact hlabels.trans (.terminate (fun _ => trivial) (by simp [hnew]))
  case sources_eq =>
    have hkeeps : d.Keeps (· = done) (terminate { d with nextLabel := d.nextLabel + 3 }
        (.branch flag taken other)) :=
      hlabels.trans (.terminate (fun _ => trivial) (by simp [htaken, hother, hdone]))
    exact (hkeeps.sources_eq done rfl).trans (h.sources_eq_nil (hnew done (by simp)))
  case done_new => exact hnew done (by simp)

theorem select_ok {a : Operand} (hrun : select construct flag taken other scope d = .ok (a, d')) :
    ∃ takenLabel otherLabel done e e₁ e₂ takenValue otherValue,
      takenLabel = .part construct .taken d.nextLabel ∧ otherLabel = .part construct .other (d.nextLabel + 1) ∧
      done = .part construct .done (d.nextLabel + 2) ∧
      e = terminate { d with nextLabel := d.nextLabel + 3 } (.branch flag takenLabel otherLabel) ∧
      taken scope (e.start takenLabel) = .ok (takenValue, e₁) ∧
      other scope ((e₁.terminate (.jump done)).start otherLabel) = .ok (otherValue, e₂) ∧
      value (.phi takenValue e₁.block otherValue e₂.block) scope ((e₂.terminate (.jump done)).start done) =
        .ok (a, d') := by
  obtain ⟨takenLabel, d₁, hlabel, hrun⟩ := bind_ok.1 hrun
  obtain ⟨htaken, rfl⟩ := label_ok.1 hlabel
  obtain ⟨otherLabel, d₂, hlabel, hrun⟩ := bind_ok.1 hrun
  obtain ⟨hother, rfl⟩ := label_ok.1 hlabel
  obtain ⟨done, d₃, hlabel, hrun⟩ := bind_ok.1 hrun
  obtain ⟨hdone, rfl⟩ := label_ok.1 hlabel
  obtain ⟨u, d₄, hbranch, hrun⟩ := bind_ok.1 hrun
  obtain rfl := terminator_ok.1 hbranch
  obtain ⟨u, d₅, hstart, hrun⟩ := bind_ok.1 hrun
  obtain rfl := startBlock_ok.1 hstart
  obtain ⟨takenValue, e₁, htakenRun, hrun⟩ := bind_ok.1 hrun
  obtain ⟨e, e', hget, hrun⟩ := bind_ok.1 hrun
  obtain ⟨rfl, rfl⟩ := get_ok.1 hget
  obtain ⟨u, d₇, hjump, hrun⟩ := bind_ok.1 hrun
  obtain rfl := terminator_ok.1 hjump
  obtain ⟨u, d₈, hstart, hrun⟩ := bind_ok.1 hrun
  obtain rfl := startBlock_ok.1 hstart
  obtain ⟨otherValue, e₂, hotherRun, hrun⟩ := bind_ok.1 hrun
  obtain ⟨e, e', hget, hrun⟩ := bind_ok.1 hrun
  obtain ⟨rfl, rfl⟩ := get_ok.1 hget
  obtain ⟨u, d₁₀, hjump, hrun⟩ := bind_ok.1 hrun
  obtain rfl := terminator_ok.1 hjump
  obtain ⟨u, d₁₁, hstart, hrun⟩ := bind_ok.1 hrun
  obtain rfl := startBlock_ok.1 hstart
  exact ⟨takenLabel, otherLabel, done, _, e₁, e₂, takenValue, otherValue, htaken.symm, hother.symm, hdone.symm, rfl,
    htakenRun, hotherRun, hrun⟩

theorem computes_select (hjoin : ∀ k, (Label.part construct .done k).isJoin = true) (hflag : flag < n)
    (htaken : Computes n taken fun o m => o.Below m) (hother : Computes n other fun o m => o.Below m) :
    Computes n (select construct flag taken other) fun o m => o.Below m := by
  intro pending scope d d' a h hn hrun
  obtain ⟨takenLabel, otherLabel, done, e, e₁, e₂, takenValue, otherValue, htakenLabel, hotherLabel, hdone, he,
    htakenRun, hotherRun, hrun⟩ := select_ok hrun
  obtain ⟨number, d₄, hdefine, hrun⟩ := bind_ok.1 hrun
  obtain ⟨rfl, rfl⟩ := define_ok.1 hdefine
  obtain ⟨rfl, rfl⟩ := pure_ok.1 hrun
  have h₀ : Forks d e pending takenLabel otherLabel done :=
    he ▸ forks htakenLabel hotherLabel hdone h (Nat.lt_of_lt_of_le hflag hn)
  have hn₀ : n ≤ e.nextValue := Nat.le_trans hn h₀.keeps.value_le
  have h₁ := armEnds h₀.orderly h₀.terminated hn₀ htaken htakenRun
  have hkeeps₁ := h₁.keeps _ h₀.done_new fun l hl => hl.mono h₀.keeps.label_le
  have hkeeps₁' := h₀.keeps.trans hkeeps₁
  have h₂ := armEnds (h₁.orderly.perm (.swap ..)) terminated_terminate
    (Nat.le_trans hn hkeeps₁'.value_le) hother hotherRun
  have hkeeps₂ := h₂.keeps _ h₀.done_new fun l hl => hl.mono hkeeps₁'.label_le
  -- The arms end in blocks that differ, and nothing else leads to the join.
  have hne : e₁.block ≠ e₂.block := fun heq => h₂.block_new (heq ▸ h₁.block_mem)
  have hsources : (e₂.terminate (.jump done)).sources done = [e₁.block, e₂.block] := by
    rw [h₂.sources_eq, h₁.sources_eq, h₀.sources_eq]
    rfl
  have hvalue : (((e₂.terminate (.jump done)).start done).define
      (.phi takenValue e₁.block otherValue e₂.block)).nextValue = (e₂.terminate (.jump done)).nextValue + 1 := rfl
  refine ⟨?_, below_value.2 (by omega)⟩
  constructor
  case toKeeps =>
    exact (hkeeps₁'.trans hkeeps₂).trans (Draft.Keeps.start.trans (.instr (fun _ => trivial) (Nat.le_succ _)))
  case orderly =>
    exact h₂.orderly.join terminated_terminate (hdone ▸ hjoin _) hne hsources
      (h₁.below.mono hkeeps₂.value_le) h₂.below
  case open_of_open => exact fun _ => rfl
  case block_new => exact .inr (h.notMem_labels h₀.done_new)

/-! ## Expressions with parts -/

variable {r : NodeId → Gen Operand} (hr : Evaluates r)
include hr

theorem computes_condition : Computes n (condition r id) fun flag m => flag < m := by
  refine computes_node.bind fun node m _ _ => ?_
  dsimp only
  split
  case h_1 op left right _ =>
    refine (hr left m).bind fun l m₁ _ hl => (hr right m₁).bind fun q m₂ hm hq => ?_
    exact computes_compare (hl.mono hm) hq
  case h_2 => exact (hr id m).bind fun o m₁ _ => computes_truthy

theorem computes_assignment {op : AssignmentOperator} {target value : NodeId} :
    Computes n (assignment r node op target value) fun o m => o.Below m := by
  refine computes_variableTarget.bind fun place m _ _ => ?_
  have hstore (result : Operand) (m : Nat) (hresult : result.Below m) : Computes m
      (instruction (.store result place) >>= fun _ => pure result) fun o => o.Below := by
    refine Computes.bind (.store hresult) fun _ m₁ hm _ => ?_
    exact .pure fun k hk => hresult.mono (Nat.le_trans hm hk)
  split
  case isTrue => exact (hr value m).bind fun o m₁ _ => hstore o m₁
  case isFalse =>
    split
    case h_1 binary _ =>
      refine Computes.bind (.value (by simp) rfl) fun current m₁ _ hcurrent => ?_
      refine (hr value m₁).bind fun operand m₂ hm hoperand => ?_
      exact (computes_arithmetic (hcurrent.mono hm) hoperand).bind fun o m₃ _ => hstore o m₃
    case h_2 => exact .throw_bind

theorem computes_unary {op : UnaryOperator} : Computes n (unary r node op argument) fun o m => o.Below m := by
  cases op with
  | neg => exact (hr argument n).bind fun o m _ ho => .value (by simp [ho]) rfl
  | plus => exact hr argument n
  | not =>
    refine (computes_condition hr).bind fun flag m _ hflag => ?_
    refine Computes.bind (.define (by simp [hflag]) rfl) fun inverted m₁ _ hinverted => ?_
    exact .value (by simp [hinverted]) rfl
  | void => exact (hr argument n).bind fun _ _ _ _ => .pure fun _ _ => below_nan
  | _ => exact computes_unsupported

theorem computes_mapM : Computes n (items.mapM fun item => r item.value) fun args m => ∀ o ∈ args, o.Below m := by
  induction items generalizing n with
  | nil => exact .pure fun _ _ => by simp
  | cons item items ih =>
    rw [mapM_cons]
    refine (hr item.value n).bind fun first m _ hfirst => ih.bind fun args m₁ hm hargs => ?_
    refine .pure fun k hk => ?_
    simp only [mem_cons, forall_eq_or_imp]
    exact ⟨hfirst.mono (Nat.le_trans hm hk), fun o ho => (hargs o ho).mono hk⟩

theorem computes_intrinsicCall {i : Intrinsic} : Computes n (intrinsicCall r node i items) fun o m => o.Below m := by
  unfold intrinsicCall
  dsimp only
  split
  case isTrue => exact .throw_bind
  case isFalse =>
    refine (computes_mapM hr).bind fun args m _ hargs => ?_
    cases i with
    | round =>
      have hshift : ∀ o ∈ [args.headD nan, .half], o.Below m := by
        cases args with
        | nil => simp
        | cons first args => simp [hargs first]
      refine Computes.bind (.value hshift rfl) fun shifted m₁ _ hshifted => ?_
      exact .value (by simp [hshifted]) rfl
    | _ => exact .value hargs rfl

theorem computes_call {callee : NodeId} : Computes n (call r node callee items) fun o m => o.Below m := by
  refine Computes.read.bind fun scope m _ _ => ?_
  have hcall (function : NumericFunction) (m : Nat) : Computes m
      (items.mapM (fun item => r item.value) >>= fun args => value (.call function.name
        (args.take function.params.length ++
          List.replicate (function.params.length - args.length) nan))) fun o => o.Below := by
    refine (computes_mapM hr).bind fun args m _ hargs => .value (fun o ho => ?_) rfl
    rcases mem_append.1 ho with ho | ho
    · exact hargs o (mem_of_mem_take ho)
    · exact (mem_replicate.1 ho).2 ▸ below_nan
  dsimp only
  split
  case isTrue => exact .throw_bind
  case isFalse =>
    split
    case h_1 => exact computes_intrinsicCall hr
    case h_2 =>
      refine computes_node.bind fun target m₁ _ _ => ?_
      split
      case h_2 => exact computes_unsupported
      case h_1 =>
        split
        case h_2 => exact .throw_bind
        case h_1 index _ =>
          refine .pure_bind ?_
          split
          case h_2 => exact .throw_bind
          case h_1 function _ =>
            exact .pure_bind (hcall function m₁)

theorem computes_sequence {ids : List NodeId} : Computes n (sequence r ids) fun o m => o.Below m := by
  have hfold (last : Operand) (hlast : last.Below n) :
      Computes n (ids.foldlM (fun _ => r) last) fun o => o.Below := by
    induction ids generalizing n last with
    | nil => exact .pure fun m => hlast.mono
    | cons id ids ih =>
      exact (hr id n).bind fun o m _ => ih o
  exact hfold nan below_nan

theorem computes_logical {op : LogicalOperator} {left right : NodeId} :
    Computes n (logical r op left right) fun o m => o.Below m := by
  refine (hr left n).bind fun l m _ hl => ?_
  have hpure (k : Nat) (hk : m ≤ k) : Computes k (pure l) fun o => o.Below :=
    .pure fun _ hle => hl.mono (Nat.le_trans hk hle)
  cases op with
  | nullish => exact hpure m (Nat.le_refl m)
  | and =>
    refine (computes_truthy hl).bind fun flag m₁ hm hflag => ?_
    exact computes_select (fun _ => rfl) hflag (hr right m₁) (hpure m₁ hm)
  | or =>
    refine (computes_truthy hl).bind fun flag m₁ hm hflag => ?_
    exact computes_select (fun _ => rfl) hflag (hpure m₁ hm) (hr right m₁)

theorem exprStep_evaluates : Evaluates (exprStep r) := by
  intro id n
  refine computes_node.bind fun node m _ _ => ?_
  split
  case h_5 binding _ =>
    split
    · exact .pure fun _ _ => below_const
    · exact computes_variableAddress.bind fun place m₁ _ _ => .value (by simp) rfl
  case h_6 =>
    refine Computes.read.bind fun scope m₁ _ _ => ?_
    split
    · exact .pure fun _ _ => below_const
    · exact computes_unsupported
  case h_7 op left right _ =>
    refine (hr left m).bind fun l m₁ _ hl => (hr right m₁).bind fun q m₂ hm hq => ?_
    exact computes_arithmetic (hl.mono hm) hq
  case h_12 test consequent alternate _ =>
    refine (computes_condition hr).bind fun flag m₁ _ hflag => ?_
    exact computes_select (fun _ => rfl) hflag (hr consequent m₁) (hr alternate m₁)
  case h_8 => exact computes_logical hr
  case h_9 => exact computes_unary hr
  case h_10 => exact computes_update
  case h_11 => exact computes_assignment hr
  case h_13 => exact computes_call hr
  case h_14 => exact computes_sequence hr
  case h_15 => exact computes_unsupported
  all_goals exact .pure fun _ _ => nofun

omit hr in
theorem expr_evaluates (depth : Nat) : Evaluates (expr depth) := by
  induction depth with
  | zero => exact fun _ _ => .throw
  | succ depth ih => exact exprStep_evaluates ih

end Gen

end Retarget.Llvm
