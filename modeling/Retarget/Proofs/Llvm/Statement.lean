import Retarget.Llvm.Statement
import Retarget.Proofs.Llvm.Value

/-!
# Statements write whole blocks

`Stands pending targets d`: the draft is orderly, and there are or will be blocks of the labels `targets`, which
a statement can jump to. `Leads returns pre x post` is a triple for computations, and `Keeping returns targets x` says
that `x` jumps only to labels of its own and to `targets`, and starts the blocks of all labels that it makes.

* `Gen.stmt_keeping`: a statement jumps only to labels of its own and to those of the loop around it.
-/

namespace Retarget.Llvm

open List Surrounded Draft

def Loop.targets (loop : Option Loop) : List Label :=
  loop.toList.flatMap fun l => [l.continueTo, l.breakTo]

/-- A draft is orderly, and the targets have been started or are pending. -/
structure Stands (pending targets : List Label) (d : Draft) : Prop where
  orderly : d.Orderly pending
  target : ∀ l ∈ targets, l ∈ d.labels ++ pending ∧ l.isJoin = false

variable {l : Label}

namespace Stands

variable {pending other targets more : List Label} {d d' : Draft}

section

variable (h : Stands pending targets d)
include h

theorem subset (hsubset : more ⊆ targets) : Stands pending more d :=
  ⟨h.orderly, fun l hl => h.target l (hsubset hl)⟩

theorem perm (hperm : pending.Perm other) : Stands other targets d :=
  ⟨h.orderly.perm hperm, fun l hl =>
    ⟨(hperm.append_left _).mem_iff.1 (h.target l hl).1, (h.target l hl).2⟩⟩

theorem extend (hext : d.Extends pending d') : Stands pending targets d' := by
  refine ⟨hext.orderly, fun l hl => ⟨?_, (h.target l hl).2⟩⟩
  rcases mem_append.1 (h.target l hl).1 with hmem | hmem
  · exact mem_append_left _ (hext.labels_subset hmem)
  · exact mem_append_right _ hmem

theorem terminate {t : Terminator} (hoperands : ∀ o ∈ t.operands, o.Below d.nextValue)
    (htargets : t.targets ⊆ targets) : Stands pending targets (d.terminate t) := by
  refine ⟨h.orderly.terminate hoperands fun l hl => ?_, fun l hl => ⟨?_, (h.target l hl).2⟩⟩
  · exact ⟨(h.target l (htargets hl)).1, fun _ => (h.target l (htargets hl)).2⟩
  · rw [labels_terminate]
    exact (h.target l hl).1

end

theorem start (h : Stands (l :: pending) targets d) (hend : d.terminated = true) :
    Stands pending targets (d.start l) := by
  refine ⟨h.orderly.start hend, fun l' hl' => ⟨?_, (h.target l' hl').2⟩⟩
  simpa [labels_start] using (h.target l' hl').1

theorem label (h : Stands pending targets d) (hnew : ¬l.Below d.nextLabel) (hl : l.Below (d.nextLabel + 1))
    (hjoin : l.isJoin = false) : Stands (l :: pending) (l :: targets) { d with nextLabel := d.nextLabel + 1 } := by
  refine ⟨h.orderly.label hnew hl, fun l' hl' => ?_⟩
  rcases mem_cons.1 hl' with rfl | hmem
  · exact ⟨by simp, hjoin⟩
  · exact ⟨perm_middle.mem_iff.2 (mem_cons_of_mem _ (h.target l' hmem).1), (h.target l' hmem).2⟩

end Stands

structure Ended (pending targets : List Label) (d : Draft) : Prop extends Stands pending targets d where
  terminated : d.terminated = true

namespace Gen

variable {α β : Type} {returns : Bool} {pending other targets : List Label}

/-- From drafts with `pre` a computation goes on to drafts with `post`, in a function that returns something or not. -/
def Leads (returns : Bool) (pre : Draft → Prop) (x : Gen α) (post : α → Draft → Prop) : Prop :=
  ∀ scope d d' a, pre d → x scope d = .ok (a, d') → d.GoesOn returns d' ∧ post a d'

/-! ## Rules -/

namespace Leads

variable {x : Gen α} {f : α → Gen β} {pre pre' : Draft → Prop} {post post' : α → Draft → Prop}
  {last : β → Draft → Prop}

theorem pure {a : α} (h : ∀ d, pre d → post a d) : Leads returns pre (Pure.pure a) post := by
  intro scope d d' b hd hrun
  obtain ⟨rfl, rfl⟩ := pure_ok.1 hrun
  exact ⟨.of_eq rfl, h d hd⟩

theorem bind (hx : Leads returns pre x post) (hf : ∀ a, Leads returns (post a) (f a) last) :
    Leads returns pre (x >>= f) last := by
  intro scope d d' b hd hrun
  obtain ⟨a, e, ha, hb⟩ := bind_ok.1 hrun
  obtain ⟨hfirst, he⟩ := hx scope d e a hd ha
  exact (hf a scope e d' b he hb).imp_left hfirst.trans

theorem mono (hx : Leads returns pre x post) (hpre : ∀ d, pre' d → pre d) (hpost : ∀ a d, post a d → post' a d) :
    Leads returns pre' x post' :=
  fun scope d d' a hd hrun => (hx scope d d' a (hpre d hd) hrun).imp_right (hpost a d')

theorem perm (hperm : pending.Perm other) (hx : Leads returns (Stands other targets) x post) :
    Leads returns (Stands pending targets) x post :=
  hx.mono (fun _ h => h.perm hperm) fun _ _ => id

theorem forget {u : Gen Unit} (more : List Label) (hsubset : targets ⊆ more)
    (hu : Leads returns pre u fun _ => Stands pending more) : Leads returns pre u fun _ => Stands pending targets :=
  hu.mono (fun _ => id) fun _ _ h => h.subset hsubset

end Leads

variable {node : Node} {reason : String} {post : α → Nat → Prop} {f : Unit → Gen Unit} {inside : NodeId} {style : Style}

theorem leads_unsupported {pre : Draft → Prop} {post : α → Draft → Prop} :
    Leads returns pre (unsupported node reason) post :=
  fun _ _ _ _ _ hrun => absurd hrun throw_ok

theorem Computes.leads {x : Gen α} (hx : Computes 0 x post) :
    Leads returns (Stands pending targets) x fun a d => Stands pending targets d ∧ post a d.nextValue := by
  intro scope d d' a h hrun
  obtain ⟨hext, hpost⟩ := hx pending scope d d' a h.orderly (Nat.zero_le _) hrun
  exact ⟨hext.goesOn _, h.extend hext, hpost⟩

theorem leads_label {construct : Construct} {part : Part} (hjoin : ∀ k, (Label.part construct part k).isJoin = false) :
    Leads returns (Stands pending targets) (label construct part) fun l => Stands (l :: pending) (l :: targets) := by
  intro scope d d' l h hrun
  obtain ⟨rfl, rfl⟩ := label_ok.1 hrun
  exact ⟨.of_eq rfl, h.label (Nat.lt_irrefl _) (Nat.lt_succ_self _) (hjoin _)⟩

theorem leads_startBlock :
    Leads returns (Ended (l :: pending) targets) (startBlock l) fun _ => Stands pending targets := by
  intro scope d d' u h hrun
  obtain rfl := startBlock_ok.1 hrun
  exact ⟨.push (.label l) trivial rfl, h.toStands.start h.terminated⟩

theorem leads_jump (hl : l ∈ targets) :
    Leads returns (Stands pending targets) (jump l) fun _ => Ended pending targets := by
  intro scope d d' u h hrun
  obtain rfl := terminator_ok.1 hrun
  exact ⟨.terminate trivial, h.terminate (by simp [Terminator.operands]) (by simp [Terminator.targets, hl]),
    terminated_terminate⟩

/-- A computation that makes and starts labels of its own and otherwise jumps only to `targets`. -/
def Keeping (returns : Bool) (targets : List Label) (x : Gen Unit) : Prop :=
  ∀ pending more, targets ⊆ more → Leads returns (Stands pending more) x fun _ => Stands pending more

namespace Keeping

theorem pure {u : Unit} : Keeping returns targets (Pure.pure u) := fun _ _ _ => .pure fun _ => id

variable {x : Gen Unit}

theorem bind (hx : Keeping returns targets x) (hf : ∀ u, Keeping returns targets (f u)) :
    Keeping returns targets (x >>= f) :=
  fun pending more hmore => (hx pending more hmore).bind fun u => hf u pending more hmore

theorem guard {c : Prop} [Decidable c] (hx : Keeping returns targets x) (hf : ∀ u, Keeping returns targets (f u)) :
    Keeping returns targets (if c then x >>= f else f ()) := by
  split
  · exact hx.bind hf
  · exact hf ()

theorem of_computes (hx : Computes 0 x fun _ _ => True) : Keeping returns targets x :=
  fun _ _ _ => hx.leads.mono (fun _ => id) fun _ _ h => h.1

theorem unsupported : Keeping returns targets (Gen.unsupported node reason) :=
  fun _ _ _ => leads_unsupported

variable {f : α → Gen Unit}

theorem lookUp {x : Gen α} (hx : Computes 0 x post) (hf : ∀ a, Keeping returns targets (f a)) :
    Keeping returns targets (x >>= f) :=
  fun pending more hmore => hx.leads.bind fun a => (hf a pending more hmore).mono (fun _ h => h.1) fun _ _ => id

theorem forM {ids : List α} (hf : ∀ id, Keeping returns targets (f id)) : Keeping returns targets (ids.forM f) := by
  induction ids with
  | nil => exact pure
  | cons id ids ih =>
    exact (hf id).bind fun _ => ih

theorem option_forM {id? : Option α} (hf : ∀ id, Keeping returns targets (f id)) :
    Keeping returns targets (id?.forM f) := by
  cases id? with
  | none => exact pure
  | some id => exact hf id

end Keeping

/-! ## Statements -/

variable {r : Generators}

structure Sound (returns : Bool) (r : Generators) : Prop where
  expr : Evaluates r.expr
  stmt : ∀ loop id, Keeping returns (Loop.targets loop) (r.stmt loop id)

variable (hr : Sound returns r)
include hr

variable {loop : Option Loop} {id : NodeId}

theorem body_keeping : Keeping returns (Loop.targets loop) (body r loop id) :=
  .lookUp .read fun _ => .lookUp .lift fun _ => .forM (hr.stmt loop)

theorem effect_keeping : Keeping returns targets (effect r id) :=
  .of_computes ((hr.expr id 0).bind fun _ _ _ _ => .pure fun _ _ => trivial)

theorem declarator_keeping : Keeping returns targets (declarator r id) := by
  refine .of_computes (computes_node.bind fun node m _ _ => ?_)
  have hstore (value : Operand) (m : Nat) (hvalue : value.Below m) : Computes m
      (variableAddress node (some node.id) >>= fun place => instruction (.store value place)) fun _ _ => True :=
    computes_variableAddress.bind fun place m₁ hm _ =>
      .store (hvalue.mono hm)
  split
  case h_1 init _ =>
    cases init with
    | some init => exact (hr.expr init m).bind fun value m₁ _ => hstore value m₁
    | none => exact .pure_bind (hstore nan m below_nan)
  case h_2 => exact computes_unsupported

variable {test : NodeId}

theorem leads_branchOn {taken alternate : Label} (htaken : taken ∈ targets) (halternate : alternate ∈ targets) :
    Leads returns (Stands pending targets) (branchOn r test taken alternate) fun _ => Ended pending targets := by
  refine (computes_condition hr.expr).leads.bind fun flag => ?_
  intro scope d d' u h hrun
  obtain rfl := terminator_ok.1 hrun
  have hflag : ∀ o ∈ (Terminator.branch flag taken alternate).operands, o.Below d.nextValue := by
    simpa [Terminator.operands] using h.2
  exact ⟨.terminate trivial, h.1.terminate hflag (by simp [Terminator.targets, htaken, halternate]),
    terminated_terminate⟩

theorem ifStatement_keeping {consequent : NodeId} {alternate : Option NodeId} :
    Keeping returns (Loop.targets loop) (ifStatement r loop test consequent alternate) := by
  intro pending more hmore
  refine (leads_label fun _ => rfl).bind fun taken => (leads_label fun _ => rfl).bind fun done => ?_
  cases alternate with
  | some alternate =>
    refine (leads_label fun _ => rfl).bind fun other => ?_
    have hall : Loop.targets loop ⊆ other :: done :: taken :: more := fun l hl => by simp [hmore hl]
    refine .perm perm_rotate ?_
    refine .forget (other :: done :: taken :: more) (fun l hl => by simp [hl]) ?_
    refine (leads_branchOn hr (by simp) (by simp)).bind fun _ => leads_startBlock.bind fun _ => ?_
    refine (body_keeping hr _ _ hall).bind fun _ => (leads_jump (by simp)).bind fun _ => ?_
    refine leads_startBlock.bind fun _ => (body_keeping hr _ _ hall).bind fun _ => ?_
    exact (leads_jump (by simp)).bind fun _ => leads_startBlock
  | none =>
    have hall : Loop.targets loop ⊆ done :: taken :: more := fun l hl => by simp [hmore hl]
    refine .perm (.swap ..) (.forget (done :: taken :: more) (fun l hl => by simp [hl]) ?_)
    refine (leads_branchOn hr (by simp) (by simp)).bind fun _ => leads_startBlock.bind fun _ => ?_
    exact (body_keeping hr _ _ hall).bind fun _ => (leads_jump (by simp)).bind fun _ => leads_startBlock

attribute [local simp] Loop.targets

theorem whileStatement_keeping : Keeping returns targets (whileStatement r test inside) := by
  intro pending more _
  refine (leads_label fun _ => rfl).bind fun test => (leads_label fun _ => rfl).bind fun inside => ?_
  refine (leads_label fun _ => rfl).bind fun done => ?_
  refine .perm ((reverse_perm [test, inside, done]).append_right pending) ?_
  refine .forget (done :: inside :: test :: more) (fun l hl => by simp [hl]) ?_
  refine (leads_jump (by simp)).bind fun _ => leads_startBlock.bind fun _ => ?_
  refine (leads_branchOn hr (by simp) (by simp)).bind fun _ => leads_startBlock.bind fun _ => ?_
  refine (body_keeping hr _ _ (by simp)).bind fun _ => ?_
  exact (leads_jump (by simp)).bind fun _ => leads_startBlock

theorem doWhileStatement_keeping : Keeping returns targets (doWhileStatement r inside test) := by
  intro pending more _
  refine (leads_label fun _ => rfl).bind fun inside => (leads_label fun _ => rfl).bind fun test => ?_
  refine (leads_label fun _ => rfl).bind fun done => ?_
  refine .perm ((reverse_perm [inside, test, done]).append_right pending) ?_
  refine .forget (done :: test :: inside :: more) (fun l hl => by simp [hl]) ?_
  refine (leads_jump (by simp)).bind fun _ => leads_startBlock.bind fun _ => ?_
  refine (body_keeping hr _ _ (by simp)).bind fun _ => ?_
  refine (leads_jump (by simp)).bind fun _ => leads_startBlock.bind fun _ => ?_
  exact (leads_branchOn hr (by simp) (by simp)).bind fun _ => leads_startBlock

theorem forInit_keeping : Keeping returns (Loop.targets loop) (forInit r loop id) := by
  refine .lookUp computes_node fun node => ?_
  split
  · exact hr.stmt loop id
  · exact effect_keeping hr

theorem forStatement_keeping {init test update : Option NodeId} :
    Keeping returns (Loop.targets loop) (forStatement r loop init test update inside) := by
  refine Keeping.bind (.option_forM fun id => forInit_keeping hr) fun _ => ?_
  intro pending more _
  refine (leads_label fun _ => rfl).bind fun start => (leads_label fun _ => rfl).bind fun taken => ?_
  refine (leads_label fun _ => rfl).bind fun next => (leads_label fun _ => rfl).bind fun done => ?_
  refine .perm ((reverse_perm [start, taken, next, done]).append_right pending) ?_
  refine .forget (done :: next :: taken :: start :: more) (fun l hl => by simp [hl]) ?_
  refine (leads_jump (by simp)).bind fun _ => leads_startBlock.bind fun _ => ?_
  have hupdate : Keeping returns [] (update.forM (effect r)) := .option_forM fun id => effect_keeping hr
  have hrest : Leads returns (Ended (taken :: next :: done :: pending) (done :: next :: taken :: start :: more))
      (do startBlock taken; body r (some ⟨next, done⟩) inside; jump next; startBlock next
          update.forM (effect r); jump start; startBlock done)
      fun _ => Stands pending (done :: next :: taken :: start :: more) := by
    refine leads_startBlock.bind fun _ => (body_keeping hr _ _ (by simp)).bind fun _ => ?_
    refine (leads_jump (by simp)).bind fun _ => leads_startBlock.bind fun _ => ?_
    refine (hupdate _ _ (by simp)).bind fun _ => ?_
    exact (leads_jump (by simp)).bind fun _ => leads_startBlock
  cases test with
  | some test => exact (leads_branchOn hr (by simp) (by simp)).bind fun _ => hrest
  | none => exact (leads_jump (by simp)).bind fun _ => hrest

omit hr in
theorem leave_keeping {target : Option Label} (htarget : ∀ l ∈ target, l ∈ targets) :
    Keeping returns targets (leave node target reason) := by
  intro pending more hmore
  cases target with
  | some l => exact (leads_jump (hmore (htarget l rfl))).mono (fun _ => id) fun _ _ h => h.toStands
  | none => exact leads_unsupported

omit hr in
theorem ret_keeping {x : Gen Operand} (hreturns : returns = true) (hx : Computes 0 x fun o m => o.Below m) :
    Keeping returns targets (x >>= fun value => terminator (.ret value)) := by
  intro pending more _
  refine hx.leads.bind fun value => ?_
  intro scope d d' u h hrun
  obtain rfl := terminator_ok.1 hrun
  exact ⟨.terminate hreturns, h.1.terminate (by simpa [Terminator.operands] using h.2) (by simp [Terminator.targets])⟩

omit hr in
theorem comment_keeping {line : Nat} : Keeping returns targets (modify (·.push (.comment line))) := by
  intro pending more _ scope d d' u h hrun
  obtain rfl := modify_ok.1 hrun
  have hlabels : (d.push (.comment line)).labels = d.labels := congrArg labelsOf code_push_comment
  exact ⟨.push (.comment line) trivial rfl, h.orderly.comment, fun l hl => hlabels ▸ h.target l hl⟩

omit hr in
theorem stmtStep_keeping (hr : Sound style.returns r) :
    Keeping style.returns (Loop.targets loop) (stmtStep style r loop id) := by
  refine .lookUp computes_node fun node => ?_
  refine .guard (.option_forM fun _ => comment_keeping) fun _ => ?_
  split
  case h_1 => exact effect_keeping hr
  case h_2 => exact .forM fun _ => declarator_keeping hr
  case h_3 => exact .forM (hr.stmt loop)
  case h_4 => exact .pure
  case h_5 => exact ifStatement_keeping hr
  case h_6 => exact whileStatement_keeping hr
  case h_7 => exact doWhileStatement_keeping hr
  case h_8 => exact forStatement_keeping hr
  case h_9 => exact leave_keeping (by cases loop <;> simp)
  case h_10 => exact leave_keeping (by cases loop <;> simp)
  case h_11 argument _ =>
    dsimp only
    split
    case isTrue => exact .of_computes .throw_bind
    case isFalse hreturns =>
      have hreturns : style.returns = true := by simpa using hreturns
      cases argument with
      | some argument => exact ret_keeping hreturns (hr.expr argument 0)
      | none => exact ret_keeping hreturns (.pure fun _ _ => below_nan)
  case h_12 => exact .unsupported
  case h_13 => exact .unsupported

omit hr in
theorem stmt_keeping {expr : NodeId → Gen Operand} (hexpr : Evaluates expr) (depth : Nat) (loop : Option Loop)
    (id : NodeId) : Keeping style.returns (Loop.targets loop) (stmt style expr depth loop id) := by
  induction depth generalizing loop id with
  | zero => exact fun _ _ _ _ _ _ _ _ hrun => absurd hrun throw_ok
  | succ depth ih => exact stmtStep_keeping ⟨hexpr, ih⟩

end Gen

end Retarget.Llvm
