import Retarget.Llvm.Block
import Retarget.Proofs.Llvm.Outline

/-!
# Drafts that can become blocks

While a function is written, its lines are blocks, of which the last can be open, and some labels are *pending*:
they have been made and can be jumped to, but their blocks have not been started. `Draft.Orderly pending d` says
so, and it is kept by every way to write a line.

A choice by origin stands in a block with a label of its own kind (`Label.isJoin`). Such a block is led to only
while its label is pending, so its origins cannot change any more once it has been started.

* `Draft.Orderly.write`: what a line must be like to be written.
* `Draft.Extends pending d d'`: what the evaluation of an expression does to a draft.
-/

namespace Retarget.Llvm

open List Option Line

def Label.isJoin : Label → Bool
  | part .conjunction .done _ | part .disjunction .done _ | part .choice .done _ => true
  | _ => false

def Label.Below (bound : Nat) : Label → Prop
  | entry => True
  | dead number => number < bound
  | part _ _ number => number < bound

def Operand.Below (bound : Nat) (o : Operand) : Prop := ∀ n, o.number? = some n → n < bound

/-- A line below the places of the variables. What is returned depends on whether the function has a result. -/
def Line.Inner (returns : Bool) : Line → Prop
  | instr (.allocate _) => False
  | terminator (.ret _) => returns = true
  | terminator .retVoid => returns = false
  | _ => True

variable {n m : Nat}

theorem Label.Below.mono {l : Label} (h : l.Below n) (hle : n ≤ m) : l.Below m := by
  cases l with
  | entry => trivial
  | dead k => exact Nat.lt_of_lt_of_le h hle
  | part c p k => exact Nat.lt_of_lt_of_le h hle

theorem Operand.Below.mono {o : Operand} (h : o.Below n) (hle : n ≤ m) : o.Below m :=
  fun k hk => Nat.lt_of_lt_of_le (h k hk) hle

namespace Draft

variable {d d' d'' : Draft} {pending : List Label} {l : Label} {line : Line}

def code (d : Draft) : List Line := d.lines.toList.filter isCode

def labels (d : Draft) : List Label := labelsOf d.code

def sources (d : Draft) (target : Label) : List Label := sourcesOf d.code target

theorem code_push (h : line.isCode = true) : (d.push line).code = d.code ++ [line] := by
  simp [code, push, filter_append, h]

theorem labels_start : (d.start l).labels = d.labels ++ [l] := by
  have hcode : (d.start l).code = d.code ++ [.label l] := code_push rfl
  rw [labels, hcode, labelsOf_concat]
  rfl

theorem code_push_comment : (d.push (.comment n)).code = d.code := by
  simp [code, push, filter_append, isCode]

theorem sources_of_notMem (hcode : d'.code = d.code ++ [line]) (hl : l ∉ line.targets) :
    d'.sources l = d.sources l := by
  have hnone : line.targets.filter (· = l) = [] := by
    rw [filter_eq_nil_iff]
    intro target htarget heq
    exact hl (of_decide_eq_true heq ▸ htarget)
  rw [sources, sources, hcode, sourcesOf_concat, hnone, map_nil, append_nil]

attribute [local simp] targets

theorem sources_start {target : Label} : (d.start l).sources target = d.sources target :=
  sources_of_notMem (code_push rfl) (by simp)

variable {t : Terminator} {i : Instr} {count : Nat}

theorem labels_terminate : (d.terminate t).labels = d.labels := by
  rw [terminate]
  split
  case isTrue => rfl
  case isFalse =>
    have hcode : (d.push (.terminator t)).code = d.code ++ [.terminator t] := code_push rfl
    exact (congrArg labelsOf hcode).trans (by simp [labelsOf_concat, label?, labels])

theorem nextValue_terminate : (d.terminate t).nextValue = d.nextValue := by
  rw [terminate]
  split <;> rfl

theorem perm_rotate {a b c : Label} : (a :: b :: c :: pending).Perm (c :: a :: b :: pending) :=
  (perm_append_comm : ([a, b] ++ [c]).Perm ([c] ++ [a, b])).append_right pending

/-- A draft is made of blocks, apart from the last one if it is open, and names are used as they must be. -/
structure Orderly (pending : List Label) (d : Draft) : Prop where
  shape : ∃ (blocks : List BasicBlock) (instrs : List Instr), d.code = blocks.flatMap BasicBlock.lines ++
    if d.terminated then [] else .label d.block :: instrs.map .instr
  head? : d.labels.head? = some .entry
  getLast? : d.labels.getLast? = some d.block
  labels_nodup : (d.labels ++ pending).Nodup
  below : ∀ l ∈ d.labels ++ pending, l.Below d.nextLabel
  target_mem : ∀ e ∈ edgesOf d.code, e.2 ∈ d.labels ++ pending
  origins : ∀ p ∈ phisOf d.code,
    p.1 ∈ d.labels ∧ p.1.isJoin = true ∧ p.2.1 ≠ p.2.2 ∧ d.sources p.1 = [p.2.1, p.2.2]
  numbers : numbersOf d.code = List.range d.nextValue
  uses : DefinedBeforeUse d.code

namespace Orderly

section

variable (h : d.Orderly pending)
include h

theorem lastBlock_eq : lastBlock .entry d.code = d.block := by
  rw [lastBlock, ← labels, h.getLast?, getD_some]

theorem block_mem : d.block ∈ d.labels := mem_of_getLast? h.getLast?

theorem perm {other : List Label} (hperm : pending.Perm other) : d.Orderly other where
  shape := h.shape
  head? := h.head?
  getLast? := h.getLast?
  labels_nodup := (hperm.append_left _).nodup h.labels_nodup
  below := fun l hl => h.below l ((hperm.append_left _).mem_iff.2 hl)
  target_mem := fun e he => (hperm.append_left _).mem_iff.1 (h.target_mem e he)
  origins := h.origins
  numbers := h.numbers
  uses := h.uses

theorem mem_numbers {operands : List Operand} (hoperands : ∀ o ∈ operands, o.Below d.nextValue) :
    ∀ n ∈ operands.filterMap Operand.number?, n ∈ numbersOf d.code := by
  intro n hn
  obtain ⟨o, ho, hnumber⟩ := mem_filterMap.1 hn
  rw [h.numbers, mem_range]
  exact hoperands o ho n hnumber

theorem label (hnew : ¬l.Below d.nextLabel) (hl : l.Below (d.nextLabel + 1)) :
    Orderly (l :: pending) { d with nextLabel := d.nextLabel + 1 } where
  shape := h.shape
  head? := h.head?
  getLast? := h.getLast?
  labels_nodup := by
    have hnotMem : l ∉ d.labels ++ pending := fun hmem => hnew (h.below l hmem)
    exact (perm_middle.nodup_iff).2 (nodup_cons.2 ⟨hnotMem, h.labels_nodup⟩)
  below := by
    intro l' hl'
    rcases mem_cons.1 (perm_middle.mem_iff.1 hl') with rfl | hmem
    · exact hl
    · exact (h.below l' hmem).mono (Nat.le_succ _)
  target_mem := fun e he => perm_middle.mem_iff.2 (mem_cons_of_mem _ (h.target_mem e he))
  origins := h.origins
  numbers := h.numbers
  uses := h.uses

end

/-- A line is written. The label that it defines, if it defines one, is no longer pending; what it uses has been
defined; its targets are pending or have been started and are no joins; and if it is a choice, then by the
blocks that lead to this one. -/
theorem write (line : Line) (h : d.Orderly (line.label?.toList ++ pending)) (hcode : d'.code = d.code ++ [line])
    (hshape : ∃ (blocks : List BasicBlock) (instrs : List Instr), d'.code = blocks.flatMap BasicBlock.lines ++
      if d'.terminated then [] else .label d'.block :: instrs.map .instr)
    (hblock : d'.block = line.label?.getD d.block) (hlabel : d'.nextLabel = d.nextLabel)
    (hvalue : List.range d'.nextValue = List.range d.nextValue ++ line.number?.toList)
    (huses : ∀ n ∈ line.uses, n ∈ numbersOf d.code)
    (htargets : ∀ l ∈ line.targets, l ∈ d.labels ++ pending ∧ (l ∈ d.labels → l.isJoin = false))
    (horigins : ∀ p, line.origins? = some p →
      d.block.isJoin = true ∧ p.1 ≠ p.2 ∧ d.sources d.block = [p.1, p.2]) : d'.Orderly pending := by
  have hlabels : d'.labels = d.labels ++ line.label?.toList := by rw [labels, hcode, labelsOf_concat]; rfl
  have hall : d'.labels ++ pending = d.labels ++ (line.label?.toList ++ pending) := by simp [hlabels]
  -- Nothing leads to the joins that have been started.
  have hsources (l : Label) (hl : l ∈ d.labels) (hjoin : l.isJoin = true) : d'.sources l = d.sources l := by
    refine sources_of_notMem hcode fun htarget => ?_
    rw [(htargets l htarget).2 hl] at hjoin
    cases hjoin
  constructor
  case shape => exact hshape
  case head? => simp [hlabels, h.head?]
  case getLast? =>
    rw [hlabels, hblock]
    cases hl : line.label? with
    | none => simp [h.getLast?]
    | some l => simp
  case labels_nodup => exact hall ▸ h.labels_nodup
  case below => exact hall ▸ hlabel ▸ h.below
  case target_mem =>
    rw [hcode, edgesOf_concat, hall]
    intro e he
    rcases mem_append.1 he with he | he
    · exact h.target_mem e he
    · obtain ⟨l, hl, rfl⟩ := mem_map.1 he
      rcases mem_append.1 (htargets l hl).1 with hmem | hmem
      · exact mem_append_left _ hmem
      · exact mem_append_right _ (mem_append_right _ hmem)
  case origins =>
    rw [hcode, phisOf_concat, h.lastBlock_eq]
    intro p hp
    rcases mem_append.1 hp with hp | hp
    · obtain ⟨hmem, hjoin, hne, heq⟩ := h.origins p hp
      exact ⟨hlabels ▸ mem_append_left _ hmem, hjoin, hne, (hsources _ hmem hjoin).trans heq⟩
    · rw [mem_toList, map_eq_some_iff] at hp
      obtain ⟨origins, hsome, rfl⟩ := hp
      obtain ⟨hjoin, hne, heq⟩ := horigins origins hsome
      exact ⟨hlabels ▸ mem_append_left _ h.block_mem, hjoin, hne,
        (hsources _ h.block_mem hjoin).trans heq⟩
  case numbers => rw [hcode, numbersOf_concat, h.numbers, hvalue]
  case uses => exact hcode ▸ h.uses.concat huses

theorem start (h : d.Orderly (l :: pending)) (hend : d.terminated = true) : (d.start l).Orderly pending := by
  obtain ⟨blocks, instrs, hshape⟩ := h.shape
  have hcode : (d.start l).code = d.code ++ [.label l] := code_push rfl
  refine h.write (.label l) hcode ⟨blocks, [], ?_⟩ rfl rfl (append_nil _).symm ?_ ?_ ?_
  · rw [hcode, hshape, hend, if_pos rfl, append_nil]
    rfl
  · simp [Line.uses]
  · simp
  · simp [origins?]

theorem instr (i : Instr) (count : Nat) (h : d.Orderly pending) (hopen : d.terminated = false)
    (hoperands : ∀ o ∈ i.operands, o.Below d.nextValue)
    (hcount : List.range count = List.range d.nextValue ++ i.number?.toList)
    (horigins : ∀ p, i.origins? = some p →
      d.block.isJoin = true ∧ p.1 ≠ p.2 ∧ d.sources d.block = [p.1, p.2]) :
    Orderly pending { d.push (.instr i) with nextValue := count } := by
  obtain ⟨blocks, instrs, hshape⟩ := h.shape
  have hcode : (d.push (.instr i)).code = d.code ++ [.instr i] := code_push rfl
  refine h.write (.instr i) hcode ⟨blocks, instrs ++ [i], ?_⟩ rfl rfl hcount (h.mem_numbers hoperands) ?_ horigins
  · exact hcode.trans (by simp [hshape, push, hopen])
  · simp

theorem terminator (h : d.Orderly pending) (hopen : d.terminated = false)
    (hoperands : ∀ o ∈ t.operands, o.Below d.nextValue)
    (htargets : ∀ l ∈ t.targets, l ∈ d.labels ++ pending ∧ (l ∈ d.labels → l.isJoin = false)) :
    Orderly pending { d.push (.terminator t) with terminated := true } := by
  obtain ⟨blocks, instrs, hshape⟩ := h.shape
  have hcode : (d.push (.terminator t)).code = d.code ++ [.terminator t] := code_push rfl
  refine h.write (.terminator t) hcode ⟨blocks ++ [⟨d.block, instrs, t⟩], [], ?_⟩ rfl rfl (append_nil _).symm
    (h.mem_numbers hoperands) htargets ?_
  · simp only [hopen, Bool.false_eq_true, if_false] at hshape
    exact hcode.trans (by simp [hshape, BasicBlock.lines])
  · simp [origins?]

theorem comment (h : d.Orderly pending) : (d.push (.comment n)).Orderly pending := by
  have hcode : (d.push (.comment n)).code = d.code := code_push_comment
  have hlabels : (d.push (.comment n)).labels = d.labels := congrArg labelsOf hcode
  have hsources : (d.push (.comment n)).sources = d.sources := congrArg sourcesOf hcode
  constructor
  case shape => exact hcode ▸ h.shape
  case head? => exact hlabels ▸ h.head?
  case getLast? => exact hlabels ▸ h.getLast?
  case labels_nodup => exact hlabels ▸ h.labels_nodup
  case below => exact hlabels ▸ h.below
  case target_mem => exact hcode ▸ hlabels ▸ h.target_mem
  case origins => exact hcode ▸ hlabels ▸ hsources ▸ h.origins
  case numbers => exact hcode ▸ h.numbers
  case uses => exact hcode ▸ h.uses

theorem terminate (h : d.Orderly pending) (hoperands : ∀ o ∈ t.operands, o.Below d.nextValue)
    (htargets : ∀ l ∈ t.targets, l ∈ d.labels ++ pending ∧ (l ∈ d.labels → l.isJoin = false)) :
    (d.terminate t).Orderly pending := by
  rw [Draft.terminate]
  split
  case isTrue => exact h
  case isFalse hopen => exact h.terminator (Bool.eq_false_iff.2 hopen) hoperands htargets

end Orderly

@[simp]
theorem terminated_terminate : (d.terminate t).terminated = true := by
  rw [terminate]
  split
  case isTrue hend => exact hend
  case isFalse => rfl

/-! ## What later lines keep -/

/-- The draft goes on with such lines. -/
def GoesOn (returns : Bool) (d d' : Draft) : Prop :=
  ∃ more, d'.lines.toList = d.lines.toList ++ more ∧ ∀ line ∈ more, line.Inner returns

namespace GoesOn

variable {returns : Bool}

theorem of_eq (h : d'.lines = d.lines) : GoesOn returns d d' := ⟨[], by simp [h], by simp⟩

theorem trans (h : GoesOn returns d d') (h' : GoesOn returns d' d'') : GoesOn returns d d'' := by
  obtain ⟨first, hfirst, hok⟩ := h
  obtain ⟨rest, hrest, hok'⟩ := h'
  refine ⟨first ++ rest, by rw [hrest, hfirst, append_assoc], fun line hline => ?_⟩
  exact (mem_append.1 hline).elim (hok line) (hok' line)

theorem push (line : Line) (h : line.Inner returns) (hlines : d'.lines = d.lines.push line) : GoesOn returns d d' :=
  ⟨[line], by simp [hlines], by simpa using h⟩

theorem terminate (h : (Line.terminator t).Inner returns) : GoesOn returns d (d.terminate t) := by
  rw [Draft.terminate]
  split
  · exact of_eq rfl
  · exact push _ h rfl

end GoesOn

/-- A draft goes on: what it has stays, and nothing more leads to the labels that are kept. -/
structure Keeps (kept : Label → Prop) (d d' : Draft) : Prop where
  labels_subset : d.labels ⊆ d'.labels
  value_le : d.nextValue ≤ d'.nextValue
  label_le : d.nextLabel ≤ d'.nextLabel
  sources_eq : ∀ l, kept l → d'.sources l = d.sources l
  goesOn : ∀ returns, GoesOn returns d d'

namespace Keeps

variable {kept kept' : Label → Prop}

theorem refl : Keeps kept d d where
  labels_subset := List.Subset.refl _
  value_le := Nat.le_refl _
  label_le := Nat.le_refl _
  sources_eq := fun _ _ => rfl
  goesOn := fun _ => .of_eq rfl

theorem trans (h : Keeps kept d d') (h' : Keeps kept d' d'') : Keeps kept d d'' where
  labels_subset := List.Subset.trans h.labels_subset h'.labels_subset
  value_le := Nat.le_trans h.value_le h'.value_le
  label_le := Nat.le_trans h.label_le h'.label_le
  sources_eq := fun l hl => (h'.sources_eq l hl).trans (h.sources_eq l hl)
  goesOn := fun returns => (h.goesOn returns).trans (h'.goesOn returns)

theorem mono (h : Keeps kept' d d') (hkept : ∀ l, kept l → kept' l) : Keeps kept d d' :=
  { h with sources_eq := fun l hl => h.sources_eq l (hkept l hl) }

theorem write (line : Line) (hinner : ∀ returns, line.Inner returns) (hcode : line.isCode = true)
    (hlines : d'.lines = d.lines.push line) (hvalue : d.nextValue ≤ d'.nextValue) (hlabel : d.nextLabel ≤ d'.nextLabel)
    (htargets : ∀ l ∈ line.targets, ¬kept l) : Keeps kept d d' := by
  have hcode : d'.code = d.code ++ [line] := (congrArg (·.toList.filter isCode) hlines).trans (code_push hcode)
  constructor
  case labels_subset =>
    rw [labels, labels, hcode, labelsOf_concat]
    exact subset_append_left _ _
  case value_le => exact hvalue
  case label_le => exact hlabel
  case sources_eq => exact fun l hl => sources_of_notMem hcode fun hmem => htargets l hmem hl
  case goesOn => exact fun returns => .push line (hinner returns) hlines

theorem start : Keeps kept d (d.start l) :=
  write (.label l) (fun _ => trivial) rfl rfl (Nat.le_refl _) (Nat.le_refl _) (by simp)

theorem instr (hinner : ∀ returns, (Line.instr i).Inner returns) (hcount : d.nextValue ≤ count) :
    Keeps kept d { d.push (.instr i) with nextValue := count } :=
  write (.instr i) hinner rfl rfl hcount (Nat.le_refl _) (by simp)

theorem terminate (hinner : ∀ returns, (Line.terminator t).Inner returns) (htargets : ∀ l ∈ t.targets, ¬kept l) :
    Keeps kept d (d.terminate t) := by
  rw [Draft.terminate]
  split
  case isTrue => exact refl
  case isFalse => exact write (.terminator t) hinner rfl rfl (Nat.le_refl _) (Nat.le_refl _) htargets

end Keeps

/-- What the evaluation of an expression does to a draft: it jumps only to labels of its own, it ends in an open
block if it starts in one, and the block that it ends in is new if it is another one. -/
structure Extends (pending : List Label) (d d' : Draft) : Prop extends Keeps (·.Below d.nextLabel) d d' where
  orderly : d'.Orderly pending
  open_of_open : d.terminated = false → d'.terminated = false
  block_new : d'.block = d.block ∨ d'.block ∉ d.labels

namespace Extends

theorem refl (h : d.Orderly pending) : Extends pending d d :=
  { Keeps.refl with
    orderly := h
    open_of_open := id
    block_new := .inl rfl }

theorem trans (h : Extends pending d d') (h' : Extends pending d' d'') : Extends pending d d'' where
  toKeeps := h.toKeeps.trans (h'.toKeeps.mono fun _ hl => hl.mono h.label_le)
  orderly := h'.orderly
  open_of_open := fun hopen => h'.open_of_open (h.open_of_open hopen)
  block_new := by
    rcases h'.block_new with heq | hnew
    · exact heq ▸ h.block_new
    · exact .inr fun hmem => hnew (h.labels_subset hmem)

end Extends

namespace Orderly

section

variable (h : d.Orderly pending)
include h

theorem sources_eq_nil (hl : ¬l.Below d.nextLabel) : d.sources l = [] := by
  rw [sources, sourcesOf, map_eq_nil_iff, filter_eq_nil_iff]
  intro e he htarget
  exact hl (of_decide_eq_true htarget ▸ h.below e.2 (h.target_mem e he))

theorem notMem_labels (hl : ¬l.Below d.nextLabel) : l ∉ d.labels :=
  fun hmem => hl (h.below l (mem_append_left _ hmem))

theorem notMem_of_pending (hl : l ∈ pending) : l ∉ d.labels :=
  fun hmem => (nodup_append.1 h.labels_nodup).2.2 l hmem l hl rfl

theorem target_of_pending (hl : l ∈ pending) : l ∈ d.labels ++ pending ∧ (l ∈ d.labels → l.isJoin = false) :=
  ⟨mem_append_right _ hl, fun hmem => absurd hmem (h.notMem_of_pending hl)⟩

theorem sources_jump (hopen : d.terminated = false) : (d.terminate (.jump l)).sources l = d.sources l ++ [d.block] := by
  have hcode : (d.terminate (.jump l)).code = d.code ++ [.terminator (.jump l)] := by
    rw [Draft.terminate, hopen]
    exact code_push rfl
  rw [sources, hcode, sourcesOf_concat, h.lastBlock_eq]
  simp [Terminator.targets, sources]

theorem opened : Extends pending d d.opened ∧ d.opened.terminated = false ∧ d.opened.nextValue = d.nextValue := by
  rw [Draft.opened]
  split
  case isTrue hend =>
    have hdead : ¬(Label.dead d.nextLabel).Below d.nextLabel := Nat.lt_irrefl _
    have hlabel : Keeps (·.Below d.nextLabel) d { d with nextLabel := d.nextLabel + 1 } :=
      { Keeps.refl with label_le := Nat.le_succ _, goesOn := fun _ => .of_eq rfl }
    refine ⟨?_, rfl, rfl⟩
    constructor
    case toKeeps => exact hlabel.trans .start
    case orderly => exact (h.label hdead (Nat.lt_succ_self _)).start hend
    case open_of_open => exact fun _ => rfl
    case block_new => exact .inr (h.notMem_labels hdead)
  case isFalse hopen => exact ⟨.refl h, Bool.eq_false_iff.2 hopen, rfl⟩

end

theorem extends_instr (hinner : ∀ returns, (Line.instr i).Inner returns) (hcount : d.nextValue ≤ count)
    (h : Orderly pending { d.push (.instr i) with nextValue := count }) :
    Extends pending d { d.push (.instr i) with nextValue := count } where
  toKeeps := .instr hinner hcount
  orderly := h
  open_of_open := id
  block_new := .inl rfl

theorem instruction (h : d.Orderly pending) (hoperands : ∀ o ∈ i.operands, o.Below d.nextValue)
    (hnumber : i.number? = none) (horigins : i.origins? = none) : (d.instruction i).Orderly pending := by
  obtain ⟨hext, hopen, hvalue⟩ := h.opened
  exact hext.orderly.instr i d.opened.nextValue hopen (hvalue ▸ hoperands) (by simp [hnumber]) (by simp [horigins])

theorem define {c : Computation} (h : d.Orderly pending) (hoperands : ∀ o ∈ c.operands, o.Below d.nextValue)
    (horigins : c.origins? = none) : Extends pending d (d.define c) ∧ (d.define c).nextValue = d.nextValue + 1 := by
  obtain ⟨hext, hopen, hvalue⟩ := h.opened
  have horderly := hext.orderly.instr (.define d.opened.nextValue c) (d.opened.nextValue + 1) hopen
    (hvalue ▸ hoperands) range_succ (by simp [Instr.origins?, horigins])
  exact ⟨hext.trans (extends_instr (fun _ => trivial) (Nat.le_succ _) horderly), congrArg (· + 1) hvalue⟩

theorem join {first second : Operand} {firstFrom secondFrom : Label} (h : d.Orderly (l :: pending))
    (hend : d.terminated = true) (hjoin : l.isJoin = true) (hne : firstFrom ≠ secondFrom)
    (hsources : d.sources l = [firstFrom, secondFrom]) (hfirst : first.Below d.nextValue)
    (hsecond : second.Below d.nextValue) :
    ((d.start l).define (.phi first firstFrom second secondFrom)).Orderly pending := by
  have hstart : (d.start l).sources l = [firstFrom, secondFrom] := by rw [sources_start, hsources]
  refine (h.start hend).instr (.define d.nextValue _) _ rfl ?_ range_succ ?_
  · change ∀ o ∈ [first, second], o.Below d.nextValue
    simp [hfirst, hsecond]
  · intro p hp
    obtain rfl : (firstFrom, secondFrom) = p := some.inj hp
    exact ⟨hjoin, hne, hstart⟩

end Orderly

end Draft

end Retarget.Llvm
