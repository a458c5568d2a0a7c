import Mathlib.Logic.Function.Basic
import Retarget.Llvm.Print
import Retarget.Proofs.Document.Field

/-!
# Functions as blocks

The lines of a function make a control flow graph if they can be cut into blocks. `Outline lines blocks` says
that they can, and that names are used as they must be: labels and numbered values are defined once, and
operands before they are used. The facts about single lines are kept in lists (`labelsOf`, `edgesOf`, `phisOf`
and `numbersOf`), about which there is one lemma each for a line that is added at the end.

* `Label.text_injective`: labels that differ are written differently.
-/

namespace Retarget.Llvm

open List Line

/-! ## Names in lines -/

def Operand.number? : Operand → Option Nat
  | value number => some number
  | _ => none

/-- All operands of a computation; results of comparisons are among them. -/
def Computation.operands : Computation → List Operand
  | load _ => []
  | negate value => [value]
  | arithmetic _ left right => [left, right]
  | compare _ left right => [left, right]
  | invert flag => [.value flag]
  | toFloat flag => [.value flag]
  | phi first _ second _ => [first, second]
  | call _ args => args
  | builtin _ args => args

def Instr.operands : Instr → List Operand
  | allocate _ => []
  | store value _ => [value]
  | define _ computation => computation.operands

def Terminator.operands : Terminator → List Operand
  | jump _ => []
  | branch flag _ _ => [.value flag]
  | ret value => [value]
  | retVoid => []

def Terminator.targets : Terminator → List Label
  | jump target => [target]
  | branch _ taken other => [taken, other]
  | ret _ => []
  | retVoid => []

def Instr.number? : Instr → Option Nat
  | define number _ => some number
  | _ => none

def Computation.origins? : Computation → Option (Label × Label)
  | phi _ firstFrom _ secondFrom => some (firstFrom, secondFrom)
  | _ => none

def Instr.origins? : Instr → Option (Label × Label)
  | define _ computation => computation.origins?
  | _ => none

namespace Line

def isCode : Line → Bool
  | comment _ => false
  | _ => true

def uses : Line → List Nat
  | instr i => i.operands.filterMap Operand.number?
  | terminator t => t.operands.filterMap Operand.number?
  | _ => []

def label? : Line → Option Label
  | label l => some l
  | _ => none

def number? : Line → Option Nat
  | instr i => i.number?
  | _ => none

def targets : Line → List Label
  | terminator t => t.targets
  | _ => []

def origins? : Line → Option (Label × Label)
  | instr i => i.origins?
  | _ => none

end Line

/-! ## Lines in their blocks -/

section Lines

variable {code : List Line} {line : Line} {l : Label}

def labelsOf (code : List Line) : List Label := code.filterMap label?

def numbersOf (code : List Line) : List Nat := code.filterMap number?

/-- The last block of lines, which is `first` if they start none. -/
def lastBlock (first : Label) (code : List Line) : Label := (labelsOf code).getLast?.getD first

/-- Lines with the blocks that they stand in; those before the first label stand in `block`. -/
def placed (block : Label) : List Line → List (Label × Line)
  | [] => []
  | line :: more => (line.label?.getD block, line) :: placed (line.label?.getD block) more

def edgesOf (code : List Line) : List (Label × Label) :=
  (placed .entry code).flatMap fun p => p.2.targets.map (p.1, ·)

def sourcesOf (code : List Line) (target : Label) : List Label :=
  ((edgesOf code).filter (·.2 = target)).map (·.1)

def phisOf (code : List Line) : List (Label × Label × Label) :=
  (placed .entry code).filterMap fun p => p.2.origins?.map (p.1, ·)

def DefinedBeforeUse (code : List Line) : Prop :=
  ∀ i line, code[i]? = some line → ∀ n ∈ line.uses, n ∈ numbersOf (code.take i)

theorem labelsOf_concat : labelsOf (code ++ [line]) = labelsOf code ++ line.label?.toList := by
  cases h : line.label? <;> simp [labelsOf, h]

theorem numbersOf_concat : numbersOf (code ++ [line]) = numbersOf code ++ line.number?.toList := by
  cases h : line.number? <;> simp [numbersOf, h]

variable {block : Label}

theorem lastBlock_cons : lastBlock block (line :: code) = lastBlock (line.label?.getD block) code := by
  cases h : line.label? <;> simp [lastBlock, labelsOf, h, List.getLast?_cons]

theorem placed_append {more : List Line} :
    placed block (code ++ more) = placed block code ++ placed (lastBlock block code) more := by
  induction code generalizing block with
  | nil => rfl
  | cons first code ih => rw [cons_append, placed, ih, placed, lastBlock_cons, cons_append]

theorem edgesOf_concat : edgesOf (code ++ [line]) = edgesOf code ++ line.targets.map (lastBlock .entry code, ·) := by
  rw [edgesOf, placed_append, flatMap_append, ← edgesOf]
  cases line <;> simp [placed, targets, label?]

theorem sourcesOf_concat : sourcesOf (code ++ [line]) l =
    sourcesOf code l ++ (line.targets.filter (· = l)).map fun _ => lastBlock .entry code := by
  rw [sourcesOf, edgesOf_concat, filter_append, map_append, filter_map,
    map_map]
  rfl

theorem DefinedBeforeUse.concat (h : DefinedBeforeUse code) (hline : ∀ n ∈ line.uses, n ∈ numbersOf code) :
    DefinedBeforeUse (code ++ [line]) := by
  intro i other hi n hn
  by_cases hlt : i < code.length
  · rw [List.getElem?_append_left hlt] at hi
    rw [take_append_of_le_length (by omega)]
    exact h i other hi n hn
  · have hlen : i < (code ++ [line]).length := (List.getElem?_eq_some_iff.1 hi).1
    have hi' : i = code.length := by simp at hlen; omega
    subst hi'
    obtain rfl : line = other := by simpa using hi
    simpa using hline n hn

theorem phisOf_concat :
    phisOf (code ++ [line]) = phisOf code ++ (line.origins?.map (lastBlock .entry code, ·)).toList := by
  rw [phisOf, placed_append, filterMap_append, ← phisOf]
  cases line with
  | instr i => cases h : i.origins? <;> simp [placed, origins?, label?, h]
  | _ => rfl

end Lines

/-! ## Blocks -/

/-- A block: a label, instructions that control passes through, and one terminator. -/
structure BasicBlock where
  label : Label
  instrs : List Instr
  terminator : Terminator

namespace BasicBlock

def lines (b : BasicBlock) : List Line :=
  .label b.label :: (b.instrs.map .instr ++ [.terminator b.terminator])

def sources (blocks : List BasicBlock) (target : Label) : List Label :=
  blocks.flatMap fun b => (b.terminator.targets.filter (· = target)).map fun _ => b.label

end BasicBlock

structure Outline (code : List Line) (blocks : List BasicBlock) : Prop where
  code_eq : code = blocks.flatMap BasicBlock.lines
  head? : (blocks.map fun b => b.label.text).head? = some "entry"
  labels_nodup : (blocks.map fun b => b.label.text).Nodup
  target_mem : ∀ b ∈ blocks, ∀ target ∈ b.terminator.targets, target ∈ blocks.map (·.label)
  origins : ∀ b ∈ blocks, ∀ i ∈ b.instrs, ∀ first second, i.origins? = some (first, second) →
    first ≠ second ∧ BasicBlock.sources blocks b.label = [first, second]
  numbers : ∃ count, numbersOf code = List.range count
  uses : DefinedBeforeUse code

section Blocks

variable {b : BasicBlock} {blocks : List BasicBlock} {block : Label}

theorem placed_of_labelless {code : List Line} (h : ∀ line ∈ code, line.label? = none) :
    placed block code = code.map (block, ·) := by
  induction code with
  | nil => rfl
  | cons line code ih =>
    have hline := h line mem_cons_self
    simp [placed, hline, ih fun line hmem => h line (mem_cons_of_mem _ hmem)]

theorem BasicBlock.placed_lines : placed block b.lines = b.lines.map (b.label, ·) := by
  have hrest : ∀ line ∈ b.instrs.map instr ++ [.terminator b.terminator], line.label? = none := by
    simp [or_imp, forall_and, label?]
  rw [lines, placed, placed_of_labelless hrest]
  rfl

theorem placed_blocks : placed block (blocks.flatMap BasicBlock.lines) =
    blocks.flatMap fun b => b.lines.map (b.label, ·) := by
  induction blocks generalizing block with
  | nil => rfl
  | cons b blocks ih => rw [flatMap_cons, placed_append, ih, b.placed_lines, flatMap_cons]

theorem labelsOf_blocks : labelsOf (blocks.flatMap BasicBlock.lines) = blocks.map (·.label) := by
  induction blocks with
  | nil => rfl
  | cons b blocks ih =>
    have hinstrs : (b.instrs.map instr).filterMap label? = [] := by simp [label?]
    rw [flatMap_cons, labelsOf, filterMap_append, ← labelsOf, ← labelsOf, ih]
    simp [labelsOf, BasicBlock.lines, label?, hinstrs]

theorem edgesOf_blocks : edgesOf (blocks.flatMap BasicBlock.lines) =
    blocks.flatMap fun b => b.terminator.targets.map (b.label, ·) := by
  rw [edgesOf, placed_blocks, flatMap_assoc]
  congr 1
  funext b
  simp [BasicBlock.lines, targets, flatMap_map, flatMap_append]

theorem sourcesOf_blocks {target : Label} :
    sourcesOf (blocks.flatMap BasicBlock.lines) target = BasicBlock.sources blocks target := by
  rw [sourcesOf, edgesOf_blocks, BasicBlock.sources, filter_flatMap, map_flatMap]
  simp [filter_map, Function.comp_def]

theorem mem_phisOf_blocks {i : Instr} {first second : Label} (hb : b ∈ blocks) (hi : i ∈ b.instrs)
    (h : i.origins? = some (first, second)) : (b.label, first, second) ∈ phisOf (blocks.flatMap BasicBlock.lines) := by
  have hline : instr i ∈ b.lines := by simp [BasicBlock.lines, hi]
  rw [phisOf, placed_blocks, mem_filterMap]
  exact ⟨(b.label, .instr i), mem_flatMap.2 ⟨b, hb, mem_map_of_mem hline⟩, by simp [origins?, h]⟩

end Blocks

/-! ## The text of labels -/

theorem Construct.dot_notMem_name (c : Construct) : '.' ∉ c.name.toList := by
  cases c <;> decide

theorem Part.dot_notMem_name (p : Part) : '.' ∉ p.name.toList := by
  cases p <;> decide

theorem Construct.name_injective : Function.Injective Construct.name := by
  intro c c'
  cases c <;> cases c' <;> decide

theorem Part.name_injective : Function.Injective Part.name := by
  intro p p'
  cases p <;> cases p' <;> decide

def Label.words : Label → List (List Char)
  | entry => ["entry".toList]
  | dead number => ["dead".toList, Nat.toDigits 10 number]
  | part construct role number => [construct.name.toList, role.name.toList, Nat.toDigits 10 number]

theorem Label.dot_notMem_words (l : Label) : ∀ word ∈ l.words, '.' ∉ word := by
  cases l with
  | entry => decide
  | dead n => simp [words, notMem_toDigits (c := '.') rfl]
  | part c p n => simp [words, notMem_toDigits (c := '.') rfl, c.dot_notMem_name, p.dot_notMem_name]

theorem Label.splitOn_text (l : Label) : l.text.toList.splitOn '.' = l.words := by
  have htext : l.text.toList = ['.'].intercalate l.words := by
    cases l <;> simp [text, words, List.intercalate, List.intersperse]
  rw [htext, splitOn_intercalate _ l.dot_notMem_words]
  cases l <;> simp [words]

theorem Label.text_injective : Function.Injective Label.text := by
  intro l l' h
  have hwords : l.words = l'.words := by rw [← splitOn_text, h, splitOn_text]
  have hname {c c' : Construct} : c.name.toList = c'.name.toList ↔ c = c' := by
    rw [String.toList_inj, Construct.name_injective.eq_iff]
  have hrole {p p' : Part} : p.name.toList = p'.name.toList ↔ p = p' := by
    rw [String.toList_inj, Part.name_injective.eq_iff]
  cases l <;> cases l' <;> simp_all [words, Json.toDigits_injective.eq_iff]

end Retarget.Llvm
