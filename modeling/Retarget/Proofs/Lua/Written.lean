import Retarget.Proofs.Lua.Lexer

/-!
# What is written for an operator tree

An operand is put in parentheses if it has operators of its own, unless its text already starts with a
parenthesis. That test does not see where the parenthesis ends: the operand `(a + b) - c` of a product is left
as it is, and `x * (a + b) - c` is another expression.

* `Tree.written` is the phrase that is written for a tree, and `Tree.isGrouped` says which trees are lucky:
  every operand that is left without parentheses is bound together strongly enough by its own operator.
* `Tree.parse_written_iff`: what is written is read back if and only if the names are names of Lua and the
  tree is grouped.
-/

namespace Retarget.Lua

open List Option Phrase

/-! ## What is written for a tree -/

namespace Tree

def isCompound : Tree → Bool
  | name _ | numeral _ => false
  | binary .. | unary .. => true

/-- An operand as it is written, which may be put in parentheses. -/
def asOperand (compound : Bool) (p : Phrase) : Phrase :=
  if compound && p.chars.head? != some '(' then .paren p else p

def written : Tree → Phrase
  | name s => .name s
  | numeral s => .numeral s
  | binary op left right =>
    .binary op (asOperand left.isCompound left.written) (asOperand right.isCompound right.written)
  | unary op operand => .unary op (asOperand operand.isCompound operand.written)

/-- The operator of an operand that is written without parentheses: such an operand starts with another
operand in parentheses. -/
def bareOp? : Tree → Option BinaryOp
  | binary op left _ => if left.isCompound then some op else none
  | _ => none

/-- Whether all operands that are written without parentheses belong together even so. -/
def isGrouped : Tree → Bool
  | name _ | numeral _ => true
  | binary op left right =>
    left.isGrouped && right.isGrouped && left.bareOp?.all (op.leftPriority ≤ ·.rightPriority) &&
      right.bareOp?.all (op.rightPriority < ·.leftPriority)
  | unary _ operand => operand.isGrouped && operand.bareOp?.all (unaryPriority < ·.leftPriority)

def names : Tree → List String
  | name s => [s]
  | numeral _ => []
  | binary _ left right => left.names ++ right.names
  | unary _ operand => operand.names

def numerals : Tree → List String
  | name _ => []
  | numeral s => [s]
  | binary _ left right => left.numerals ++ right.numerals
  | unary _ operand => operand.numerals

theorem tree_asOperand (compound : Bool) (p : Phrase) : (asOperand compound p).tree = p.tree := by
  unfold asOperand
  split <;> rfl

theorem tree_written (t : Tree) : t.written.tree = t := by
  induction t with
  | name s | numeral s => rfl
  | binary op left right ihl ihr => simp only [written, tree, tree_asOperand, ihl, ihr]
  | unary op operand ih => simp only [written, tree, tree_asOperand, ih]

structure Proper (t : Tree) : Prop where
  names : ∀ s ∈ t.names, isIdentifier s = true
  numerals : ∀ s ∈ t.numerals, isNumeral s.toList = true

namespace Proper

variable {op : BinaryOp} {u : UnaryOp} {l r t : Tree}

theorem left (h : (binary op l r).Proper) : l.Proper :=
  ⟨fun s hs => h.names s (mem_append_left _ hs), fun s hs => h.numerals s (mem_append_left _ hs)⟩

theorem right (h : (binary op l r).Proper) : r.Proper :=
  ⟨fun s hs => h.names s (mem_append_right _ hs), fun s hs => h.numerals s (mem_append_right _ hs)⟩

theorem operand (h : (unary u t).Proper) : t.Proper := ⟨h.names, h.numerals⟩

end Proper

/-- The characters that a proper tree without operators starts with. -/
def startsLeaf (c : Char) : Bool := isNameStart c || c.isDigit

variable {t : Tree} {op : BinaryOp}

attribute [local simp] chars

theorem exists_head_leaf (ht : t.Proper) (hc : t.isCompound = false) :
    ∃ c, t.written.chars.head? = some c ∧ startsLeaf c = true := by
  cases t with
  | name s =>
    have hs := ht.names s (mem_singleton_self s)
    unfold isIdentifier at hs
    split at hs
    · cases hs
    case h_2 c more hcs =>
      simp only [Bool.and_eq_true] at hs
      exact ⟨c, by simp [written, hcs], by simp [startsLeaf, hs.1.1]⟩
  | numeral s =>
    have hs := ht.numerals s (mem_singleton_self s)
    cases hcs : s.toList with
    | nil => simp [hcs, isNumeral] at hs
    | cons c more =>
      rw [hcs] at hs
      exact ⟨c, by simp [written, hcs], by simp [startsLeaf, (runs_numeral hs).1]⟩
  | binary | unary => cases hc

theorem ne_of_startsLeaf {c : Char} (h : startsLeaf c = true) : c ≠ '(' ∧ c ≠ '-' ∧ c ≠ '=' := by
  refine ⟨?_, ?_, ?_⟩ <;> (rintro rfl; revert h; decide)

theorem head?_asOperand (ht : t.Proper) :
    (t.isCompound = true ∧ (asOperand t.isCompound t.written).chars.head? = some '(') ∨
      (t.isCompound = false ∧ asOperand t.isCompound t.written = t.written ∧
        ∃ c, t.written.chars.head? = some c ∧ startsLeaf c = true) := by
  cases hc : t.isCompound with
  | false => exact .inr ⟨rfl, rfl, exists_head_leaf ht hc⟩
  | true =>
    refine .inl ⟨rfl, ?_⟩
    unfold asOperand
    split
    · rfl
    case isFalse h => simpa using h

theorem head?_written (ht : t.Proper) : t.written.chars.head? = some '(' ↔ t.bareOp?.isSome = true := by
  cases t with
  | name s | numeral s =>
    obtain ⟨c, hc, hleaf⟩ := exists_head_leaf ht rfl
    simp [bareOp?, hc, (ne_of_startsLeaf hleaf).1]
  | unary op t => cases op <;> simp [written, UnaryOp.chars, bareOp?]
  | binary op l r =>
    have hhead : (written (binary op l r)).chars.head? =
        (asOperand l.isCompound l.written).chars.head?.or (some ' ') := by
      simp [written, List.head?_append]
    rw [hhead, bareOp?]
    rcases head?_asOperand ht.left with ⟨hc, hl⟩ | ⟨hc, hl, c, hl', hleaf⟩
    · rw [hl, hc]
      simp
    · rw [hl, hl', hc]
      simp [(ne_of_startsLeaf hleaf).1]

theorem asOperand_eq (ht : t.Proper) :
    asOperand t.isCompound t.written = if t.isCompound && t.bareOp?.isNone then .paren t.written else t.written := by
  unfold asOperand
  have := head?_written ht
  simp_all

theorem legible_asOperand (ht : t.Proper) (h : t.written.Legible) : (asOperand t.isCompound t.written).Legible := by
  rw [asOperand_eq ht]
  split <;> exact h

theorem legible_written (ht : t.Proper) : t.written.Legible := by
  induction t with
  | name s => exact ht.names s (mem_singleton_self s)
  | numeral s => exact ht.numerals s (mem_singleton_self s)
  | binary op l r ihl ihr =>
    exact ⟨legible_asOperand ht.left (ihl ht.left), legible_asOperand ht.right (ihr ht.right)⟩
  | unary op t ih =>
    refine ⟨legible_asOperand ht.operand (ih ht.operand), fun c hc => ?_⟩
    rcases head?_asOperand ht.operand with ⟨-, h⟩ | ⟨-, h, d, hd, hleaf⟩
    · rw [h] at hc
      obtain rfl := some.inj hc
      decide
    · rw [h, hd] at hc
      obtain rfl := some.inj hc
      exact (ne_of_startsLeaf hleaf).2

/-! ## Which trees are grouped -/

/-- How strongly the outermost operands of an operand are bound: by its own operator if it is written without
parentheses, and by the parentheses or not at all otherwise. -/
structure Bound (t : Tree) (p : Phrase) : Prop where
  first : p.first = t.bareOp?.elim atomic BinaryOp.leftPriority
  last : p.last = t.bareOp?.elim atomic BinaryOp.rightPriority

theorem leftPriority_le_atomic : op.leftPriority ≤ atomic := by cases op <;> decide

theorem rightPriority_lt_atomic : op.rightPriority < atomic := by cases op <;> decide

variable {p : Phrase}

theorem Bound.min_first (h : Bound t p) (hop : op.leftPriority ≤ p.last) :
    min op.leftPriority p.first = op.leftPriority := by
  rw [h.last] at hop
  rw [h.first]
  cases hb : t.bareOp? with
  | none => exact Nat.min_eq_left leftPriority_le_atomic
  | some op' =>
    rw [hb] at hop
    exact Nat.min_eq_left (Nat.le_trans hop op'.rightPriority_le)

theorem Bound.min_last (h : Bound t p) (hop : op.rightPriority < p.first) :
    min op.rightPriority p.last = op.rightPriority := by
  rw [h.first] at hop
  rw [h.last]
  cases hb : t.bareOp? with
  | none => exact Nat.min_eq_left (Nat.le_of_lt rightPriority_lt_atomic)
  | some op' =>
    rw [hb] at hop
    exact Nat.min_eq_left (Nat.le_of_lt_succ (Nat.lt_of_lt_of_le hop op'.leftPriority_le))

theorem grouped_asOperand {compound : Bool} : (asOperand compound p).Grouped ↔ p.Grouped := by
  unfold asOperand
  split <;> exact Iff.rfl

theorem bound_asOperand (ht : t.Proper) (h : t.written.Grouped) : Bound t (asOperand t.isCompound t.written) := by
  induction t with
  | name s | numeral s => exact ⟨rfl, rfl⟩
  | unary op t => rw [asOperand_eq ht]; exact ⟨rfl, rfl⟩
  | binary op l r ihl ihr =>
    rw [asOperand_eq ht]
    by_cases hc : l.isCompound = true
    · have hb : bareOp? (binary op l r) = some op := if_pos hc
      obtain ⟨hl, hr, hleft, hright⟩ := h
      have hl := ihl ht.left (grouped_asOperand.1 hl)
      have hr := ihr ht.right (grouped_asOperand.1 hr)
      exact ⟨by rw [hb]; exact hl.min_first hleft, by rw [hb]; exact hr.min_last hright⟩
    · have hb : bareOp? (binary op l r) = none := if_neg hc
      exact ⟨by rw [hb]; rfl, by rw [hb]; rfl⟩

theorem all_iff_le (h : Bound t p) :
    t.bareOp?.all (op.leftPriority ≤ ·.rightPriority) = true ↔ op.leftPriority ≤ p.last := by
  rw [h.last]
  cases t.bareOp? with
  | none => simp [leftPriority_le_atomic]
  | some op' => simp

theorem all_iff_lt (h : Bound t p) {limit : Nat} (hlimit : limit < atomic) :
    t.bareOp?.all (limit < ·.leftPriority) = true ↔ limit < p.first := by
  rw [h.first]
  cases t.bareOp? with
  | none => simp [hlimit]
  | some op' => simp

/-- **A tree is written in a grouped way exactly if it is grouped.** -/
theorem grouped_written_iff (ht : t.Proper) : t.written.Grouped ↔ t.isGrouped = true := by
  induction t with
  | name s | numeral s => exact ⟨fun _ => rfl, fun _ => trivial⟩
  | binary op l r ihl ihr =>
    simp only [written, Phrase.Grouped, isGrouped, Bool.and_eq_true, grouped_asOperand, ihl ht.left,
      ihr ht.right, and_assoc]
    refine and_congr_right fun hl => and_congr_right fun hr => ?_
    have hl := bound_asOperand ht.left ((ihl ht.left).2 hl)
    have hr := bound_asOperand ht.right ((ihr ht.right).2 hr)
    rw [all_iff_le hl, all_iff_lt hr rightPriority_lt_atomic]
  | unary op t ih =>
    simp only [written, Phrase.Grouped, isGrouped, Bool.and_eq_true, grouped_asOperand, ih ht.operand]
    refine and_congr_right fun h => ?_
    have h := bound_asOperand ht.operand ((ih ht.operand).2 h)
    rw [all_iff_lt h (by decide)]

theorem mem_tokens_of_mem_names {s : String} (h : s ∈ p.tree.names) : .name s ∈ p.tokens := by
  induction p with
  | name s' =>
    obtain rfl := mem_singleton.1 h
    exact mem_singleton_self _
  | numeral s' => cases h
  | paren inner ih => exact mem_cons_of_mem _ (mem_append_left _ (ih h))
  | binary op l r ihl ihr =>
    rcases mem_append.1 h with h | h
    · exact mem_append_left _ (ihl h)
    · exact mem_append_right _ (mem_cons_of_mem _ (ihr h))
  | unary op operand ih => exact mem_cons_of_mem _ (ih h)

/-- **What is written for a tree is read back as the tree exactly if its names are names of Lua and it is
grouped.** -/
theorem parse_written_iff (hnum : ∀ s ∈ t.numerals, isNumeral s.toList = true) {text : String}
    (htext : text.toList = t.written.chars) :
    parse text = some t ↔ (∀ s ∈ t.names, isIdentifier s = true) ∧ t.isGrouped = true := by
  have hlex (hnames : ∀ s ∈ t.names, isIdentifier s = true) : lex text.toList = some t.written.tokens := by
    have h := lex_chars (legible_written ⟨hnames, hnum⟩) (show Ends [] from trivial)
    rw [append_nil] at h
    rw [htext, h]
    simp [lex, lexFrom, taken]
  have hread (hnames : ∀ s ∈ t.names, isIdentifier s = true) :
      parse text = some t ↔ t.isGrouped = true := by
    have h := parseTokens_eq_some_iff t.written
    rw [tree_written] at h
    rw [parse, hlex hnames, bind_some, h, grouped_written_iff ⟨hnames, hnum⟩]
  refine ⟨fun h => ?_, fun h => (hread h.1).2 h.2⟩
  -- the names of a tree that has been read were tokens, and so they are names of Lua
  have hnames : ∀ s ∈ t.names, isIdentifier s = true := by
    obtain ⟨tokens, htokens, hparse⟩ := bind_eq_some_iff.1 h
    obtain ⟨p, -, rfl, rfl⟩ := exists_grouped_of_parseTokens hparse
    exact fun s hs => isIdentifier_of_mem_lexFrom htokens (mem_tokens_of_mem_names hs)
  exact ⟨hnames, (hread hnames).1 h⟩

end Tree

end Retarget.Lua
