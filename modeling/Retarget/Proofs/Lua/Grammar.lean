import Mathlib.Data.List.Basic
import Retarget.Lua.Text

/-!
# The grammar of operators in Lua

Operators in Lua bind by priority. `Parser.subexpr` reads an expression the way Lua does: it reads an operand
and then goes on for as long as the next operator binds more strongly to the left than the limit it was given.

A `Phrase` is an expression with the parentheses that it is written with, and `Phrase.Grouped` says that the
parentheses are enough: every operand is held together more strongly than the operator around it pulls.

* `Parser.subexpr_sound`: what the parser reads is the tree of a grouped phrase with the same tokens.
* `Parser.subexpr_complete`: the tokens of a grouped phrase are read as its tree.
* `Phrase.eq_of_tokens_eq`: the tokens of a phrase and its tree determine where its parentheses are.

Together they give `parseTokens_eq_some_iff`: the tokens of a phrase are read as its own tree if and only if
the phrase is grouped.
-/

namespace Retarget.Lua

open List Option

/-! ## Trees and tokens -/

inductive Tree where
  | name (name : String)
  | numeral (text : String)
  | binary (op : BinaryOp) (left right : Tree)
  | unary (op : UnaryOp) (operand : Tree)
  deriving DecidableEq, Repr

inductive Token where
  | name (name : String)
  | numeral (text : String)
  | opening
  | closing
  | binary (op : BinaryOp)
  | not
  | length
  deriving DecidableEq, Repr

def Token.unary? : Token → Option UnaryOp
  | .binary .sub => some .neg
  | .binary .bxor => some .bnot
  | .not => some .not
  | .length => some .length
  | _ => none

def UnaryOp.token : UnaryOp → Token
  | .neg => .binary .sub
  | .not => .not
  | .bnot => .binary .bxor
  | .length => .length

def BinaryOp.leftPriority : BinaryOp → Nat
  | or => 1
  | and => 2
  | lt | gt | le | ge | ne | eq => 3
  | bor => 4
  | bxor => 5
  | band => 6
  | shl | shr => 7
  | concat => 9
  | add | sub => 10
  | mul | div | idiv => 11
  | pow => 14

/-- How strongly an operator binds the operand on its right. The operators that group from right to left bind
it less strongly. -/
def BinaryOp.rightPriority : BinaryOp → Nat
  | concat => 8
  | pow => 13
  | op => op.leftPriority

/-- How strongly an operator binds the operand behind it, if there is only one. -/
def unaryPriority : Nat := 12

namespace BinaryOp

theorem leftPriority_pos (op : BinaryOp) : 0 < op.leftPriority := by cases op <;> decide

theorem rightPriority_le (op : BinaryOp) : op.rightPriority ≤ op.leftPriority := by cases op <;> decide

theorem leftPriority_le (op : BinaryOp) : op.leftPriority ≤ op.rightPriority + 1 := by cases op <;> decide

end BinaryOp

/-! ## The parser -/

namespace Parser

mutual

/-- An expression whose operators bind more strongly to the left than `limit`, and the tokens behind it. -/
def subexpr : (fuel : Nat) → (limit : Nat) → List Token → Option (Tree × List Token)
  | 0, _, _ => none
  | fuel + 1, limit, tokens => do
    let (first, rest) ← operand fuel tokens
    operators fuel limit first rest

/-- An operand: a name, a number, an expression in parentheses or an operand with an operator before it. -/
def operand : (fuel : Nat) → List Token → Option (Tree × List Token)
  | 0, _ => none
  | _ + 1, [] => none
  | fuel + 1, token :: rest =>
    match token.unary? with
    | some op => do
      let (inner, rest) ← subexpr fuel unaryPriority rest
      return (.unary op inner, rest)
    | none =>
      match token with
      | .name name => return (.name name, rest)
      | .numeral text => return (.numeral text, rest)
      | .opening => do
        let (inner, rest) ← subexpr fuel 0 rest
        match rest with
        | .closing :: rest => return (inner, rest)
        | _ => none
      | _ => none

/-- The operators that follow the operand `left`, with their right operands. -/
def operators : (fuel : Nat) → (limit : Nat) → (left : Tree) → List Token → Option (Tree × List Token)
  | 0, _, _, _ => none
  | fuel + 1, limit, left, tokens =>
    match tokens with
    | .binary op :: rest =>
      if limit < op.leftPriority then do
        let (right, rest) ← subexpr fuel op.rightPriority rest
        operators fuel limit (.binary op left right) rest
      else return (left, tokens)
    | _ => return (left, tokens)

end

end Parser

def parseTokens (tokens : List Token) : Option Tree :=
  match Parser.subexpr (2 * tokens.length + 2) 0 tokens with
  | some (tree, []) => some tree
  | _ => none

/-! ## Phrases -/

inductive Phrase where
  | name (name : String)
  | numeral (text : String)
  | paren (inner : Phrase)
  | binary (op : BinaryOp) (left right : Phrase)
  | unary (op : UnaryOp) (operand : Phrase)
  deriving DecidableEq, Repr

variable {rest v v' : List Token} {p : Phrase} {x : Token} {t : Tree}

namespace Phrase

def tree : Phrase → Tree
  | name s => .name s
  | numeral s => .numeral s
  | paren inner => inner.tree
  | binary op left right => .binary op left.tree right.tree
  | unary op operand => .unary op operand.tree

def tokens : Phrase → List Token
  | name s => [.name s]
  | numeral s => [.numeral s]
  | paren inner => .opening :: inner.tokens ++ [.closing]
  | binary op left right => left.tokens ++ .binary op :: right.tokens
  | unary op operand => op.token :: operand.tokens

def atomic : Nat := 15

/-- How strongly the first operand of a phrase is bound to the right: an operator before the phrase that pulls
as strongly would take that operand for itself. -/
def first : Phrase → Nat
  | binary op left _ => min op.leftPriority left.first
  | _ => atomic

/-- How strongly the last operand of a phrase is bound to the left: an operator behind the phrase that pulls
more strongly would take that operand for itself. -/
def last : Phrase → Nat
  | binary op _ right => min op.rightPriority right.last
  | unary _ operand => min unaryPriority operand.last
  | _ => atomic

/-- Whether the parentheses of a phrase are enough to hold its operands together. -/
def Grouped : Phrase → Prop
  | name _ | numeral _ => True
  | paren inner => inner.Grouped
  | binary op left right =>
    left.Grouped ∧ right.Grouped ∧ op.leftPriority ≤ left.last ∧ op.rightPriority < right.first
  | unary _ operand => operand.Grouped ∧ unaryPriority < operand.first

theorem first_pos : 0 < p.first := by
  induction p with
  | binary op left right ihl _ => exact Nat.lt_min.2 ⟨op.leftPriority_pos, ihl⟩
  | _ => exact Nat.succ_pos _

/-- What follows a phrase when no operator there pulls more strongly than `priority`. -/
def Stops (priority : Nat) : List Token → Prop
  | .binary op :: _ => op.leftPriority ≤ priority
  | _ => True

variable {a b : Nat}

theorem Stops.mono (h : Stops a rest) (hab : a ≤ b) : Stops b rest := by
  unfold Stops at h ⊢
  split
  · exact Nat.le_trans h hab
  · trivial

theorem Stops.min (ha : Stops a rest) (hb : Stops b rest) : Stops (min a b) rest := by
  rcases Nat.le_total a b with h | h
  · rwa [Nat.min_eq_left h]
  · rwa [Nat.min_eq_right h]

end Phrase

/-! ## The parser reads grouped phrases -/

namespace Parser

open Phrase

variable {fuel limit : Nat}

theorem operators_stop {left : Tree} (hf : 0 < fuel) (h : Stops limit rest) :
    operators fuel limit left rest = some (left, rest) := by
  obtain ⟨fuel, rfl⟩ := Nat.exists_eq_succ_of_ne_zero (Nat.pos_iff_ne_zero.1 hf)
  unfold operators
  split
  case h_1 op rest => exact if_neg (Nat.not_lt.2 h)
  case h_2 => rfl

theorem unary?_token (op : UnaryOp) : op.token.unary? = some op := by cases op <;> rfl

/-- **A grouped phrase is read as its tree.** The parser gets through the tokens of the phrase and goes on
with the operators behind it; `result` is what it makes of these. -/
theorem subexpr_complete (hp : p.Grouped) {result : Option (Tree × List Token)} (hlimit : limit < p.first)
    (hrest : Stops p.last rest) (hfuel : 2 * (p.tokens ++ rest).length + 2 ≤ fuel)
    (h : ∀ fuel, 2 * rest.length + 1 ≤ fuel → operators fuel limit p.tree rest = result) :
    subexpr fuel limit (p.tokens ++ rest) = result := by
  induction p generalizing limit fuel rest result with
  | name s | numeral s =>
    simp only [tokens, length_append, length_singleton] at hfuel
    obtain ⟨fuel, rfl⟩ : ∃ n, fuel = n + 2 := ⟨fuel - 2, by omega⟩
    exact h (fuel + 1) (by omega)
  | paren inner ih =>
    simp only [tokens, length_append, length_cons, length_nil] at hfuel
    obtain ⟨fuel, rfl⟩ : ∃ n, fuel = n + 2 := ⟨fuel - 2, by omega⟩
    have hinner : subexpr fuel 0 (inner.tokens ++ .closing :: rest) = some (inner.tree, .closing :: rest) := by
      refine ih hp first_pos trivial (by simp; omega) fun f hf => ?_
      exact operators_stop (by omega) trivial
    have hoperand : operand (fuel + 1) ((paren inner).tokens ++ rest) = some (inner.tree, rest) := by
      simp [tokens, operand, Token.unary?, hinner]
    rw [subexpr, hoperand]
    exact h (fuel + 1) (by omega)
  | binary op left right ihl ihr =>
    obtain ⟨hl, hr, hleft, hright⟩ := hp
    simp only [tokens, append_assoc, cons_append] at hfuel ⊢
    refine ihl hl (Nat.lt_of_lt_of_le hlimit (Nat.min_le_right ..)) hleft hfuel fun f hf => ?_
    simp only [length_cons, length_append] at hf
    obtain ⟨f, rfl⟩ : ∃ n, f = n + 1 := ⟨f - 1, by omega⟩
    have hsub : subexpr f op.rightPriority (right.tokens ++ rest) = some (right.tree, rest) := by
      refine ihr hr hright (hrest.mono (Nat.min_le_right ..)) (by simp; omega) fun f hf => ?_
      exact operators_stop (by omega) (hrest.mono (Nat.min_le_left ..))
    rw [operators, if_pos (Nat.lt_of_lt_of_le hlimit (Nat.min_le_left ..)), hsub]
    exact h f (by omega)
  | unary op inner ih =>
    simp only [tokens, cons_append, length_cons, length_append] at hfuel ⊢
    obtain ⟨fuel, rfl⟩ : ∃ n, fuel = n + 2 := ⟨fuel - 2, by omega⟩
    have hinner : subexpr fuel unaryPriority (inner.tokens ++ rest) = some (inner.tree, rest) := by
      refine ih hp.1 hp.2 (hrest.mono (Nat.min_le_right ..)) (by simp; omega) fun f hf => ?_
      exact operators_stop (by omega) (hrest.mono (Nat.min_le_left ..))
    have hoperand : operand (fuel + 1) (op.token :: (inner.tokens ++ rest)) =
        some (.unary op inner.tree, rest) := by
      simp [operand, unary?_token, hinner]
    rw [subexpr, hoperand]
    exact h (fuel + 1) (by omega)

/-! ## What the parser reads is grouped -/

/-- A phrase that stands at the start of some tokens, is read as a tree, and is left alone by what follows. -/
structure Begins (p : Phrase) (tree : Tree) (tokens rest : List Token) : Prop where
  grouped : p.Grouped
  tree_eq : p.tree = tree
  tokens_eq : tokens = p.tokens ++ rest
  stops : Stops p.last rest

theorem stops_atomic : Stops atomic rest := by
  unfold Stops
  split
  case h_1 op _ => cases op <;> decide
  case h_2 => trivial

theorem unary?_eq_some {token : Token} {op : UnaryOp} (h : token.unary? = some op) : token = op.token := by
  unfold Token.unary? at h
  split at h
  case h_5 => cases h
  all_goals
    obtain rfl := some.inj h
    rfl

/-- What each of the three functions of the parser reads, at some fuel. -/
structure Sound (fuel : Nat) : Prop where
  subexpr : ∀ {limit tokens tree rest}, limit < atomic → subexpr fuel limit tokens = some (tree, rest) →
    ∃ p, Begins p tree tokens rest ∧ limit < p.first ∧ Stops limit rest
  operand : ∀ {tokens tree rest}, operand fuel tokens = some (tree, rest) →
    ∃ p, Begins p tree tokens rest ∧ p.first = atomic
  operators : ∀ {limit tokens tree rest} {p : Phrase}, p.Grouped → limit < p.first → Stops p.last tokens →
    operators fuel limit p.tree tokens = some (tree, rest) →
    ∃ q, Begins q tree (p.tokens ++ tokens) rest ∧ limit < q.first ∧ Stops limit rest

variable {fuel limit : Nat} {tokens rest : List Token} {tree : Tree}

theorem subexpr_sound_step (ih : Sound fuel) (hlimit : limit < atomic)
    (h : subexpr (fuel + 1) limit tokens = some (tree, rest)) :
    ∃ p, Begins p tree tokens rest ∧ limit < p.first ∧ Stops limit rest := by
  obtain ⟨⟨first, rest'⟩, hfirst, h⟩ := bind_eq_some_iff.1 h
  obtain ⟨p, hp, hpfirst⟩ := ih.operand hfirst
  obtain rfl := hp.tree_eq
  rw [hp.tokens_eq]
  exact ih.operators hp.grouped (hpfirst ▸ hlimit) hp.stops h

theorem operand_sound_step (ih : Sound fuel) (h : operand (fuel + 1) tokens = some (tree, rest)) :
    ∃ p, Begins p tree tokens rest ∧ p.first = atomic := by
  cases tokens with
  | nil => cases h
  | cons token more =>
    unfold operand at h
    split at h
    case h_1 op hop =>
      obtain ⟨⟨inner, rest'⟩, hinner, h⟩ := bind_eq_some_iff.1 h
      cases h
      obtain ⟨p, hp, hfirst, hstops⟩ := ih.subexpr (by decide) hinner
      obtain rfl := unary?_eq_some hop
      refine ⟨.unary op p, ⟨⟨hp.grouped, hfirst⟩, ?_, ?_, ?_⟩, rfl⟩
      · rw [Phrase.tree, hp.tree_eq]
      · rw [Phrase.tokens, hp.tokens_eq, cons_append]
      · exact .min hstops hp.stops
    case h_2 =>
      split at h
      case h_1 s _ =>
        cases h
        exact ⟨.name s, ⟨trivial, rfl, rfl, stops_atomic⟩, rfl⟩
      case h_2 s _ =>
        cases h
        exact ⟨.numeral s, ⟨trivial, rfl, rfl, stops_atomic⟩, rfl⟩
      case h_3 =>
        obtain ⟨⟨inner, rest'⟩, hinner, h⟩ := bind_eq_some_iff.1 h
        dsimp only at h
        split at h
        case h_1 rest'' =>
          cases h
          obtain ⟨p, hp, -, -⟩ := ih.subexpr (by decide) hinner
          refine ⟨.paren p, ⟨hp.grouped, hp.tree_eq, ?_, stops_atomic⟩, rfl⟩
          rw [hp.tokens_eq]
          simp [Phrase.tokens]
        case h_2 => cases h
      case h_4 => cases h

theorem operators_sound_step (ih : Sound fuel) (hp : p.Grouped) (hlimit : limit < p.first)
    (hstops : Stops p.last tokens) (h : operators (fuel + 1) limit p.tree tokens = some (tree, rest)) :
    ∃ q, Begins q tree (p.tokens ++ tokens) rest ∧ limit < q.first ∧ Stops limit rest := by
  unfold operators at h
  split at h
  case h_1 op more =>
    split at h
    case isTrue hop =>
      obtain ⟨⟨right, rest'⟩, hright, h⟩ := bind_eq_some_iff.1 h
      have hatomic : op.rightPriority < atomic := by cases op <;> decide
      obtain ⟨q, hq, hqfirst, hqstops⟩ := ih.subexpr hatomic hright
      -- the operator and its right operand join what has been read so far
      have hjoined : (Phrase.binary op p q).Grouped := ⟨hp, hq.grouped, hstops, hqfirst⟩
      obtain rfl := hq.tree_eq
      obtain ⟨result, hresult⟩ :=
        ih.operators hjoined (Nat.lt_min.2 ⟨hop, hlimit⟩) (hqstops.min hq.stops) h
      refine ⟨result, ?_⟩
      rw [hq.tokens_eq]
      simpa [Phrase.tokens] using hresult
    case isFalse hop =>
      cases h
      exact ⟨p, ⟨hp, rfl, rfl, hstops⟩, hlimit, Nat.not_lt.1 hop⟩
  case h_2 hne =>
    cases h
    refine ⟨p, ⟨hp, rfl, rfl, hstops⟩, hlimit, ?_⟩
    unfold Stops
    split
    · exact absurd rfl (hne _ _)
    · trivial

theorem sound : Sound fuel := by
  induction fuel with
  | zero => exact ⟨fun _ h => (nomatch h), fun h => (nomatch h), fun _ _ _ h => (nomatch h)⟩
  | succ fuel ih => exact ⟨subexpr_sound_step ih, operand_sound_step ih, operators_sound_step ih⟩

end Parser

/-! ## Where the parentheses are -/

def Token.isParen : Token → Bool
  | opening | closing => true
  | _ => false

def plainCount (tokens : List Token) : Nat := tokens.countP (!·.isParen)

attribute [local simp] plainCount

theorem split_at_plain {u u' : List Token} {x' : Token} (hx : x.isParen = false) (hx' : x'.isParen = false)
    (hu : plainCount u = plainCount u') (h : u ++ x :: v = u' ++ x' :: v') : u = u' ∧ v = v' := by
  induction u generalizing u' with
  | nil =>
    cases u' with
    | nil => exact ⟨rfl, (cons.inj h).2⟩
    | cons y u' =>
      obtain ⟨rfl, -⟩ := cons.inj h
      simp [hx] at hu
  | cons y u ih =>
    cases u' with
    | nil =>
      obtain ⟨rfl, -⟩ := cons.inj h
      simp [hx'] at hu
    | cons y' u' =>
      obtain ⟨rfl, htail⟩ := cons.inj h
      simp only [plainCount, countP_cons, Nat.add_right_cancel_iff] at hu
      obtain ⟨rfl, hv⟩ := ih hu htail
      exact ⟨rfl, hv⟩

/-- The number of tokens of a tree that is written without parentheses. -/
def Tree.size : Tree → Nat
  | name _ | numeral _ => 1
  | binary _ left right => left.size + right.size + 1
  | unary _ operand => operand.size + 1

theorem UnaryOp.isParen_token (op : UnaryOp) : op.token.isParen = false := by cases op <;> rfl

namespace Phrase

theorem plainCount_tokens : plainCount p.tokens = p.tree.size := by
  induction p with
  | name s | numeral s => rfl
  | paren inner ih => simpa [tokens, tree, Token.isParen] using ih
  | binary op left right ihl ihr =>
    simp only [tokens, tree, Tree.size, ← ihl, ← ihr, plainCount, countP_append, countP_cons]
    simp [Token.isParen]
    omega
  | unary op operand ih => simp [tokens, tree, Tree.size, ← ih, op.isParen_token]

theorem UnaryOp.token_ne (op : UnaryOp) : op.token ≠ .opening ∧ op.token ≠ .closing := by
  cases op <;> decide

theorem count_tokens : p.tokens.count .opening = p.tokens.count .closing := by
  induction p with
  | name s | numeral s => rfl
  | paren inner ih => simp [tokens, ih]
  | binary op left right ihl ihr => simp [tokens, ihl, ihr]
  | unary op operand ih => simp [tokens, ih, UnaryOp.token_ne]

def wrap : Nat → Phrase → Phrase
  | 0, p => p
  | k + 1, p => .paren (wrap k p)

theorem tokens_wrap {k : Nat} :
    (wrap k p).tokens = replicate k .opening ++ (p.tokens ++ replicate k .closing) := by
  induction k with
  | zero => simp [wrap]
  | succ k ih =>
    rw [wrap, tokens, ih, replicate_succ, replicate_succ']
    simp

theorem wrap_cancel (u u' : List Token) {k k' : Nat} (hx : x.isParen = false) (hplain : plainCount u = plainCount u')
    (hu : u.count .opening = u.count .closing) (hu' : u'.count .opening = u'.count .closing)
    (h : replicate k .opening ++ (u ++ x :: v ++ replicate k .closing) =
      replicate k' .opening ++ (u' ++ x :: v' ++ replicate k' .closing)) : k = k' ∧ u = u' ∧ v = v' := by
  have hcount (k : Nat) (u : List Token) :
      plainCount (replicate k .opening ++ u) = plainCount u := by
    simp [Token.isParen]
  have hsplit : replicate k Token.opening ++ u = replicate k' .opening ++ u' ∧
      v ++ replicate k .closing = v' ++ replicate k' .closing := by
    refine split_at_plain hx hx (by rw [hcount, hcount, hplain]) ?_
    simpa using h
  obtain ⟨hleft, hright⟩ := hsplit
  have hopening := congrArg (count .opening) hleft
  have hclosing := congrArg (count .closing) hleft
  simp [count_replicate] at hopening hclosing
  obtain rfl : k = k' := by omega
  exact ⟨rfl, append_cancel_left hleft, append_cancel_right hright⟩

theorem exists_wrap_of_tree (h : p.tree = t) :
    ∃ k, match t with
      | .name s => p = wrap k (.name s)
      | .numeral s => p = wrap k (.numeral s)
      | .binary op l r => ∃ a b, p = wrap k (.binary op a b) ∧ a.tree = l ∧ b.tree = r
      | .unary op t => ∃ a, p = wrap k (.unary op a) ∧ a.tree = t := by
  induction p generalizing t with
  | name s | numeral s => subst h; exact ⟨0, rfl⟩
  | binary op a b => subst h; exact ⟨0, a, b, rfl, rfl, rfl⟩
  | unary op a => subst h; exact ⟨0, a, rfl, rfl⟩
  | paren inner ih =>
    obtain ⟨k, hk⟩ := ih h
    refine ⟨k + 1, ?_⟩
    cases t with
    | name s | numeral s => exact congrArg Phrase.paren hk
    | binary op l r =>
      obtain ⟨a, b, rfl, hab⟩ := hk
      exact ⟨a, b, rfl, hab⟩
    | unary op t =>
      obtain ⟨a, rfl, ha⟩ := hk
      exact ⟨a, rfl, ha⟩

/-- **The tokens of a phrase and its tree determine its parentheses.** Inside the outermost parentheses, the
main operator stands at the same place among the tokens that are not parentheses. -/
theorem eq_of_tokens_eq {q : Phrase} (hp : p.tree = t) (hq : q.tree = t) (h : p.tokens = q.tokens) : p = q := by
  induction t generalizing p q with
  | name s | numeral s =>
    obtain ⟨k, rfl⟩ := exists_wrap_of_tree hp
    obtain ⟨k', rfl⟩ := exists_wrap_of_tree hq
    rw [tokens_wrap, tokens_wrap] at h
    obtain ⟨rfl, -⟩ := wrap_cancel [] [] rfl rfl rfl rfl h
    rfl
  | binary op l r ihl ihr =>
    obtain ⟨k, a, b, rfl, ha, hb⟩ := exists_wrap_of_tree hp
    obtain ⟨k', a', b', rfl, ha', hb'⟩ := exists_wrap_of_tree hq
    rw [tokens_wrap, tokens_wrap] at h
    have hplain : plainCount a.tokens = plainCount a'.tokens := by
      rw [plainCount_tokens, plainCount_tokens, ha, ha']
    obtain ⟨rfl, hl, hr⟩ := wrap_cancel _ _ rfl hplain count_tokens count_tokens h
    rw [ihl ha ha' hl, ihr hb hb' hr]
  | unary op t ih =>
    obtain ⟨k, a, rfl, ha⟩ := exists_wrap_of_tree hp
    obtain ⟨k', a', rfl, ha'⟩ := exists_wrap_of_tree hq
    rw [tokens_wrap, tokens_wrap] at h
    obtain ⟨rfl, -, ht⟩ := wrap_cancel [] [] op.isParen_token rfl rfl rfl h
    rw [ih ha ha' ht]

end Phrase

/-- **What is read is the tree of a grouped phrase.** -/
theorem exists_grouped_of_parseTokens {tokens : List Token} (h : parseTokens tokens = some t) :
    ∃ p : Phrase, p.Grouped ∧ p.tree = t ∧ p.tokens = tokens := by
  unfold parseTokens at h
  split at h
  case h_1 tree hread =>
    obtain rfl := some.inj h
    obtain ⟨p, hp, -, -⟩ := Parser.sound.subexpr (by decide) hread
    exact ⟨p, hp.grouped, hp.tree_eq, by rw [hp.tokens_eq, append_nil]⟩
  case h_2 => cases h

/-- **The tokens of a phrase are read as its tree exactly if the phrase is grouped.** -/
theorem parseTokens_eq_some_iff (p : Phrase) : parseTokens p.tokens = some p.tree ↔ p.Grouped := by
  constructor
  · intro h
    obtain ⟨q, hq, htree, htokens⟩ := exists_grouped_of_parseTokens h
    rwa [Phrase.eq_of_tokens_eq rfl htree htokens.symm]
  · intro h
    have hread : Parser.subexpr (2 * p.tokens.length + 2) 0 (p.tokens ++ []) = some (p.tree, []) := by
      refine Parser.subexpr_complete h p.first_pos trivial (by simp) fun fuel hfuel => ?_
      exact Parser.operators_stop (by omega) trivial
    rw [append_nil] at hread
    rw [parseTokens, hread]

end Retarget.Lua
