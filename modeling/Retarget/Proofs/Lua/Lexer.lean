import Mathlib.Data.List.TakeWhile
import Retarget.Proofs.Lua.Grammar

/-!
# The tokens of a text

`lex` splits a text into tokens: it takes characters for as long as they continue the token before them.
`parse` reads a text as an operator tree.

* `lex_chars`: the text of a legible phrase is split into the tokens of the phrase.
* `isIdentifier_of_mem_lex`: the names among the tokens of a text are names of Lua.
-/

namespace Retarget.Lua

open List Option Phrase

/-! ## Splitting a text -/

/-- Symbols of two characters. Two minus signs start a comment, which no expression holds. -/
def doubleSymbols : List (List Char) :=
  [['<', '='], ['>', '='], ['=', '='], ['~', '='], ['.', '.'], ['<', '<'], ['>', '>'], ['/', '/'],
    ['-', '-']]

/-- Whether a character belongs to the token that the characters before it have started. -/
def continues (word : List Char) (c : Char) : Bool :=
  match word with
  | [] => false
  | first :: _ =>
    if isNameStart first then isNamePart c
    else if first.isDigit then
      isNamePart c || c == '.' || ((c == '-' || c == '+') && word.getLast? == some 'e')
    else doubleSymbols.contains (word ++ [c])

def isExponent : List Char → Bool
  | [] => true
  | 'e' :: '-' :: digits | 'e' :: '+' :: digits | 'e' :: digits => !digits.isEmpty && digits.all Char.isDigit
  | _ => false

/-- Whether characters are a number: digits, a fraction and an exponent. -/
def isNumeral (word : List Char) : Bool :=
  !(word.takeWhile Char.isDigit).isEmpty &&
    match word.dropWhile Char.isDigit with
    | '.' :: rest => isExponent (rest.dropWhile Char.isDigit)
    | rest => isExponent rest

def symbolTokens : List (List Char × Token) :=
  [(['('], .opening), ([')'], .closing), (['#'], .length), (['<'], .binary .lt), (['>'], .binary .gt),
    (['<', '='], .binary .le), (['>', '='], .binary .ge), (['~', '='], .binary .ne), (['=', '='], .binary .eq),
    (['|'], .binary .bor), (['~'], .binary .bxor), (['&'], .binary .band), (['<', '<'], .binary .shl),
    (['>', '>'], .binary .shr), (['.', '.'], .binary .concat), (['+'], .binary .add), (['-'], .binary .sub),
    (['*'], .binary .mul), (['/'], .binary .div), (['/', '/'], .binary .idiv), (['^'], .binary .pow)]

def wordToken? (word : List Char) : Option Token :=
  if word = ['o', 'r'] then some (.binary .or)
  else if word = ['a', 'n', 'd'] then some (.binary .and)
  else if word = ['n', 'o', 't'] then some .not
  else if isIdentifier (String.ofList word) then some (.name (String.ofList word))
  else none

def token? (word : List Char) : Option Token :=
  match word with
  | [] => none
  | first :: _ =>
    if isNameStart first then wordToken? word
    else if first.isDigit then
      if isNumeral word then some (.numeral (String.ofList word)) else none
    else symbolTokens.lookup word

def taken (word : List Char) : Option (List Token) :=
  if word.isEmpty then some [] else (token? word).map ([·])

/-- The tokens of a text, of which `word` has been taken. -/
def lexFrom (word : List Char) : List Char → Option (List Token)
  | [] => taken word
  | c :: rest =>
    if continues word c then lexFrom (word ++ [c]) rest
    else (taken word).bind fun before =>
      (lexFrom (if c.isWhitespace then [] else [c]) rest).map (before ++ ·)

def lex (text : List Char) : Option (List Token) := lexFrom [] text

def parse (text : String) : Option Tree := (lex text.toList).bind parseTokens

/-! ## Names among the tokens -/

variable {word : List Char} {s : String}

theorem isIdentifier_of_token? (h : token? word = some (.name s)) : isIdentifier s = true := by
  unfold token? at h
  split at h
  · cases h
  · split at h
    · unfold wordToken? at h
      split at h
      · cases h
      split at h
      · cases h
      split at h
      · cases h
      split at h
      case isTrue hid =>
        cases h
        exact hid
      · cases h
    · split at h
      · split at h <;> cases h
      · obtain ⟨before, after, htable, -⟩ := lookup_eq_some_iff.1 h
        have hmem : (_, Token.name s) ∈ symbolTokens := htable ▸ mem_append_right _ (mem_cons_self ..)
        simp [symbolTokens] at hmem

variable {tokens : List Token} {u : List Char}

theorem isIdentifier_of_mem_taken (h : taken word = some tokens) (hs : .name s ∈ tokens) : isIdentifier s = true := by
  unfold taken at h
  split at h
  · cases h
    cases hs
  · obtain ⟨t, ht, rfl⟩ := map_eq_some_iff.1 h
    obtain rfl := mem_singleton.1 hs
    exact isIdentifier_of_token? ht

theorem isIdentifier_of_mem_lexFrom {text : List Char} (h : lexFrom word text = some tokens) (hs : .name s ∈ tokens) :
    isIdentifier s = true := by
  induction text generalizing word tokens with
  | nil => exact isIdentifier_of_mem_taken h hs
  | cons c rest ih =>
    rw [lexFrom] at h
    split at h
    · exact ih h hs
    · obtain ⟨before, hbefore, h⟩ := bind_eq_some_iff.1 h
      obtain ⟨after, hafter, rfl⟩ := map_eq_some_iff.1 h
      rcases mem_append.1 hs with hs | hs
      · exact isIdentifier_of_mem_taken hbefore hs
      · exact ih hafter hs

/-! ## Tokens in a row -/

def Runs : List Char → List Char → Prop
  | _, [] => True
  | word, c :: rest => continues word c = true ∧ Runs (word ++ [c]) rest

theorem runs_append {v : List Char} : Runs word (u ++ v) ↔ Runs word u ∧ Runs (word ++ u) v := by
  induction u generalizing word with
  | nil => simp [Runs]
  | cons c u ih => simp [Runs, ih, and_assoc]

variable {rest : List Char}

theorem lexFrom_runs (h : Runs word u) : lexFrom word (u ++ rest) = lexFrom (word ++ u) rest := by
  induction u generalizing word with
  | nil => simp
  | cons c u ih =>
    rw [cons_append, lexFrom, if_pos h.1, ih h.2]
    simp

def Breaks (word : List Char) : List Char → Prop
  | [] => True
  | c :: _ => continues word c = false

theorem lexFrom_start {c : Char} : lexFrom [] (c :: rest) = lexFrom (if c.isWhitespace then [] else [c]) rest := by
  rw [lexFrom, if_neg (by simp [continues])]
  simp [taken]

variable {c : Char}

theorem lex_word {t : Token} (hc : c.isWhitespace = false)
    (hrun : Runs [c] word) (ht : token? (c :: word) = some t) (hbreak : Breaks (c :: word) rest) :
    lex (c :: word ++ rest) = (lex rest).map (t :: ·) := by
  have htaken : taken (c :: word) = some [t] := by simp [taken, ht]
  rw [lex, cons_append, lexFrom_start, hc, if_neg (by simp), lexFrom_runs hrun, singleton_append]
  cases rest with
  | nil => rw [lexFrom, htaken]; rfl
  | cons d rest =>
    rw [lexFrom, if_neg (by simpa [Breaks] using hbreak), htaken, lex, lexFrom_start]
    rfl

theorem lex_blank (rest : List Char) : lex (' ' :: rest) = lex rest := by
  rw [lex, lexFrom_start]
  rfl

/-! ## Names, numbers and operators -/

/-- What can follow an operand: nothing, a blank or the end of parentheses. -/
def Ends : List Char → Prop
  | [] => True
  | c :: _ => c = ' ' ∨ c = ')'

theorem Ends.blank (rest : List Char) : Ends (' ' :: rest) := .inl rfl

theorem Ends.closing : Ends ([')'] ++ rest) := .inr rfl

theorem Ends.breaks (h : Ends rest) (hc : isNameStart c = true ∨ c.isDigit = true) : Breaks (c :: word) rest := by
  cases rest with
  | nil => trivial
  | cons d rest =>
    have hd : isNamePart d = false ∧ (d == '.') = false ∧ (d == '-' || d == '+') = false := by
      rcases h with rfl | rfl <;> decide
    unfold Breaks continues
    rcases hc with hc | hc
    · simp [hc, hd.1]
    · by_cases hs : isNameStart c = true
      · simp [hs, hd.1]
      · simp [hs, hc, hd.1, hd.2.1, hd.2.2]

theorem isWhitespace_of_start (hc : isNameStart c = true ∨ c.isDigit = true) : c.isWhitespace = false := by
  rw [Bool.eq_false_iff]
  intro hw
  simp only [Char.isWhitespace, Bool.or_eq_true, decide_eq_true_eq] at hw
  rcases hw with ((rfl | rfl) | rfl) | rfl <;> revert hc <;> decide

def BinaryOp.chars : BinaryOp → List Char
  | or => ['o', 'r']
  | and => ['a', 'n', 'd']
  | lt => ['<']
  | gt => ['>']
  | le => ['<', '=']
  | ge => ['>', '=']
  | ne => ['~', '=']
  | eq => ['=', '=']
  | bor => ['|']
  | bxor => ['~']
  | band => ['&']
  | shl => ['<', '<']
  | shr => ['>', '>']
  | concat => ['.', '.']
  | add => ['+']
  | sub => ['-']
  | mul => ['*']
  | div => ['/']
  | idiv => ['/', '/']
  | pow => ['^']

theorem BinaryOp.toList_symbol (op : BinaryOp) : op.symbol.toList = op.chars := by cases op <;> rfl

theorem lex_binary {op : BinaryOp} : lex (op.chars ++ ' ' :: rest) = (lex rest).map (.binary op :: ·) := by
  rw [← lex_blank rest]
  cases op <;> exact lex_word rfl (by simp [Runs]; try decide) rfl rfl

def UnaryOp.chars : UnaryOp → List Char
  | neg => ['-']
  | not => ['n', 'o', 't', ' ']
  | bnot => ['~']
  | length => ['#']

theorem UnaryOp.toList_symbol (op : UnaryOp) : op.symbol.toList = op.chars := by cases op <;> rfl

theorem breaks_symbol (hc : isNameStart c = false) (hd : c.isDigit = false)
    (h : ∀ d, rest.head? = some d → doubleSymbols.contains [c, d] = false) : Breaks [c] rest := by
  cases rest with
  | nil => trivial
  | cons d rest =>
    simp only [Breaks, continues, hc, hd, Bool.false_eq_true, if_false]
    exact h d rfl

theorem lex_unary (op : UnaryOp) (h : ∀ c, rest.head? = some c → c ≠ '-' ∧ c ≠ '=') :
    lex (op.chars ++ rest) = (lex rest).map (op.token :: ·) := by
  have hdouble {c : Char} (hc : c = '-' ∨ c = '~' ∨ c = '#') :
      ∀ d, rest.head? = some d → doubleSymbols.contains [c, d] = false := by
    intro d hd
    obtain ⟨h1, h2⟩ := h d hd
    rcases hc with rfl | rfl | rfl <;> simp [doubleSymbols, h1, h2]
  cases op with
  | not =>
    change lex ('n' :: ['o', 't'] ++ ' ' :: rest) = _
    rw [← lex_blank rest]
    exact lex_word rfl ⟨rfl, rfl, trivial⟩ rfl rfl
  | _ => exact lex_word rfl trivial rfl (breaks_symbol rfl rfl (hdouble (by decide)))

theorem lex_opening : lex (['('] ++ rest) = (lex rest).map (.opening :: ·) :=
  lex_word rfl trivial rfl (breaks_symbol rfl rfl fun d _ => by simp [doubleSymbols])

theorem lex_closing : lex ([')'] ++ rest) = (lex rest).map (.closing :: ·) :=
  lex_word rfl trivial rfl (breaks_symbol rfl rfl fun d _ => by simp [doubleSymbols])

/-! ## The text of a phrase -/

namespace Phrase

def chars : Phrase → List Char
  | name s | numeral s => s.toList
  | paren inner => '(' :: inner.chars ++ [')']
  | binary op left right => left.chars ++ ' ' :: op.chars ++ ' ' :: right.chars
  | unary op operand => op.chars ++ operand.chars

/-- Whether the tokens of a phrase can be told apart in its text. -/
def Legible : Phrase → Prop
  | name s => isIdentifier s = true
  | numeral s => isNumeral s.toList = true
  | paren inner => inner.Legible
  | binary _ left right => left.Legible ∧ right.Legible
  | unary _ operand => operand.Legible ∧ ∀ c, operand.chars.head? = some c → c ≠ '-' ∧ c ≠ '='

end Phrase

theorem lex_name (hs : isIdentifier s = true) (hrest : Ends rest) :
    lex (s.toList ++ rest) = (lex rest).map (.name s :: ·) := by
  obtain ⟨c, more, hcs, hstart, hmore, hkey⟩ : ∃ c more, s.toList = c :: more ∧ isNameStart c = true ∧
      more.all isNamePart = true ∧ keywords.contains s = false := by
    unfold isIdentifier at hs
    split at hs
    · cases hs
    case h_2 c more hcs =>
      simp only [Bool.and_eq_true, Bool.not_eq_true'] at hs
      exact ⟨c, more, hcs, hs.1.1, hs.1.2, hs.2⟩
  have hrun : ∀ word, Runs (c :: word) more := by
    clear hcs
    induction more with
    | nil => exact fun _ => trivial
    | cons d more ih =>
      simp only [all_cons, Bool.and_eq_true] at hmore
      exact fun word => ⟨by simp [continues, hstart, hmore.1], ih hmore.2 (word ++ [d])⟩
  have htoken : token? (c :: more) = some (.name s) := by
    have hword : String.ofList (c :: more) = s := by rw [← hcs, String.ofList_toList]
    have hne {word : List Char} (hw : String.ofList word ∈ keywords) : c :: more ≠ word := by
      rintro rfl
      rw [hword] at hw
      simp [hw] at hkey
    have hor : c :: more ≠ ['o', 'r'] := hne (by decide)
    have hand : c :: more ≠ ['a', 'n', 'd'] := hne (by decide)
    have hnot : c :: more ≠ ['n', 'o', 't'] := hne (by decide)
    simp only [token?, hstart, wordToken?, if_neg hor, if_neg hand, if_neg hnot, hword, hs, if_true]
  rw [hcs]
  exact lex_word (isWhitespace_of_start (.inl hstart)) (hrun []) htoken (hrest.breaks (.inl hstart))

section

variable (hc : c.isDigit = true)
include hc

theorem isNamePart_of_isDigit : isNamePart c = true := by
  simp [isNamePart, Char.isAlphanum, hc]

theorem isNameStart_of_isDigit : isNameStart c = false := by
  have hle : c.val.toNat ≤ 57 := UInt32.le_iff_toNat_le.1 (of_decide_eq_true (Bool.and_eq_true_iff.1 hc).2)
  have hupper : c.isUpper = false := decide_eq_false fun h => by
    have : 65 ≤ c.val.toNat := UInt32.le_iff_toNat_le.1 h.1
    omega
  have hlower : c.isLower = false := by
    refine Bool.and_eq_false_iff.2 (.inl (decide_eq_false fun h => ?_))
    have : 97 ≤ c.val.toNat := UInt32.le_iff_toNat_le.1 h
    omega
  have hne : (c == '_') = false := by
    rw [beq_eq_false_iff_ne]
    rintro rfl
    revert hc
    decide
  change (c.isUpper || c.isLower || c == '_') = false
  rw [hupper, hlower, hne]
  rfl

theorem runs_number (h : ∀ d ∈ rest, isNamePart d = true ∨ d = '.') : Runs (c :: word) rest := by
  have hstart := isNameStart_of_isDigit hc
  induction rest generalizing word with
  | nil => trivial
  | cons d rest ih =>
    refine ⟨?_, ih fun e he => h e (mem_cons_of_mem d he)⟩
    rcases h d (mem_cons_self ..) with hd | rfl
    · simp [continues, hstart, hc, hd]
    · simp [continues, hstart, hc]

theorem runs_exponent (h : isExponent rest = true) : Runs (c :: word) rest := by
  have hstart := isNameStart_of_isDigit hc
  have hdigits {word digits : List Char} (h : (!digits.isEmpty && digits.all Char.isDigit) = true) :
      Runs (c :: word) digits := by
    simp only [Bool.and_eq_true, List.all_eq_true] at h
    exact runs_number hc fun d hd => .inl (isNamePart_of_isDigit (h.2 d hd))
  have he : continues (c :: word) 'e' = true := by
    simp [continues, hstart, hc, show isNamePart 'e' = true from rfl]
  have hsign {sign : Char} (hs : sign = '-' ∨ sign = '+') :
      continues (c :: (word ++ ['e'])) sign = true := by
    have hlast : (c :: (word ++ ['e'])).getLast? = some 'e' := by
      rw [← cons_append, List.getLast?_concat]
    simp only [continues, hstart, hc, hlast]
    rcases hs with rfl | rfl <;> simp
  unfold isExponent at h
  split at h
  · trivial
  · exact ⟨he, hsign (.inl rfl), hdigits h⟩
  · exact ⟨he, hsign (.inr rfl), hdigits h⟩
  · exact ⟨he, hdigits h⟩
  · cases h

theorem runs_takeWhile : Runs (c :: word) (rest.takeWhile Char.isDigit) :=
  runs_number hc fun _ hd => .inl (isNamePart_of_isDigit (mem_takeWhile_imp hd))

end

theorem runs_numeral (h : isNumeral (c :: word) = true) : c.isDigit = true ∧ Runs [c] word := by
  have hc : c.isDigit = true := by
    by_contra hc
    simp [isNumeral, hc] at h
  refine ⟨hc, ?_⟩
  simp only [isNumeral, dropWhile_cons, hc, if_true, Bool.and_eq_true] at h
  rw [← takeWhile_append_dropWhile (l := word), runs_append]
  refine ⟨runs_takeWhile hc, ?_⟩
  obtain ⟨-, h⟩ := h
  split at h
  case h_1 fraction hfraction =>
    rw [hfraction, ← takeWhile_append_dropWhile (l := fraction), ← cons_append,
      runs_append]
    refine ⟨runs_number hc fun d hd => ?_, runs_exponent hc h⟩
    rcases mem_cons.1 hd with rfl | hd
    · exact .inr rfl
    · exact .inl (isNamePart_of_isDigit (mem_takeWhile_imp hd))
  case h_2 => exact runs_exponent hc h

theorem lex_numeral (hs : isNumeral s.toList = true) (hrest : Ends rest) :
    lex (s.toList ++ rest) = (lex rest).map (.numeral s :: ·) := by
  obtain ⟨c, word, hword⟩ : ∃ c word, s.toList = c :: word := by
    cases h : s.toList with
    | nil => simp [h, isNumeral] at hs
    | cons c word => exact ⟨c, word, rfl⟩
  rw [hword] at hs ⊢
  obtain ⟨hc, hrun⟩ := runs_numeral hs
  have htoken : token? (c :: word) = some (.numeral s) := by
    simp only [token?, isNameStart_of_isDigit hc, hc, hs, if_true, Bool.false_eq_true, if_false]
    rw [← hword, String.ofList_toList]
  exact lex_word (isWhitespace_of_start (.inr hc)) hrun htoken (hrest.breaks (.inr hc))

/-- **The text of a legible phrase is split into its tokens.** -/
theorem lex_chars {p : Phrase} (hp : p.Legible) (hrest : Ends rest) :
    lex (p.chars ++ rest) = (lex rest).map (p.tokens ++ ·) := by
  induction p generalizing rest with
  | name s => exact lex_name hp hrest
  | numeral s => exact lex_numeral hp hrest
  | paren inner ih =>
    have htext : (paren inner).chars ++ rest = ['('] ++ (inner.chars ++ ([')'] ++ rest)) := by
      simp [chars]
    rw [htext, lex_opening, ih hp Ends.closing, lex_closing]
    simp [tokens, Function.comp_def]
  | binary op left right ihl ihr =>
    have hl := ihl hp.1 (Ends.blank (op.chars ++ ' ' :: (right.chars ++ rest)))
    simp only [chars, tokens, cons_append, append_assoc]
    rw [hl, lex_blank, lex_binary, ihr hp.2 hrest]
    simp [Function.comp_def]
  | unary op operand ih =>
    have hhead : ∀ c, (operand.chars ++ rest).head? = some c → c ≠ '-' ∧ c ≠ '=' := by
      intro c hc
      rw [List.head?_append, or_eq_some_iff] at hc
      rcases hc with hc | ⟨-, hc⟩
      · exact hp.2 c hc
      · cases rest with
        | nil => cases hc
        | cons d rest =>
          obtain rfl := some.inj hc
          rcases hrest with rfl | rfl <;> decide
    simp only [chars, tokens, append_assoc]
    rw [lex_unary op hhead, ih hp.1 hrest]
    simp [Function.comp_def]

end Retarget.Lua
