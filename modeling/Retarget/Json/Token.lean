import Retarget.Json.Basic

/-!
# JSON tokens

`Json.tokens?` splits a text into tokens by a machine that reads one character at a time. Literals and
numbers are collected as maximal runs of word characters and classified when the run ends. A text with a
raw control character or half a surrogate pair in a string, an unknown word, or a number that is too large
for a double has no tokens.
-/

namespace Retarget.Json

inductive Token where
  | openArray
  | closeArray
  | openObject
  | closeObject
  | comma
  | colon
  | str (s : String)
  | atom (value : Json)

def digitsValue (digits : List Char) : Nat :=
  digits.foldl (fun n c => 10 * n + (c.toNat - '0'.toNat)) 0

structure NumberText where
  negative : Bool
  whole : List Char
  fraction : List Char
  float : Bool
  exponent : Int

def exponentText? : List Char → Option Int
  | [] => some 0
  | mark :: rest =>
    if mark == 'e' || mark == 'E' then
      let (negative, digits) :=
        match rest with
        | '+' :: ds => (false, ds)
        | '-' :: ds => (true, ds)
        | ds => (false, ds)
      if digits.isEmpty || !digits.all Char.isDigit then none
      else some (if negative then -(digitsValue digits : Int) else digitsValue digits)
    else none

def numberParts? (word : List Char) : Option NumberText := do
  let (negative, word) :=
    match word with
    | '-' :: rest => (true, rest)
    | rest => (false, rest)
  let whole := word.takeWhile Char.isDigit
  let rest := word.dropWhile Char.isDigit
  if whole.isEmpty || (whole.length != 1 && whole.head? == some '0') then none
  else
    match rest with
    | '.' :: rest =>
      let fraction := rest.takeWhile Char.isDigit
      let rest := rest.dropWhile Char.isDigit
      if fraction.isEmpty then none
      else return ⟨negative, whole, fraction, true, ← exponentText? rest⟩
    | rest => return ⟨negative, whole, [], !rest.isEmpty, ← exponentText? rest⟩

/-- The nearest double of a number as written; `none` if it is infinite. Exponents out of reach are settled
without computing the power. -/
def NumberText.toFloat? (t : NumberText) : Option Float :=
  let digits := digitsValue (t.whole ++ t.fraction)
  let e := t.exponent - t.fraction.length
  let magnitude? : Option Float :=
    if digits == 0 then some 0.0
    else
      let size := e + (t.whole ++ t.fraction).length
      if size < -400 then some 0.0
      else if 2000 + (t.whole ++ t.fraction).length < size then none
      else
        let x := Float.ofScientific digits (e < 0) e.natAbs
        if x.isFinite then some x else none
  magnitude?.map fun x => if t.negative then -x else x

/-- The number a text stands for: an integer if it is written as one, is not `-0`, and fits 64 bits. -/
def NumberText.toNumber? (t : NumberText) : Option Number :=
  let n := digitsValue t.whole
  if !t.float && t.negative && 0 < n && n ≤ 0x8000000000000000 then some (.int (-(n : Int)))
  else if !t.float && !t.negative && n < 0x10000000000000000 then some (.int n)
  else t.toFloat?.map .float

def word? (word : List Char) : Option Json :=
  match String.ofList word with
  | "null" => some .null
  | "true" => some (.bool true)
  | "false" => some (.bool false)
  | _ => do return .num (← (← numberParts? word).toNumber?)

/-- What has been read of the token at hand. Strings and words are kept in reverse. -/
inductive Lexer.Mode where
  | between
  | word (taken : List Char)
  | text (taken : List Char)
  | escape (taken : List Char)
  /-- In `\uXXXX`, after `count` digits; `high` is the first half of a surrogate pair. -/
  | unicode (taken : List Char) (high : Option Nat) (count value : Nat)
  /-- After the first half of a surrogate pair, where `\u` has to follow. -/
  | pairBackslash (taken : List Char) (high : Nat)
  | pairLetter (taken : List Char) (high : Nat)

/-- The lexer between two characters; tokens are kept in reverse. -/
structure Lexer where
  mode : Lexer.Mode := .between
  tokens : List Token := []

namespace Lexer

def escaped? : Char → Option Char
  | '"' => some '"'
  | '\\' => some '\\'
  | '/' => some '/'
  | 'b' => some '\x08'
  | 'f' => some '\x0c'
  | 'n' => some '\n'
  | 'r' => some '\r'
  | 't' => some '\t'
  | _ => none

def hexValue? (c : Char) : Option Nat :=
  if '0' ≤ c && c ≤ '9' then some (c.toNat - '0'.toNat)
  else if 'a' ≤ c && c ≤ 'f' then some (c.toNat - 'a'.toNat + 10)
  else if 'A' ≤ c && c ≤ 'F' then some (c.toNat - 'A'.toNat + 10)
  else none

def isWord (c : Char) : Bool := c.isAlphanum || c == '+' || c == '-' || c == '.'

def between (tokens : List Token) (c : Char) : Option Lexer :=
  match c with
  | ' ' | '\n' | '\r' | '\t' => some ⟨.between, tokens⟩
  | '[' => some ⟨.between, .openArray :: tokens⟩
  | ']' => some ⟨.between, .closeArray :: tokens⟩
  | '\x7b' => some ⟨.between, .openObject :: tokens⟩
  | '\x7d' => some ⟨.between, .closeObject :: tokens⟩
  | ',' => some ⟨.between, .comma :: tokens⟩
  | ':' => some ⟨.between, .colon :: tokens⟩
  | '"' => some ⟨.text [], tokens⟩
  | c => if isWord c then some ⟨.word [c], tokens⟩ else none

/-- The mode after the four digits of a `\uXXXX` escape. -/
def afterUnicode (taken : List Char) (high : Option Nat) (value : Nat) : Option Mode :=
  match high with
  | none =>
    if 0xD800 ≤ value && value < 0xDC00 then some (.pairBackslash taken value)
    else if 0xDC00 ≤ value && value < 0xE000 then none
    else some (.text (Char.ofNat value :: taken))
  | some high =>
    if 0xDC00 ≤ value && value < 0xE000 then
      let point := 0x10000 + (high - 0xD800) * 0x400 + (value - 0xDC00)
      some (.text (Char.ofNat point :: taken))
    else none

def step (s : Lexer) (c : Char) : Option Lexer :=
  match s.mode with
  | .between => between s.tokens c
  | .word taken =>
    if isWord c then some ⟨.word (c :: taken), s.tokens⟩
    else do between (.atom (← word? taken.reverse) :: s.tokens) c
  | .text taken =>
    if c == '"' then some ⟨.between, .str (String.ofList taken.reverse) :: s.tokens⟩
    else if c == '\\' then some ⟨.escape taken, s.tokens⟩
    else if c.toNat < 32 then none
    else some ⟨.text (c :: taken), s.tokens⟩
  | .escape taken =>
    if c == 'u' then some ⟨.unicode taken none 0 0, s.tokens⟩
    else (escaped? c).map fun c => ⟨.text (c :: taken), s.tokens⟩
  | .unicode taken high count value => do
    let value := 16 * value + (← hexValue? c)
    if count == 3 then return ⟨← afterUnicode taken high value, s.tokens⟩
    else return ⟨.unicode taken high (count + 1) value, s.tokens⟩
  | .pairBackslash taken high =>
    if c == '\\' then some ⟨.pairLetter taken high, s.tokens⟩ else none
  | .pairLetter taken high =>
    if c == 'u' then some ⟨.unicode taken (some high) 0 0, s.tokens⟩ else none

def finish? (s : Lexer) : Option (List Token) :=
  match s.mode with
  | .between => some s.tokens.reverse
  | .word taken => do return (.atom (← word? taken.reverse) :: s.tokens).reverse
  | _ => none

end Lexer

def tokens? (text : String) : Option (List Token) := do
  (← text.toList.foldlM Lexer.step {}).finish?

end Retarget.Json
