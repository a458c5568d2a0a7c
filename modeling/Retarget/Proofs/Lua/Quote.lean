import Mathlib.Data.List.Basic
import Mathlib.Tactic.IntervalCases
import Retarget.Lua.Text

/-!
# Strings as they are read

Lua reads a string byte by byte. After a backslash it takes up to three decimal digits if it can, so a number with
fewer digits would swallow digits of the string.

* `readString`: what is read after the opening quote, and the bytes behind the closing one. Escapes that only some
  versions of Lua know are left open.
* `quote_read`: what is written for a string is read as the bytes of the string.
-/

namespace Retarget.Lua

open List

def utf8 (s : String) : List UInt8 := s.toUTF8.data.toList

/-! ## Reading -/

/-- What the escape of a letter, a sign or a line break stands for. -/
def plainEscapes : List (UInt8 × UInt8) :=
  [(97, 7), (98, 8), (102, 12), (110, 10), (114, 13), (116, 9), (118, 11), (92, 92), (34, 34), (39, 39), (10, 10)]

def isDigitByte (b : UInt8) : Bool := 48 ≤ b && b ≤ 57

/-- The bytes that an escape stands for, and how many bytes it takes after the backslash. -/
abbrev Escape := List UInt8 → Option (List UInt8 × Nat)

/-- Up to three decimal digits, as many as there are, for a number that fits into a byte. -/
def decimalEscape : Escape := fun bytes =>
  let digits := (bytes.take 3).takeWhile isDigitByte
  let n := digits.foldl (fun n digit => 10 * n + (digit.toNat - 48)) 0
  if n < 256 then some ([.ofNat n], digits.length) else none

def readEscape (other : Escape) : Escape
  | [] => none
  | b :: rest =>
    match plainEscapes.lookup b with
    | some value => some ([value], 1)
    | none => if isDigitByte b then decimalEscape (b :: rest) else other (b :: rest)

def readString (other : Escape) : List UInt8 → Option (List UInt8 × List UInt8)
  | [] => none
  | b :: rest =>
    if b = 34 then some ([], rest)
    else if b = 10 ∨ b = 13 then none
    else
      match if b = 92 then readEscape other rest else some ([b], 0) with
      | none => none
      | some (value, taken) => (readString other (rest.drop taken)).map fun (more, rest) => (value ++ more, rest)
termination_by bytes => bytes.length
decreasing_by
  simp only [length_drop, length_cons]
  omega

/-- A string between double quotes at the start of a text. -/
def readLiteral (other : Escape) : List UInt8 → Option (List UInt8 × List UInt8)
  | 34 :: rest => readString other rest
  | _ => none

variable {other : Escape} {b : UInt8} {c : Char} {bytes rest : List UInt8}

/-! ## Characters -/

def encode (l : List Char) : List UInt8 := l.flatMap String.utf8EncodeChar

theorem utf8_ofList (l : List Char) : utf8 (String.ofList l) = encode l := by
  rw [utf8, String.toUTF8, String.toByteArray_ofList, List.utf8Encode, encode, List.data_toByteArray]

theorem readString_plain (h : ∀ b ∈ bytes, b ≠ 34 ∧ b ≠ 10 ∧ b ≠ 13 ∧ b ≠ 92) :
    readString other (bytes ++ rest) = (readString other rest).map fun (more, rest) => (bytes ++ more, rest) := by
  induction bytes with
  | nil => simp
  | cons b bytes ih =>
    obtain ⟨⟨hquote, hline, hreturn, hslash⟩, hrest⟩ := forall_mem_cons.1 h
    rw [cons_append, readString, if_neg hquote, if_neg (by simp [hline, hreturn]), if_neg hslash]
    simp [ih hrest, Function.comp_def]

theorem readString_escape (taken : List UInt8) {value : List UInt8}
    (h : readEscape other (taken ++ rest) = some (value, taken.length)) :
    readString other (92 :: (taken ++ rest)) =
      (readString other rest).map fun (more, rest) => (value ++ more, rest) := by
  rw [readString, h]
  simp

theorem encode_ascii (h : c.toNat < 128) : encode [c] = [.ofNat c.toNat] := by
  rw [encode, flatMap_singleton, String.utf8EncodeChar, if_pos (show c.val.toNat ≤ 127 from Nat.le_of_lt_succ h)]
  rfl

/-- The bytes of other characters are no ASCII characters. -/
theorem ne_of_mem_encode {d : Char} (hne : c ≠ d) (hd : d.toNat < 128) : ∀ b ∈ encode [c], b ≠ .ofNat d.toNat := by
  by_cases hc : c.toNat < 128
  · rw [encode_ascii hc]
    simp only [mem_singleton, forall_eq]
    intro heq
    have hmod := congrArg UInt8.toNat heq
    simp only [UInt8.toNat_ofNat'] at hmod
    exact hne (Char.toNat_inj.1 (by omega))
  · have hlarge : ∀ b ∈ encode [c], 128 ≤ b.toNat := by
      have hc : ¬c.val.toNat ≤ 127 := fun hle => hc (Nat.lt_succ_of_le hle)
      rw [encode, flatMap_singleton, String.utf8EncodeChar, if_neg hc]
      split
      · simp; omega
      · split <;> (simp; omega)
    rintro b hb rfl
    have := hlarge _ hb
    simp at this
    omega

theorem readEscape_threeDigits {n : Nat} (hn : n < 128) : readEscape other (encode (threeDigits n) ++ rest) =
    some ([.ofNat n], (encode (threeDigits n)).length) := by
  interval_cases n <;> rfl

/-- Every character is read as its bytes, whatever follows. -/
theorem readString_char : readString other (encode (escape c) ++ rest) =
    (readString other rest).map fun (more, rest) => (encode [c] ++ more, rest) := by
  unfold escape
  split
  case h_1 | h_2 | h_3 | h_4 | h_5 => exact readString_escape [_] rfl
  case h_6 hslash hquote hline hreturn htab =>
    split
    case isTrue hcontrol =>
      have hc : c.toNat < 128 := by
        simp at hcontrol
        omega
      rw [encode_ascii hc]
      exact readString_escape _ (readEscape_threeDigits hc)
    case isFalse =>
      refine readString_plain fun b hb => ⟨?_, ?_, ?_, ?_⟩
      · exact ne_of_mem_encode hquote (by decide) b hb
      · exact ne_of_mem_encode hline (by decide) b hb
      · exact ne_of_mem_encode hreturn (by decide) b hb
      · exact ne_of_mem_encode hslash (by decide) b hb

theorem readString_chars (l : List Char) :
    readString other (encode (l.flatMap escape) ++ 34 :: rest) = some (encode l, rest) := by
  induction l with
  | nil => simp [encode, readString]
  | cons c l ih =>
    have happend : encode ((c :: l).flatMap escape) = encode (escape c) ++ encode (l.flatMap escape) := by simp [encode]
    rw [happend, append_assoc, readString_char, ih]
    simp [encode]

/-- **What is written for a string is a literal** that stands for the bytes of the string and ends where it is meant to,
whatever follows; so different strings are written differently. -/
theorem quote_read (other : Escape) :
    (∀ s rest, readLiteral other (utf8 (quote s) ++ rest) = some (utf8 s, rest)) ∧ Function.Injective quote := by
  have hread (s : String) (rest : List UInt8) : readLiteral other (utf8 (quote s) ++ rest) = some (utf8 s, rest) := by
    have hquote : quote s = .ofList ('"' :: (s.toList.flatMap escape ++ ['"'])) := by
      simp [quote, String.ofList_cons, String.append_assoc]
    have hbytes : utf8 (quote s) ++ rest = 34 :: (encode (s.toList.flatMap escape) ++ 34 :: rest) := by
      rw [hquote, utf8_ofList]
      simp [encode]
      rfl
    rw [hbytes, readLiteral, readString_chars, ← utf8_ofList, String.ofList_toList]
  refine ⟨hread, fun s t h => ?_⟩
  have hsame := (hread s []).symm.trans (h ▸ hread t [])
  have hbytes : utf8 s = utf8 t := congrArg Prod.fst (Option.some.inj hsame)
  exact String.toByteArray_inj.1 (ByteArray.ext (Array.toList_inj.1 hbytes))

end Retarget.Lua
