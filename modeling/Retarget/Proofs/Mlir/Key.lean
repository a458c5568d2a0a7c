import Retarget.Proofs.Mlir.Generate
import Retarget.Proofs.Mlir.Merge

/-!
# Keys of operations that can be merged

A text can be read back from its quoted form, so that a key tells which constant it belongs to, numbers aside.

* `key_inj_of_generate`: in generated programs, operations with the same key have the same attributes.
-/

namespace Retarget.Mlir

open List

/-- The first character of an escaped text, and the rest of the text. -/
def unescape : List Char → Option (Char × List Char)
  | '\\' :: '"' :: rest => some ('"', rest)
  | '\\' :: '\\' :: rest => some ('\\', rest)
  | '\\' :: 'n' :: rest => some ('\n', rest)
  | '\\' :: high :: low :: rest =>
    some (.ofNat (16 * (high.toNat - 48) + (low.toNat - if low.isDigit then 48 else 55)), rest)
  | c :: rest => some (c, rest)
  | [] => none

theorem unescape_escape (c : Char) (rest : List Char) : unescape ((escape c).toList ++ rest) = some (c, rest) := by
  have hhex : ∀ n : Fin 32, (Nat.digitChar (n / 16 % 16)).toUpper ∈ ['0', '1'] ∧ unescape
      ['\\', (Nat.digitChar (n / 16 % 16)).toUpper, (Nat.digitChar (n % 16)).toUpper] = some (.ofNat n, []) := by
    decide +kernel
  unfold escape
  split
  case h_4 hquote hslash hline =>
    split
    case isTrue hlow =>
      obtain ⟨hhigh, hvalue⟩ := hhex ⟨c.toNat, hlow⟩
      rcases mem_pair.1 hhigh with hd | hd <;> simp_all [unescape, hexPair, String.toUpper]
    case isFalse =>
      unfold unescape
      simp_all
  all_goals rfl

/-- The characters of a text, escaped. -/
def escaped (l : List Char) : List Char := l.flatMap fun c => (escape c).toList

theorem unescape_escaped (c : Char) (l : List Char) : unescape (escaped (c :: l)) = some (c, escaped l) :=
  unescape_escape c (escaped l)

theorem escaped_inj {l l' : List Char} (h : escaped l = escaped l') : l = l' := by
  induction l generalizing l' with
  | nil =>
    cases l' with
    | nil => rfl
    | cons c l' =>
      have hfirst := congrArg unescape h
      rw [unescape_escaped] at hfirst
      cases hfirst
  | cons c l ih =>
    have hfirst := congrArg unescape h
    rw [unescape_escaped] at hfirst
    cases l' with
    | nil => cases hfirst
    | cons c' l' =>
      rw [unescape_escaped] at hfirst
      obtain ⟨rfl, hrest⟩ := Prod.mk.inj (Option.some.inj hfirst)
      rw [ih hrest]

theorem toList_quote (s : String) : (quote s).toList = '"' :: (escaped s.toList ++ ['"']) := by
  simp [quote, escaped, String.toList_join, flatMap_def, Function.comp_def]

/-- The values of constants, numbers aside. -/
def Attr.isExact : Attr → Bool
  | string _ | boolean _ | null | undefined => true
  | number _ | strings _ | places _ => false

theorem Attr.text_inj {v v' : Attr} (h : v.isExact = true) (h' : v'.isExact = true) (heq : v.text = v'.text) :
    v = v' := by
  replace heq := congrArg String.toList heq
  rcases v with _ | s | (_ | _) | _ | _ | _ | _ <;> rcases v' with _ | s' | (_ | _) | _ | _ | _ | _ <;>
    simp_all [isExact, text, toList_quote]
  exact String.toList_inj.1 (escaped_inj heq)

theorem Head.Regular.attrsText_eq {h : Head} (hregular : h.Regular) (hmerge : h.opcode.isMergeable = true) :
    h.attrsText = h.value?.elim "" ("value=" ++ ·.text) := by
  rw [attrsText, hregular hmerge]
  cases h.value? <;> simp

/-- Operations of generated programs that can be merged and have the same key also have the same name, operands and
attributes, if the constants among them are no numbers. -/
theorem key_inj_of_generate {m m' : Module} {ops ops' : List Op} {h h' : Head} (hops : generate m = .ok ops)
    (hops' : generate m' = .ok ops') (hmem : Op.Occurs h ops) (hmem' : Op.Occurs h' ops')
    (hmerge : h.opcode.isMergeable = true) (hmerge' : h'.opcode.isMergeable = true)
    (hvalue : ∀ v, h.value? = some v → v.isExact = true) (hvalue' : ∀ v, h'.value? = some v → v.isExact = true)
    (hkey : h.key = h'.key) :
    h.opcode.name = h'.opcode.name ∧ h.operands = h'.operands ∧ h.attrs = h'.attrs := by
  obtain ⟨hname, hoperands, htext⟩ := Head.key_inj hkey
  have hregular := (generate_proper hops).1.regular h hmem
  have hregular' := (generate_proper hops').1.regular h' hmem'
  rw [hregular.attrsText_eq hmerge, hregular'.attrsText_eq hmerge'] at htext
  refine ⟨hname, hoperands, ?_⟩
  rw [hregular hmerge, hregular' hmerge']
  cases hv : h.value? <;> cases hv' : h'.value? <;> simp only [hv, hv', Option.elim] at htext
  case none.none => rfl
  case some.some v v' => rw [Attr.text_inj (hvalue v hv) (hvalue' v' hv') (by simpa using htext)]
  all_goals simp at htext

/-- A text with characters that are escaped, twice. -/
def texts : Module := .numbered [.string "\",\\\n\x01", .exprStmt 1, .string "\",\\\n\x01", .exprStmt 3] [2, 4]

theorem texts_key_inj : ∃ ops, generate texts = .ok ops ∧ ∃ h h', Op.Occurs h ops ∧ Op.Occurs h' ops ∧
    h.result ≠ h'.result ∧ h.key = h'.key ∧
      h.opcode.name = h'.opcode.name ∧ h.operands = h'.operands ∧ h.attrs = h'.attrs := by
  have hops : generate texts = .ok _ := rfl
  refine ⟨_, hops, _, _, .here, .later .here, by decide, rfl, ?_⟩
  refine key_inj_of_generate hops hops .here (.later .here) rfl rfl ?_ ?_ rfl
  all_goals
    rintro v ⟨⟩
    rfl

end Retarget.Mlir
