import Retarget.Proofs.Lua.Lexer

/-!
# Numbers are written as numerals

`isNumeral_numberText`: a natural number is written as one numeral of Lua, be it with all its digits or, from
`wholeLimit` on, in the layout of other numbers.
-/

namespace Retarget.Lua

open List Option FloatLayout

structure IsNatural (x : Float) : Prop where
  not_nan : x.isNaN = false
  not_inf : x.isInf = false
  not_neg : ¬x < 0
  value : ∃ (b : Binary64) (n : Nat), Binary64.ofFloat? x = some b ∧ b.toInt? = some (n : Int)

/-! ## Shapes of numerals -/

variable {digits fraction rest : List Char}

theorem dropWhile_digits (hd : ∀ c ∈ digits, c.isDigit = true) (hr : ∀ c, rest.head? = some c → c.isDigit = false) :
    (digits ++ rest).dropWhile Char.isDigit = rest := by
  induction digits with
  | nil =>
    cases rest with
    | nil => rfl
    | cons c rest => simp [hr c rfl]
  | cons c digits ih =>
    rw [cons_append, dropWhile_cons, if_pos (hd c (mem_cons_self ..))]
    exact ih fun d h => hd d (mem_cons_of_mem c h)

theorem head?_of_isExponent (h : isExponent rest = true) {c : Char} (hc : rest.head? = some c) : c = 'e' := by
  unfold isExponent at h
  split at h
  · cases hc
  all_goals first | exact (some.inj hc).symm | cases h

theorem takeWhile_digits_ne_nil (hne : digits ≠ []) (hd : ∀ c ∈ digits, c.isDigit = true) :
    ((digits ++ rest).takeWhile Char.isDigit).isEmpty = false := by
  cases digits with
  | nil => exact absurd rfl hne
  | cons c digits => simp [hd c (mem_cons_self ..)]

theorem isNumeral_whole (hne : digits ≠ []) (hd : ∀ c ∈ digits, c.isDigit = true)
    (hr : isExponent rest = true) : isNumeral (digits ++ rest) = true := by
  have hhead (c : Char) (hc : rest.head? = some c) : c.isDigit = false := by
    rw [head?_of_isExponent hr hc]
    rfl
  rw [isNumeral, takeWhile_digits_ne_nil hne hd, dropWhile_digits hd hhead]
  split
  case h_1 => cases hr
  case h_2 => exact hr

theorem isNumeral_fraction (hne : digits ≠ []) (hd : ∀ c ∈ digits, c.isDigit = true)
    (hf : ∀ c ∈ fraction, c.isDigit = true) (hr : isExponent rest = true) :
    isNumeral (digits ++ '.' :: (fraction ++ rest)) = true := by
  have hpoint (c : Char) (hc : ('.' :: (fraction ++ rest)).head? = some c) : c.isDigit = false := by
    obtain rfl := some.inj hc
    rfl
  have hhead (c : Char) (hc : rest.head? = some c) : c.isDigit = false := by
    rw [head?_of_isExponent hr hc]
    rfl
  rw [isNumeral, takeWhile_digits_ne_nil hne hd, dropWhile_digits hd hpoint]
  simp only [dropWhile_digits hf hhead]
  exact hr

variable {n : Nat} {x : Float} {b : Binary64} {layout : FloatLayout}

theorem isDigit_of_mem_toDigits : ∀ c ∈ Nat.toDigits 10 n, c.isDigit = true :=
  fun _ => Nat.isDigit_of_mem_toDigits (by decide) (by decide)

/-! ## Layouts -/

theorem isExponent_suffix {sign : List Char} (hsign : sign = ['-'] ∨ sign = ['+'] ∨ sign = []) (n : Nat) :
    isExponent ('e' :: (sign ++ Nat.toDigits 10 n)) = true := by
  have hall : (Nat.toDigits 10 n).all Char.isDigit = true := all_eq_true.2 isDigit_of_mem_toDigits
  have hne : (Nat.toDigits 10 n).isEmpty = false := by
    rw [isEmpty_eq_false_iff]
    exact Nat.toDigits_ne_nil
  rcases hsign with rfl | rfl | rfl
  · simp [isExponent, hall, hne]
  · simp [isExponent, hall, hne]
  · have hhead (c : Char) (more : List Char) (h : Nat.toDigits 10 n = c :: more) : c.isDigit = true :=
      isDigit_of_mem_toDigits c (h ▸ mem_cons_self ..)
    unfold isExponent
    split
    case h_1 heq => cases heq
    case h_2 more heq => cases hhead _ _ (cons.inj heq).2
    case h_3 more heq => cases hhead _ _ (cons.inj heq).2
    case h_4 more _ _ heq =>
      obtain rfl := (cons.inj heq).2
      simp [hall, hne]
    case h_5 hne => exact absurd rfl (hne _)

theorem isDigit_of_mem_zeros : ∀ c ∈ replicate n '0', c.isDigit = true := by
  intro c hc
  rw [eq_of_mem_replicate hc]
  rfl

theorem isNumeral_point (hne : digits ≠ []) (hd : ∀ c ∈ digits, c.isDigit = true)
    (hf : ∀ c ∈ fraction, c.isDigit = true) : isNumeral (digits ++ '.' :: fraction) = true := by
  simpa using isNumeral_fraction hne hd hf (show isExponent [] = true from rfl)

theorem isNumeral_placePoint (hne : digits ≠ []) (hd : ∀ c ∈ digits, c.isDigit = true) {point : Int} :
    isNumeral (layout.placePoint digits point).toList = true := by
  unfold placePoint
  dsimp only
  split
  · have hf : ∀ c ∈ replicate (-point).toNat '0' ++ digits, c.isDigit = true := by
      intro c hc
      exact (mem_append.1 hc).elim (isDigit_of_mem_zeros c) (hd c)
    have h : isNumeral (['0'] ++ '.' :: (replicate (-point).toNat '0' ++ digits)) = true :=
      isNumeral_point (by simp) (by simp) hf
    simpa [copies] using h
  split
  · have hwhole : ∀ c ∈ digits ++ replicate (point.toNat - digits.length) '0', c.isDigit = true := by
      intro c hc
      exact (mem_append.1 hc).elim (hd c) (isDigit_of_mem_zeros c)
    have hne : digits ++ replicate (point.toNat - digits.length) '0' ≠ [] := by simp [hne]
    cases layout.pointZero with
    | true =>
      have h := isNumeral_point hne hwhole (isDigit_of_mem_zeros (n := 1))
      simpa [copies] using h
    | false =>
      have h := isNumeral_whole hne hwhole (show isExponent [] = true from rfl)
      simpa [copies] using h
  · have htake : digits.take point.toNat ≠ [] := by
      simp only [ne_eq, take_eq_nil_iff, hne, or_false]
      omega
    have h := isNumeral_point htake (fun c hc => hd c (mem_of_mem_take hc))
      (fun c hc => hd c (mem_of_mem_drop hc) : ∀ c ∈ digits.drop point.toNat, c.isDigit = true)
    simpa using h

theorem isNumeral_withExponent (layout : FloatLayout) (hne : digits ≠ [])
    (hd : ∀ c ∈ digits, c.isDigit = true) (e : Int) : isNumeral (layout.withExponent digits e).toList = true := by
  obtain ⟨sign, hsign, htext⟩ : ∃ sign : String, (sign.toList = ['-'] ∨ sign.toList = ['+'] ∨ sign.toList = []) ∧
      (if e < 0 then "-" else if layout.plusSign then "+" else "") = sign := by
    refine ⟨_, ?_, rfl⟩
    split
    · exact .inl rfl
    · split
      · exact .inr (.inl rfl)
      · exact .inr (.inr rfl)
  have hexp := isExponent_suffix hsign e.natAbs
  unfold withExponent
  simp only [htext]
  match digits with
  | [] => exact absurd rfl hne
  | [d] =>
    have h := isNumeral_whole hne hd hexp
    simpa using h
  | d :: d' :: more =>
    have hfirst : ∀ c ∈ [d], c.isDigit = true := fun c hc => hd c (by simp_all)
    have h := isNumeral_fraction (by simp) hfirst (fun c hc => hd c (mem_cons_of_mem d hc)) hexp
    simpa using h

theorem isNumeral_magnitude {d : Decimal} : isNumeral (layout.magnitude d).toList = true := by
  unfold magnitude
  split
  · split <;> rfl
  · have hne : Nat.toDigits 10 d.digits ≠ [] := Nat.toDigits_ne_nil
    dsimp only
    split
    · exact isNumeral_placePoint hne isDigit_of_mem_toDigits
    · split
      · exact isNumeral_placePoint hne isDigit_of_mem_toDigits
      · exact isNumeral_withExponent layout hne isDigit_of_mem_toDigits _

theorem wholeNumber?_eq {n : Int} (hb : Binary64.ofFloat? x = some b) (hn : b.toInt? = some n)
    (hneg : -wholeLimit < n) : wholeNumber? x = if n < wholeLimit then some n else none := by
  unfold wholeNumber?
  -- the limit is a large number that must not be unfolded
  simp [hb, hn, hneg]

theorem negative_eq_false (hn : b.toInt? = some (n : Int)) (hpos : 0 < n) : b.negative = false := by
  obtain ⟨k, hk, hkn⟩ := map_eq_some_iff.1 hn
  obtain ⟨a, -, ha⟩ := bind_eq_some_iff.1 hk
  obtain rfl : (a : Int) = k := some.inj ha
  by_contra hneg
  rw [if_pos (by simpa using hneg)] at hkn
  omega

/-- **A natural number is written as one numeral.** -/
theorem isNumeral_numberText (h : IsNatural x) : isNumeral (numberText x).toList = true := by
  obtain ⟨b, n, hb, hn⟩ := h.value
  have hneg : -wholeLimit < (n : Int) := Int.lt_of_lt_of_le (by decide) (Int.natCast_nonneg n)
  rw [numberText, h.not_nan, h.not_inf, wholeNumber?_eq hb hn hneg]
  by_cases hlimit : (n : Int) < wholeLimit
  · rw [if_pos hlimit]
    have hdigits := isNumeral_whole Nat.toDigits_ne_nil (isDigit_of_mem_toDigits (n := n))
      (show isExponent [] = true from rfl)
    change isNumeral (toString n).toList = true
    simpa using hdigits
  · have hpos : 0 < n := by
      omega
    rw [if_neg hlimit]
    simp only [write, write?, hb, map_some, negative_eq_false hn hpos]
    simpa using isNumeral_magnitude

end Retarget.Lua
