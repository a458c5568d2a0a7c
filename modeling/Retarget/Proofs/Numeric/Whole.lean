import Mathlib
import Retarget.Json.Basic

/-!
# Whole numbers as doubles

A natural number below `2 ^ 53` is a double as it stands: its digits are moved up until there are 53 of them, and the
exponent makes up for it (`unpack_ofNat`). A larger number is rounded, and its exponent is at least one
(`unpack_ofNat_large`). So a number below `2 ^ 53` shares its double with no other natural number (`unpack_ofNat_inj`),
and every integer of 64 bits has a finite double (`Number.isFinite_toFloat`).
-/

open Float.Model Float.Model.UnpackedFloat Format UnpackedFloat BitVec ExtendedMantissa

namespace Retarget

namespace Binary64

/-! ## Rounding -/

def IsNormal (m : Nat) : Prop := 2 ^ 52 ≤ m ∧ m < 2 ^ 53

variable {m k : Nat}

theorem IsNormal.pos (h : IsNormal m) : 0 < m := Nat.lt_of_lt_of_le (by decide) h.1

theorem IsNormal.ne_zero (h : IsNormal m) : m ≠ 0 := Nat.ne_of_gt h.pos

theorem IsNormal.log2 (h : IsNormal m) : m.log2 = 52 := (Nat.log2_eq_iff h.ne_zero).2 h

theorem log2_mul_two_pow (h : m ≠ 0) (k : Nat) : (m * 2 ^ k).log2 = m.log2 + k := by
  have hlow := Nat.mul_le_mul_right (2 ^ k) (Nat.log2_self_le h)
  have hhigh := Nat.mul_lt_mul_of_pos_right (Nat.lt_log2_self (n := m)) (Nat.two_pow_pos k)
  rw [← Nat.pow_add] at hlow hhigh
  refine (Nat.log2_eq_iff (Nat.mul_ne_zero h (Nat.two_pow_pos k |> Nat.ne_of_gt))).2 ⟨hlow, ?_⟩
  rwa [show m.log2 + k + 1 = m.log2 + 1 + k by omega]

variable {e : Int} {em : ExtendedMantissa}

theorem targetExponent_eq (h : -1074 ≤ m.log2 + e - 52) :
    binary64.targetExponent (totalExponent m e) = m.log2 + e - 52 := by
  have hmantissa : binary64.mantissaBits = 53 := rfl
  have hmin : binary64.minExponent = -1074 := rfl
  rw [targetExponent, totalExponent, hmantissa, hmin]
  omega

theorem mantissa_shiftRight : (em >>> k).mantissa = em.mantissa / 2 ^ k := by
  induction k with
  | zero => exact (Nat.div_one _).symm
  | succ k ih =>
    change (em >>> k).mantissa / 2 = _
    rw [ih, Nat.div_div_eq_div_mul, Nat.pow_succ]

theorem shiftRight_mul_two_pow : (⟨m * 2 ^ k, false, false⟩ : ExtendedMantissa) >>> k = ⟨m, false, false⟩ := by
  induction k generalizing m with
  | zero => exact congrArg (ExtendedMantissa.mk · false false) (Nat.mul_one m)
  | succ k ih =>
    have hstep : (⟨m * 2 ^ (k + 1), false, false⟩ : ExtendedMantissa) >>> k = ⟨m * 2, false, false⟩ := by
      rw [Nat.pow_succ, Nat.mul_comm (2 ^ k) 2, ← Nat.mul_assoc, ih]
    change ((⟨m * 2 ^ (k + 1), false, false⟩ : ExtendedMantissa) >>> k).shiftRightOne = _
    rw [hstep]
    simp [shiftRightOne]

theorem roundedMantissa_bounds (em : ExtendedMantissa) :
    em.mantissa ≤ em.roundedMantissa ∧ em.roundedMantissa ≤ em.mantissa + 1 := by
  obtain ⟨m, round, sticky⟩ := em
  cases round <;> cases sticky <;>
    simp only [roundedMantissa, accuracy, Accuracy.roundToNearestEven] <;> omega

theorem shiftToTargetExponent_eq (hk : m.log2 = 52 + k) (he : -1074 ≤ e + k) :
    shiftToTargetExponent binary64 m e .exact = (ExtendedMantissa.mk m false false >>> k, e + k) := by
  have hshift : (m.log2 + e - 52 - e).toNat = k := by omega
  rw [shiftToTargetExponent, targetExponent_eq (by omega), shiftToExponent, hshift]
  rfl

variable {s : Sign}

theorem roundWithAccuracy_eq {e₁ : Int}
    (h : shiftToTargetExponent binary64 m e .exact = (em, e₁)) (hnormal : IsNormal em.roundedMantissa)
    (he : -1074 ≤ e₁) :
    roundWithAccuracy binary64 s m e .exact = .finite s em.roundedMantissa e₁ hnormal.pos := by
  have hsecond := shiftToTargetExponent_eq (k := 0) hnormal.log2 (by simpa using he)
  simp only [roundWithAccuracy, h, hsecond]
  rw [dif_neg (show (ExtendedMantissa.mk em.roundedMantissa false false >>> 0).mantissa ≠ 0 from hnormal.ne_zero)]
  simp only [Int.ofNat_zero, Int.add_zero]
  rfl

theorem roundWithAccuracy_exact (h : IsNormal m) (k : Nat) (he : -1074 ≤ e) :
    roundWithAccuracy binary64 s (m * 2 ^ k) (e - k) .exact = .finite s m e h.pos := by
  have hlog : (m * 2 ^ k).log2 = 52 + k := by rw [log2_mul_two_pow h.ne_zero, h.log2]
  have hshift := shiftToTargetExponent_eq (e := e - k) hlog (by omega)
  rw [shiftRight_mul_two_pow, Int.sub_add_cancel] at hshift
  exact roundWithAccuracy_eq hshift h he

theorem roundWithAccuracy_cut (hk : m.log2 = 52 + k) (he : -1074 ≤ e + k) :
    ∃ m' e' h, roundWithAccuracy binary64 s m e .exact = .finite s m' e' h ∧ IsNormal m' ∧
      (e' = e + k ∨ e' = e + k + 1) := by
  have hne : m ≠ 0 := by
    rintro rfl
    rw [Nat.log2_zero] at hk
    omega
  have hlow : 2 ^ 52 ≤ m / 2 ^ k := by
    rw [Nat.le_div_iff_mul_le (Nat.two_pow_pos k), ← Nat.pow_add, ← hk]
    exact Nat.log2_self_le hne
  have hhigh : m / 2 ^ k < 2 ^ 53 := by
    rw [Nat.div_lt_iff_lt_mul (Nat.two_pow_pos k), ← Nat.pow_add, show 53 + k = m.log2 + 1 by omega]
    exact Nat.lt_log2_self
  have hshift := shiftToTargetExponent_eq hk he
  have hbounds := roundedMantissa_bounds ((⟨m, false, false⟩ : ExtendedMantissa) >>> k)
  rw [mantissa_shiftRight] at hbounds
  dsimp only at hbounds
  generalize (⟨m, false, false⟩ : ExtendedMantissa) >>> k = em at hshift hbounds
  by_cases hcarry : em.roundedMantissa < 2 ^ 53
  · have hnormal : IsNormal em.roundedMantissa := ⟨by omega, hcarry⟩
    exact ⟨_, _, _, roundWithAccuracy_eq hshift hnormal he, hnormal, .inl rfl⟩
  · -- Rounding up gave one more digit, which is cut in turn.
    have hrounded : em.roundedMantissa = 2 ^ 52 * 2 ^ 1 := by omega
    have hlog : (2 ^ 52 * 2 ^ 1).log2 = 52 + 1 := by decide
    have hsecond := shiftToTargetExponent_eq (e := e + k) (k := 1) hlog (by omega)
    rw [shiftRight_mul_two_pow] at hsecond
    refine ⟨2 ^ 52, e + k + 1, by decide, ?_, ⟨by decide, by decide⟩, .inr rfl⟩
    simp only [roundWithAccuracy, hshift, hrounded, hsecond]
    rfl

/-! ## Bits -/

theorem toNat_one_append (h : IsNormal m) : (1#1 ++ BitVec.ofNat 52 m).toNat = m := by
  have hlt : m % 2 ^ 52 < 2 ^ 52 := Nat.mod_lt m (by decide)
  obtain ⟨hlow, hhigh⟩ := h
  rw [toNat_append, toNat_ofNat m, ← Nat.shiftLeft_add_eq_or_of_lt hlt]
  change 2 ^ 52 + m % 2 ^ 52 = m
  omega

theorem unpack_pack (h : IsNormal m) (hmin : -1074 ≤ e) (hmax : e ≤ 971) :
    (Float.Model.pack (.finite s m e h.pos)).unpack = .finite s m e h.pos := by
  obtain ⟨b, hb⟩ : ∃ b : Nat, e = b - 1075 := ⟨(e + 1075).toNat, by omega⟩
  have hbiased : (e + binary64.exponentBias + (52 : Nat)).toNat = b := by
    change (e + 1023 + 52).toNat = b
    omega
  have hpack : pack binary64 (.finite s m e h.pos) =
      packComponents binary64 s (BitVec.ofNat 11 b) (BitVec.ofNat 52 m) := by
    simp only [UnpackedFloat.pack, hbiased, h.log2]
    rw [if_neg (by omega), if_pos (show 52 + 1 = binary64.mantissaBits from rfl)]
  have hexponent : (BitVec.ofNat 11 b).toNat = b := by
    rw [toNat_ofNat]
    omega
  have hne (n : Nat) (hn : n < 2 ^ 11) (hbn : b ≠ n) : BitVec.ofNat 11 b ≠ BitVec.ofNat 11 n := by
    intro heq
    have hnat := congrArg BitVec.toNat heq
    rw [hexponent, toNat_ofNat, Nat.mod_eq_of_lt hn] at hnat
    exact hbn hnat
  change unpack binary64 (pack binary64 (.finite s m e h.pos)) = _
  rw [hpack, UnpackedFloat.unpack]
  simp only [unpackMantissa_packComponents, unpackExponent_packComponents, unpackSign_packComponents,
    Sign.ofBitVec_toBitVec]
  rw [if_neg (show ¬BitVec.ofNat 11 b = -1#11 from hne 2047 (by decide) (by omega)),
    if_neg (hne 0 (by decide) (by omega))]
  simp only [toNat_one_append h, hexponent, hb]
  rfl

/-! ## Natural numbers -/

variable {n : Nat}

theorem isNormal_scaled (h0 : n ≠ 0) (h : n < 2 ^ 53) : IsNormal (n * 2 ^ (52 - n.log2)) := by
  have hlog : n.log2 < 53 := (Nat.log2_lt h0).2 h
  have hscaled := log2_mul_two_pow h0 (52 - n.log2)
  rw [show n.log2 + (52 - n.log2) = 52 by omega] at hscaled
  exact (Nat.log2_eq_iff (Nat.mul_ne_zero h0 (Nat.ne_of_gt (Nat.two_pow_pos _)))).1 hscaled

theorem round_eq (h0 : n ≠ 0) (h : n < 2 ^ 53) : round binary64 .positive n 0 =
      .finite .positive (n * 2 ^ (52 - n.log2)) (n.log2 - 52) (isNormal_scaled h0 h).pos := by
  have hlog : n.log2 < 53 := (Nat.log2_lt h0).2 h
  have hshift : (0 - ((n.log2 : Int) + 0 - 52)).toNat = 52 - n.log2 := by omega
  have hexponent : (0 : Int) - (52 - n.log2 : Nat) = (n.log2 - 52 : Int) - (0 : Nat) := by omega
  have hexact := roundWithAccuracy_exact (s := .positive) (e := n.log2 - 52) (isNormal_scaled h0 h) 0 (by omega)
  rw [Nat.pow_zero, Nat.mul_one] at hexact
  rw [UnpackedFloat.round, targetExponent_eq (by omega), decreaseExponent, hshift]
  dsimp only
  rw [hexponent, Nat.shiftLeft_eq, hexact]

/-- **A number below `2 ^ 53` is a double as it stands.** -/
theorem unpack_ofNat (h0 : n ≠ 0) (h : n < 2 ^ 53) : (Float.ofNat n).toModel.unpack =
    .finite .positive (n * 2 ^ (52 - n.log2)) (n.log2 - 52) (isNormal_scaled h0 h).pos := by
  have hlog : n.log2 < 53 := (Nat.log2_lt h0).2 h
  have hnormal := isNormal_scaled h0 h
  have hword : n.toUInt64.toNat = n := by
    change n % 2 ^ 64 = n
    omega
  have hround : ofUInt64 binary64 n.toUInt64 =
      round binary64 .positive n 0 := by
    have hcompare : compare (n : Int) 0 = .gt := Int.compare_eq_gt.2 (by omega)
    rw [UnpackedFloat.ofUInt64, hword, UnpackedFloat.ofNat, UnpackedFloat.ofInt, UnpackedFloat.normalize, hcompare]
    rfl
  have hword : n.toUInt64.toFloat.toModel.unpack =
      .finite .positive (n * 2 ^ (52 - n.log2)) (n.log2 - 52) hnormal.pos := by
    change (Float.Model.pack (ofUInt64 binary64 n.toUInt64)).unpack = _
    rw [hround, round_eq h0 h, unpack_pack hnormal (by omega) (by omega)]
  have hone : (Float.ofBits 0x3FF0000000000000).toModel.unpack = .finite .positive (2 ^ 52) (-52) (by decide) := by
    rfl
  have hfast : Float.ofNat n = n.toUInt64.toFloat * Float.ofBits 0x3FF0000000000000 := dif_pos ⟨h, by decide⟩
  rw [hfast]
  -- The fast way multiplies by the power of ten, which is one.
  change (Float.Model.pack (mul binary64 n.toUInt64.toFloat.toModel.unpack
    (Float.ofBits 0x3FF0000000000000).toModel.unpack)).unpack = _
  rw [hword, hone]
  change (Float.Model.pack (roundWithAccuracy binary64 .positive (n * 2 ^ (52 - n.log2) * 2 ^ 52)
    (n.log2 - 52 + -52) .exact)).unpack = _
  have hexact := roundWithAccuracy_exact (s := .positive) (e := n.log2 - 52) hnormal 52 (by omega)
  rw [show (n.log2 - 52 + -52 : Int) = (n.log2 - 52 : Int) - (52 : Nat) by omega, hexact,
    unpack_pack hnormal (by omega) (by omega)]

theorem unpack_pack_overflow {h : 0 < m} (hmax : 971 < e) :
    (Float.Model.pack (.finite .positive m e h)).unpack = .infinity .positive := by
  have hpack : pack binary64 (.finite .positive m e h) =
      packedInfinity binary64 .positive := by
    have hbiased : 2 ^ binary64.exponentBits ≤
        (e + binary64.exponentBias + binary64.mantissaBitsWithoutImplicit).toNat + 1 := by
      change 2048 ≤ (e + 1023 + 52).toNat + 1
      omega
    simp only [UnpackedFloat.pack]
    rw [if_pos hbiased]
  change unpack binary64 (pack binary64 (.finite .positive m e h)) = _
  rw [hpack]
  rfl

/-- **A larger number is rounded** to a double whose exponent is at least one, if its exponent is in range. -/
theorem unpack_ofNat_large (h : 2 ^ 53 ≤ n) : (∃ m e, ∃ hm : IsNormal m,
      (Float.ofNat n).toModel.unpack = .finite .positive m e hm.pos ∧ 1 ≤ e ∧ e ≤ 971) ∨
      2 ^ 64 ≤ n ∧ (Float.ofNat n).toModel.unpack = .infinity .positive := by
  have h0 : n ≠ 0 := by omega
  obtain ⟨k, hk⟩ : ∃ k, n.log2 = 53 + k := by
    have hlog : 53 ≤ n.log2 := (Nat.le_log2 h0).2 h
    exact ⟨n.log2 - 53, by omega⟩
  have hslow : Float.ofNat n = Float.ofModel (Float.Model.ofScientific n 0) := dif_neg (by omega)
  have hmul : ofScientific binary64 n 0 =
      roundWithAccuracy binary64 .positive (n * 2 ^ 53) (-53) .exact := by
    have htiny : ¬(0 : Int) < -((2 ^ binary64.exponentBits : Int) + n.log2) := by
      change ¬(0 : Int) < -(2048 + n.log2)
      omega
    rw [UnpackedFloat.ofScientific, dif_neg h0, if_neg (by decide), if_neg htiny, if_pos (Int.le_refl 0),
      ← Nat.mul_one (n * 2 ^ 53), ← Nat.shiftLeft_eq]
    rfl
  have hlog : (n * 2 ^ 53).log2 = 52 + (54 + k) := by
    rw [log2_mul_two_pow h0, hk]
    omega
  obtain ⟨m, e, hm, hround, hnormal, he⟩ := roundWithAccuracy_cut (s := .positive) (e := -53) hlog (by omega)
  have hunpack : (Float.ofNat n).toModel.unpack = (Float.Model.pack (.finite .positive m e hm)).unpack := by
    rw [hslow, ← hround, ← hmul]
    rfl
  by_cases hmax : e ≤ 971
  · exact .inl ⟨m, e, hnormal, hunpack.trans (unpack_pack hnormal (by omega) hmax), by omega, hmax⟩
  · refine .inr ⟨?_, hunpack.trans (unpack_pack_overflow (by omega))⟩
    calc 2 ^ 64 ≤ 2 ^ n.log2 := Nat.pow_le_pow_right (by decide) (by omega)
      _ ≤ n := Nat.log2_self_le h0

theorem unpack_ofNat_cases : (Float.ofNat n).toModel.unpack = .zero .positive ∨ (∃ m e, ∃ hm : IsNormal m,
        (Float.ofNat n).toModel.unpack = .finite .positive m e hm.pos ∧ -1074 ≤ e ∧ e ≤ 971) ∨
      2 ^ 64 ≤ n ∧ (Float.ofNat n).toModel.unpack = .infinity .positive := by
  by_cases h0 : n = 0
  · subst h0
    exact .inl rfl
  by_cases hsmall : n < 2 ^ 53
  · have hlog : n.log2 < 53 := (Nat.log2_lt h0).2 hsmall
    exact .inr (.inl ⟨_, _, isNormal_scaled h0 hsmall, unpack_ofNat h0 hsmall, by omega, by omega⟩)
  · rcases unpack_ofNat_large (Nat.le_of_not_lt hsmall) with ⟨m, e, hm, heq, he, hmax⟩ | hlarge
    · exact .inr (.inl ⟨m, e, hm, heq, by omega, hmax⟩)
    · exact .inr (.inr hlarge)

theorem isFinite_ofNat (h : n < 2 ^ 64) : (Float.ofNat n).isFinite = true := by
  change (Float.ofNat n).toModel.unpack.isFinite = true
  rcases unpack_ofNat_cases with heq | ⟨m, e, hm, heq, -⟩ | ⟨hlarge, -⟩
  · rw [heq]
    rfl
  · rw [heq]
    rfl
  · omega

theorem isFinite_neg_ofNat (h : n < 2 ^ 64) : (-Float.ofNat n).isFinite = true := by
  change (Float.Model.pack (Float.ofNat n).toModel.unpack.neg).unpack.isFinite = true
  rcases unpack_ofNat_cases with heq | ⟨m, e, hm, heq, hmin, hmax⟩ | ⟨hlarge, -⟩
  · rw [heq]
    rfl
  · rw [heq]
    change (Float.Model.pack (.finite .negative m e hm.pos)).unpack.isFinite = true
    rw [unpack_pack hm hmin hmax]
    rfl
  · omega

theorem unpack_ofNat_inj {i j : Nat} (hi : i < 2 ^ 53)
    (h : (Float.ofNat i).toModel.unpack = (Float.ofNat j).toModel.unpack) : i = j := by
  have hzero : (Float.ofNat 0).toModel.unpack = .zero .positive := rfl
  by_cases hj : 2 ^ 53 ≤ j
  · -- The exponent of the other number is too large.
    exfalso
    by_cases hi0 : i = 0
    · rw [hi0, hzero] at h
      rcases unpack_ofNat_large hj with ⟨m, e, hm, heq, -⟩ | ⟨-, heq⟩ <;> rw [heq] at h <;> cases h
    · have hlog : i.log2 < 53 := (Nat.log2_lt hi0).2 hi
      rw [unpack_ofNat hi0 hi] at h
      rcases unpack_ofNat_large hj with ⟨m, e, hm, heq, he, -⟩ | ⟨-, heq⟩
      · rw [heq] at h
        injection h with _ _ hexponent
        omega
      · rw [heq] at h
        cases h
  · have hj : j < 2 ^ 53 := Nat.lt_of_not_le hj
    by_cases hi0 : i = 0 <;> by_cases hj0 : j = 0
    · rw [hi0, hj0]
    · rw [hi0, hzero, unpack_ofNat hj0 hj] at h
      cases h
    · rw [hj0, hzero, unpack_ofNat hi0 hi] at h
      cases h
    · rw [unpack_ofNat hi0 hi, unpack_ofNat hj0 hj] at h
      injection h with _ hmantissa hexponent
      rw [show j.log2 = i.log2 by omega] at hmantissa
      exact Nat.eq_of_mul_eq_mul_right (Nat.two_pow_pos _) hmantissa

end Binary64

/-- The width of the numbers of a document: an integer has 64 bits, and any other number is finite. -/
def Number.InRange : Number → Prop
  | .int n => -2 ^ 63 ≤ n ∧ n < 2 ^ 64
  | .float x => x.isFinite = true

/-- **The numbers of a document have finite doubles.** -/
theorem Number.isFinite_toFloat {n : Number} (h : n.InRange) : n.toFloat.isFinite = true := by
  cases n with
  | float x => exact h
  | int n =>
    obtain ⟨hlow, hhigh⟩ := h
    have habs : n.natAbs < 2 ^ 64 := by omega
    rw [toFloat]
    split
    · exact Binary64.isFinite_neg_ofNat habs
    · exact Binary64.isFinite_ofNat habs

end Retarget
