import Mathlib
import Geodescent.Scalar

/-! Doubles next to whole numbers. A positive whole number becomes a double of at least one, or the
infinite one, and its opposite a negative double: `large_ofInt`, `large_neg`. Among finite doubles of
the two tests of order each denies the other: `lt_eq_not_le`. -/
namespace Geodescent.Double
open Float.Model (Format UnpackedFloat totalExponent)
open Float.Model.UnpackedFloat

/-- A mantissa of full length, and an exponent with which it is at least one. -/
structure Normal (m : Nat) (e : Int) : Prop where
  le : 2 ^ 52 ≤ m
  lt : m < 2 ^ 53
  exponent : -52 ≤ e

/-- At least one or infinite, on the side of zero that the sign says. -/
inductive Large (s : Sign) : UnpackedFloat → Prop
  | infinity : Large s (.infinity s)
  | normal {m : Nat} {e : Int} {h : 0 < m} (normal : Normal m e) : Large s (.finite s m e h)

theorem mantissa_shift (k : Nat) (em : ExtendedMantissa) :
    (em >>> k).mantissa = em.mantissa / 2 ^ k := by
  induction k with
  | zero => exact (Nat.div_one _).symm
  | succ k ih =>
    change (ExtendedMantissa.shiftRightOne (em >>> k)).mantissa = _
    rw [ExtendedMantissa.shiftRightOne, ih, Nat.div_div_eq_div_mul, Nat.pow_succ]

theorem round_exact (m k : Nat) :
    m / 2 ^ k ≤ (ExtendedMantissa.ofMantissaAndAccuracy m .exact >>> k).roundedMantissa := by
  rw [ExtendedMantissa.roundedMantissa, mantissa_shift]
  generalize ExtendedMantissa.accuracy _ = a
  change m / 2 ^ k ≤ a.roundToNearestEven (m / 2 ^ k)
  cases a with
  | exact => exact Nat.le_refl _
  | inexact o => cases o <;> simp only [Accuracy.roundToNearestEven] <;> omega

theorem targetExponent_eq (t : Int) :
    Format.binary64.targetExponent t = max (t - 53) (-1074) := rfl

theorem normal_shift {m : Nat} {e : Int} (hm : 2 ^ 52 ≤ m) (he : 0 ≤ m.log2 + e) :
    Normal (m / 2 ^ (Format.binary64.targetExponent (totalExponent m e) - e).toNat)
      (e + (Format.binary64.targetExponent (totalExponent m e) - e).toNat) := by
  have hne : m ≠ 0 := by omega
  have hlog : 52 ≤ m.log2 := (Nat.le_log2 hne).mpr hm
  have hk : (Format.binary64.targetExponent (totalExponent m e) - e).toNat = m.log2 - 52 := by
    rw [targetExponent_eq, totalExponent]
    omega
  rw [hk]
  have hlower : 2 ^ 52 * 2 ^ (m.log2 - 52) ≤ m := by
    rw [← Nat.pow_add, Nat.add_sub_cancel' hlog]
    exact Nat.log2_self_le hne
  have hupper : m < 2 ^ 53 * 2 ^ (m.log2 - 52) := by
    have hsum : 53 + (m.log2 - 52) = m.log2 + 1 := by omega
    rw [← Nat.pow_add, hsum]
    exact Nat.lt_log2_self
  have hpos : 0 < 2 ^ (m.log2 - 52) := Nat.two_pow_pos _
  exact ⟨(Nat.le_div_iff_mul_le hpos).mpr hlower, (Nat.div_lt_iff_lt_mul hpos).mpr hupper,
    by omega⟩

theorem Normal.log2 {m : Nat} {e : Int} (h : Normal m e) : m.log2 = 52 := by
  have hne : m ≠ 0 := by have := h.le; omega
  exact Nat.le_antisymm (Nat.le_of_lt_succ ((Nat.log2_lt hne).mpr h.lt))
    ((Nat.le_log2 hne).mpr h.le)

theorem large_round {s : Sign} {m : Nat} {e : Int} (hm : 2 ^ 52 ≤ m) (he : 0 ≤ m.log2 + e) :
    Large s (roundWithAccuracy Format.binary64 s m e .exact) := by
  have first := normal_shift hm he
  unfold roundWithAccuracy shiftToTargetExponent shiftToExponent
  dsimp only
  generalize (Format.binary64.targetExponent (totalExponent m e) - e).toNat = k at first ⊢
  -- rounding may carry into a digit more, which the second shift takes away
  have hcarry := Nat.le_trans first.le (round_exact m k)
  generalize ExtendedMantissa.roundedMantissa _ = r at hcarry ⊢
  have hr : r ≠ 0 := by omega
  have hlog : 52 ≤ r.log2 := (Nat.le_log2 hr).mpr hcarry
  have second := normal_shift (e := e + k) hcarry (by have := first.exponent; omega)
  rw [mantissa_shift]
  split
  · have hzero : r / 2 ^ (Format.binary64.targetExponent (totalExponent r (e + k)) -
      (e + k)).toNat = 0 := ‹_›
    exact absurd second.le (by omega)
  · exact .normal second

section Packed
variable {s : Sign} {m : Nat} {e : Int}

theorem unpack_normal (normal : Normal m e) (fits : e ≤ 971) (h : 0 < m) :
    unpack Format.binary64 (packComponents Format.binary64 s (BitVec.ofNat 11 (e + 1075).toNat)
      (BitVec.ofNat 52 m)) = .finite s m e h := by
  have hle := normal.le
  have hlt := normal.lt
  have hexponent := normal.exponent
  have hbits : (BitVec.ofNat 11 (e + 1075).toNat).toNat = (e + 1075).toNat := by
    rw [BitVec.toNat_ofNat]
    exact Nat.mod_eq_of_lt (by omega)
  have hordinary : BitVec.ofNat 11 (e + 1075).toNat ≠ -1#11 := by
    intro heq
    have hones := hbits.symm.trans (congrArg BitVec.toNat heq)
    change (e + 1075).toNat = 2047 at hones
    omega
  have hnonzero : BitVec.ofNat 11 (e + 1075).toNat ≠ 0#11 := by
    intro heq
    have hzero := hbits.symm.trans (congrArg BitVec.toNat heq)
    change (e + 1075).toNat = 0 at hzero
    omega
  -- the first digit is left out when a float is packed
  have hmantissa : (1#1 ++ BitVec.ofNat 52 m).toNat = m := by
    rw [BitVec.toNat_append, ← Nat.shiftLeft_add_eq_or_of_lt (BitVec.ofNat 52 m).isLt,
      BitVec.toNat_ofNat, Nat.shiftLeft_eq]
    change 1 * 2 ^ 52 + m % 2 ^ 52 = m
    omega
  unfold unpack
  simp only [unpackExponent_packComponents, unpackMantissa_packComponents,
    unpackSign_packComponents, Sign.ofBitVec_toBitVec,
    if_neg hordinary, if_neg hnonzero, hmantissa, hbits]
  congr 1
  change ((e + 1075).toNat : Int) - 1075 = e
  omega

theorem unpack_infinity : unpack Format.binary64 (packedInfinity Format.binary64 s) = .infinity s := by
  cases s <;> rfl

theorem large_unpack_pack {u : UnpackedFloat} (h : Large s u) :
    Large s (unpack Format.binary64 (pack Format.binary64 u)) := by
  cases h with
  | infinity =>
    change Large s (unpack Format.binary64 (packedInfinity Format.binary64 s))
    rw [unpack_infinity]
    exact .infinity
  | @normal m e hpos normal =>
    have hbias : e + Format.binary64.exponentBias + Format.binary64.mantissaBitsWithoutImplicit =
        e + 1075 := by
      change e + 1023 + 52 = e + 1075
      omega
    have hfull : m.log2 + 1 = Format.binary64.mantissaBits := by rw [normal.log2]; rfl
    rw [pack, hbias]
    dsimp only
    rw [if_pos hfull]
    split
    · rw [unpack_infinity]
      exact .infinity
    · have hfits : e ≤ 971 := by omega
      rw [unpack_normal normal hfits hpos]
      exact .normal normal

end Packed

section Wholes
variable {n : Nat}

theorem large_normalize (hn : 0 < n) :
    Large .positive (UnpackedFloat.normalize Format.binary64 n 0 .positive) := by
  have hcompare : compare (n : Int) 0 = .gt := by
    rw [Int.compare_eq_gt]
    omega
  have hk : (0 - Format.binary64.targetExponent (totalExponent n 0)).toNat = 52 - n.log2 := by
    rw [targetExponent_eq, totalExponent]
    omega
  rw [UnpackedFloat.normalize, hcompare]
  change Large .positive (UnpackedFloat.round Format.binary64 .positive (n : Int).toNat 0)
  rw [Int.toNat_natCast, UnpackedFloat.round, decreaseExponent]
  dsimp only
  rw [hk, Nat.shiftLeft_eq]
  have hpow : 2 ^ (52 - n.log2) ≤ n * 2 ^ (52 - n.log2) := Nat.le_mul_of_pos_left _ hn
  have hpos : 0 < 2 ^ (52 - n.log2) := Nat.two_pow_pos _
  refine large_round ?_ ?_
  · have hlog : 2 ^ n.log2 ≤ n := Nat.log2_self_le (by omega)
    calc 2 ^ 52 ≤ 2 ^ (n.log2 + (52 - n.log2)) := Nat.pow_le_pow_right (by decide) (by omega)
      _ = 2 ^ n.log2 * 2 ^ (52 - n.log2) := Nat.pow_add ..
      _ ≤ n * 2 ^ (52 - n.log2) := Nat.mul_le_mul_right _ hlog
  · have hlog := (Nat.le_log2 (by omega)).mpr hpow
    omega

theorem large_ofScientific (hn : 0 < n) :
    Large .positive (ofScientific Format.binary64 n 0) := by
  have hne : n ≠ 0 := by omega
  have hhigh : ¬ (0 : Int) > 2 ^ Format.binary64.exponentBits := by decide
  have hlow : ¬ (0 : Int) < -(2 ^ Format.binary64.exponentBits + n.log2) := by
    change ¬ (0 : Int) < -(2 ^ 11 + n.log2)
    omega
  rw [ofScientific, dif_neg hne, if_neg hhigh, if_neg hlow, if_pos (Int.le_refl 0)]
  rw [mul, Nat.shiftLeft_eq]
  have hmantissa : 2 ^ 53 ≤ n * 2 ^ Format.binary64.mantissaBits * 10 ^ Int.toNat 0 := by
    change 2 ^ 53 ≤ n * 2 ^ 53 * 1
    omega
  generalize n * 2 ^ Format.binary64.mantissaBits * 10 ^ Int.toNat 0 = m at hmantissa ⊢
  have hlog : 53 ≤ m.log2 := (Nat.le_log2 (by omega)).mpr hmantissa
  have hexponent : -(Format.binary64.mantissaBits : Int) + 0 = -53 := rfl
  rw [hexponent]
  exact large_round (by omega) (by omega)

theorem large_mul_one {u : UnpackedFloat} (h : Large .positive u) :
    Large .positive (mul Format.binary64 u (.finite .positive (2 ^ 52) (-52) (by decide))) := by
  cases h with
  | infinity => exact .infinity
  | @normal m e hpos normal =>
    have hle := normal.le
    have hexponent := normal.exponent
    refine large_round ?_ ?_
    · omega
    · have hlog : 104 ≤ (m * 2 ^ 52).log2 := (Nat.le_log2 (by omega)).mpr (by omega)
      omega

theorem unpack_one : (Float.ofBits 0x3FF0000000000000).toModel.unpack =
    .finite .positive (2 ^ 52) (-52) (by decide) := rfl

theorem large_ofNat (hn : 0 < n) : Large .positive (Float.ofNat n).toModel.unpack := by
  change Large .positive (Float.ofScientific n false 0).toModel.unpack
  unfold Float.ofScientific
  split
  · -- a number of at most 53 digits, times one
    have hword : n.toUInt64.toNat = n := by
      rw [Nat.toUInt64, UInt64.toNat_ofNat']
      exact Nat.mod_eq_of_lt (by omega)
    have hfactor : Large .positive n.toUInt64.toFloat.toModel.unpack := by
      change Large .positive (unpack Format.binary64 (pack Format.binary64
        (UnpackedFloat.normalize Format.binary64 n.toUInt64.toNat 0 .positive)))
      rw [hword]
      exact large_unpack_pack (large_normalize hn)
    change Large .positive (unpack Format.binary64 (pack Format.binary64
      (mul Format.binary64 n.toUInt64.toFloat.toModel.unpack
        (Float.ofBits 0x3FF0000000000000).toModel.unpack)))
    rw [unpack_one]
    exact large_unpack_pack (large_mul_one hfactor)
  · exact large_unpack_pack (large_ofScientific hn)

theorem large_ofInt (hn : 0 < n) : Large .positive (Float.ofInt n).toModel.unpack := large_ofNat hn

theorem large_neg (hn : 0 < n) : Large .negative (Float.ofInt (-n)).toModel.unpack := by
  obtain ⟨m, rfl⟩ : ∃ m, n = m + 1 := ⟨n - 1, by omega⟩
  change Large .negative (unpack Format.binary64 (pack Format.binary64
    (Float.ofNat (m + 1)).toModel.unpack.neg))
  refine large_unpack_pack ?_
  have h := large_ofNat hn
  generalize (Float.ofNat (m + 1)).toModel.unpack = u at h ⊢
  cases h with
  | infinity => exact .infinity
  | normal normal => exact .normal normal

end Wholes

section Order

theorem lt_eq_not_le_unpacked : (u v : UnpackedFloat) → u.isFinite = true → v.isFinite = true →
    v.lt u = !u.le v
  | .zero _, .zero _, _, _ => rfl
  | .zero _, .finite .positive .., _, _ => rfl
  | .zero _, .finite .negative .., _, _ => rfl
  | .finite .positive .., .zero _, _, _ => rfl
  | .finite .negative .., .zero _, _, _ => rfl
  | .finite .positive .., .finite .negative .., _, _ => rfl
  | .finite .negative .., .finite .positive .., _, _ => rfl
  | .finite .positive m e _, .finite .positive m' e' _, _, _ => by
    have key : ∀ a b : Ordering, (some (a.swap.then b.swap) == some .lt) = !(a.then b).isLE := by
      decide
    have hexponent : (compare e e').swap = compare e' e := Std.OrientedCmp.eq_swap.symm
    have hmantissa : (compare m m').swap = compare m' m := Std.OrientedCmp.eq_swap.symm
    have h := key (compare e e') (compare m m')
    rw [hexponent, hmantissa] at h
    exact h
  | .finite .negative m e _, .finite .negative m' e' _, _, _ => by
    have key : ∀ a b : Ordering,
        (some (a.swap.then b.swap).swap == some .lt) = !(a.then b).swap.isLE := by
      decide
    have hexponent : (compare e e').swap = compare e' e := Std.OrientedCmp.eq_swap.symm
    have hmantissa : (compare m m').swap = compare m' m := Std.OrientedCmp.eq_swap.symm
    have h := key (compare e e') (compare m m')
    rw [hexponent, hmantissa] at h
    exact h

variable {x y : Float} {n : Nat}

theorem lt_eq (x y : Float) : Scalar.lt x y = x.toModel.unpack.lt y.toModel.unpack := by
  change decide (decide (x.toModel.unpack.lt y.toModel.unpack = true) = true) = _
  rw [Bool.decide_eq_true, Bool.decide_eq_true]

theorem le_eq (x y : Float) : Scalar.le x y = x.toModel.unpack.le y.toModel.unpack := by
  change decide (decide (x.toModel.unpack.le y.toModel.unpack = true) = true) = _
  rw [Bool.decide_eq_true, Bool.decide_eq_true]

theorem le_of_lt (h : Scalar.lt x y = true) : Scalar.le x y = true := by
  rw [lt_eq] at h
  have hlt : x.toModel.unpack.compare y.toModel.unpack = some .lt := beq_iff_eq.mp h
  rw [le_eq, UnpackedFloat.le, hlt]
  rfl

theorem lt_eq_not_le (hx : Scalar.isFinite x = true) (hy : Scalar.isFinite y = true) :
    Scalar.lt y x = !Scalar.le x y := by
  rw [lt_eq, le_eq]
  exact lt_eq_not_le_unpacked _ _ hx hy

theorem unpack_zero : (0 : Float).toModel.unpack = .zero .positive := rfl

theorem lt_zero_ofInt (hn : 0 < n) : Scalar.lt (0 : Float) (Scalar.ofInt n) = true := by
  change Scalar.lt (0 : Float) (Float.ofInt n) = true
  rw [lt_eq, unpack_zero]
  have h := large_ofInt hn
  generalize (Float.ofInt n).toModel.unpack = u at h ⊢
  cases h with
  | infinity => rfl
  | normal => rfl

theorem le_one_ofInt (hn : 0 < n) : Scalar.le (1 : Float) (Scalar.ofInt n) = true := by
  change Scalar.le (1 : Float) (Float.ofInt n) = true
  have hone : (1 : Float).toModel.unpack = .finite .positive (2 ^ 52) (-52) (by decide) := rfl
  rw [le_eq, hone]
  have h := large_ofInt hn
  generalize (Float.ofInt n).toModel.unpack = u at h ⊢
  cases h with
  | infinity => rfl
  | @normal m e hpos normal =>
    change ((compare (-52) e).then (compare (2 ^ 52) m)).isLE = true
    rcases Int.lt_or_eq_of_le normal.exponent with hlt | rfl
    · rw [Int.compare_eq_lt.mpr hlt]
      rfl
    · exact Nat.isLE_compare.mpr normal.le

theorem lt_ofInt_zero (hn : 0 < n) : Scalar.lt (Scalar.ofInt (-n) : Float) 0 = true := by
  change Scalar.lt (Float.ofInt (-n)) (0 : Float) = true
  rw [lt_eq, unpack_zero]
  have h := large_neg hn
  generalize (Float.ofInt (-n)).toModel.unpack = u at h ⊢
  cases h with
  | infinity => rfl
  | normal => rfl

end Order

end Geodescent.Double
