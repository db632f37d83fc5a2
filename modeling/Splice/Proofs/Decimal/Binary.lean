import Mathlib

/-! Binary numbers in their one canonical form.  A finite number is `m * 2 ^ e` with at most 53
significant bits, all of them used unless the exponent is the least one.  Packing such a number
into its bits and unpacking it again are inverse, and rounding leaves it alone. -/
namespace Splice.Decimal

open Float.Model Float.Model.UnpackedFloat

/-- The significands and exponents that stand for themselves. -/
structure Canonical (m : Nat) (e : Int) : Prop where
  pos : 0 < m
  lt : m < 2 ^ 53
  least : -1074 ≤ e
  full : 2 ^ 52 ≤ m ∨ e = -1074

theorem log2_mul_two_pow {m : Nat} (hm : 0 < m) (k : Nat) : (m * 2 ^ k).log2 = m.log2 + k := by
  have hne : m * 2 ^ k ≠ 0 := Nat.ne_of_gt (Nat.mul_pos hm (Nat.two_pow_pos k))
  rw [Nat.log2_eq_iff hne]
  constructor
  · rw [pow_add]
    exact Nat.mul_le_mul_right _ (Nat.log2_self_le (Nat.ne_of_gt hm))
  · rw [show m.log2 + k + 1 = m.log2 + 1 + k by omega, pow_add]
    exact Nat.mul_lt_mul_of_pos_right Nat.lt_log2_self (Nat.two_pow_pos k)

theorem targetExponent_eq (t : Int) : Format.binary64.targetExponent t = max (t - 53) (-1074) :=
  rfl

theorem Canonical.targetExponent {m : Nat} {e : Int} (h : Canonical m e) :
    Format.binary64.targetExponent (totalExponent m e) = e := by
  have hlog : m.log2 < 53 := (Nat.log2_lt (Nat.ne_of_gt h.pos)).mpr h.lt
  have hleast := h.least
  rw [targetExponent_eq]
  unfold totalExponent
  rcases h.full with hfull | he
  · have hlog' : 52 ≤ m.log2 := (Nat.le_log2 (Nat.ne_of_gt h.pos)).mpr hfull
    omega
  · omega

theorem shiftRight_mantissa (em : ExtendedMantissa) (n : Nat) :
    (em >>> n).mantissa = em.mantissa / 2 ^ n := by
  change (n.repeat ExtendedMantissa.shiftRightOne em).mantissa = _
  induction n with
  | zero => simp [Nat.repeat]
  | succ n ih =>
    rw [Nat.repeat, ExtendedMantissa.shiftRightOne, ih, Nat.div_div_eq_div_mul, pow_succ]

theorem shiftRight_exact (m n : Nat) :
    (ExtendedMantissa.mk (m * 2 ^ n) false false) >>> n = ExtendedMantissa.mk m false false := by
  change n.repeat ExtendedMantissa.shiftRightOne _ = _
  induction n generalizing m with
  | zero => simp [Nat.repeat]
  | succ n ih =>
    have h : m * 2 ^ (n + 1) = m * 2 * 2 ^ n := by ring
    rw [Nat.repeat, h, ih, ExtendedMantissa.shiftRightOne]
    simp

theorem roundedMantissa_bounds (em : ExtendedMantissa) :
    em.mantissa ≤ em.roundedMantissa ∧ em.roundedMantissa ≤ em.mantissa + 1 := by
  obtain ⟨m, r, s⟩ := em
  cases r <;> cases s <;>
    simp only [ExtendedMantissa.roundedMantissa, ExtendedMantissa.accuracy,
      Accuracy.roundToNearestEven] <;> omega

theorem shiftToTargetExponent_exact {m : Nat} {e : Int} (h : Canonical m e) (k : Nat) :
    shiftToTargetExponent Format.binary64 (m * 2 ^ k) (e - k) .exact =
      (ExtendedMantissa.mk m false false, e) := by
  have htotal : totalExponent (m * 2 ^ k) (e - k) = totalExponent m e := by
    unfold totalExponent
    rw [log2_mul_two_pow h.pos]
    omega
  have hk : (e - (e - k)).toNat = k := by omega
  unfold shiftToTargetExponent shiftToExponent
  simp only [htotal, h.targetExponent, hk, ExtendedMantissa.ofMantissaAndAccuracy,
    shiftRight_exact]
  exact Prod.ext rfl (by dsimp only; omega)

theorem roundWithAccuracy_exact {m : Nat} {e : Int} (h : Canonical m e) (s : Sign) (k : Nat) :
    roundWithAccuracy Format.binary64 s (m * 2 ^ k) (e - k) .exact = .finite s m e h.pos := by
  have hsecond := shiftToTargetExponent_exact h 0
  rw [pow_zero, mul_one, Nat.cast_zero, sub_zero] at hsecond
  unfold roundWithAccuracy
  rw [shiftToTargetExponent_exact h k]
  dsimp only [ExtendedMantissa.roundedMantissa, ExtendedMantissa.accuracy,
    Accuracy.roundToNearestEven]
  rw [hsecond]
  exact dif_neg (Nat.ne_of_gt h.pos)

/-- A significand of more than 53 bits at a whole exponent is rounded to a full significand at a
whole exponent. -/
theorem roundWithAccuracy_large (n k : Nat) (hn : 2 ^ 53 ≤ n) (s : Sign) :
    ∃ m e, ∃ h : Canonical m e, 1 ≤ e ∧
      roundWithAccuracy Format.binary64 s (n * 2 ^ k) (-k) .exact = .finite s m e h.pos := by
  have hpos : 0 < n := Nat.lt_of_lt_of_le (Nat.two_pow_pos 53) hn
  have hlog : 53 ≤ n.log2 := (Nat.le_log2 (Nat.ne_of_gt hpos)).mpr hn
  obtain ⟨j, hj⟩ : ∃ j, n.log2 = 52 + j := ⟨n.log2 - 52, by omega⟩
  have htotal : totalExponent (n * 2 ^ k) (-k) = 53 + j := by
    unfold totalExponent
    rw [log2_mul_two_pow hpos, hj]
    omega
  have htarget : Format.binary64.targetExponent (53 + (j : Int)) = j := by
    rw [targetExponent_eq]
    omega
  -- The first shift keeps the 53 leading bits of `n`.
  let em := (ExtendedMantissa.mk (n * 2 ^ k) false false) >>> (j + k)
  have hfirst : shiftToTargetExponent Format.binary64 (n * 2 ^ k) (-k) .exact =
      (em, (j : Int)) := by
    have hshift : ((j : Int) - -(k : Int)).toNat = j + k := by omega
    unfold shiftToTargetExponent shiftToExponent
    simp only [htotal, htarget, hshift]
    exact Prod.ext rfl (by dsimp only; omega)
  have hem : em.mantissa = n / 2 ^ j := by
    rw [shiftRight_mantissa, pow_add]
    exact Nat.mul_div_mul_right _ _ (Nat.two_pow_pos k)
  have hlow : 2 ^ 52 ≤ n / 2 ^ j := by
    rw [Nat.le_div_iff_mul_le (Nat.two_pow_pos j), ← pow_add, ← hj]
    exact Nat.log2_self_le (Nat.ne_of_gt hpos)
  have hhigh : n / 2 ^ j < 2 ^ 53 := by
    rw [Nat.div_lt_iff_lt_mul (Nat.two_pow_pos j), ← pow_add, show 53 + j = n.log2 + 1 by omega]
    exact Nat.lt_log2_self
  have hrounded : 2 ^ 52 ≤ em.roundedMantissa ∧ em.roundedMantissa ≤ 2 ^ 53 := by
    have hround := roundedMantissa_bounds em
    omega
  -- Rounding up may carry into a new leading bit, which costs one more shift.
  rcases Nat.lt_or_eq_of_le hrounded.2 with hlt | hcarry
  · have hcanon : Canonical em.roundedMantissa j :=
      ⟨Nat.lt_of_lt_of_le (Nat.two_pow_pos 52) hrounded.1, hlt, by omega, .inl hrounded.1⟩
    refine ⟨_, _, hcanon, by omega, ?_⟩
    have hsecond := shiftToTargetExponent_exact hcanon 0
    rw [pow_zero, mul_one, Nat.cast_zero, sub_zero] at hsecond
    unfold roundWithAccuracy
    rw [hfirst]
    dsimp only
    rw [hsecond]
    exact dif_neg (Nat.ne_of_gt hcanon.pos)
  · have hcanon : Canonical (2 ^ 52) (j + 1) := ⟨by decide, by decide, by omega, .inl le_rfl⟩
    refine ⟨_, _, hcanon, by omega, ?_⟩
    have hsecond := shiftToTargetExponent_exact hcanon 1
    have hj' : (j : Int) + 1 - (1 : Nat) = j := by omega
    rw [hj', ← pow_add] at hsecond
    unfold roundWithAccuracy
    rw [hfirst]
    dsimp only
    rw [hcarry, hsecond]
    exact dif_neg (Nat.ne_of_gt hcanon.pos)

theorem toNat_one_append (v : BitVec 52) : (1#1 ++ v).toNat = 2 ^ 52 + v.toNat := by
  rw [BitVec.toNat_append, ← Nat.shiftLeft_add_eq_or_of_lt v.isLt]
  simp [Nat.shiftLeft_eq]

theorem canonical_of_unpack {x : Float.Model} {s : Sign} {m : Nat} {e : Int} {h : 0 < m}
    (hx : x.unpack = .finite s m e h) : Canonical m e ∧ e ≤ 971 := by
  unfold Float.Model.unpack UnpackedFloat.unpack at hx
  have hmantissa := (@unpackMantissa Format.binary64 x.toBits.toBitVec).isLt
  have hexponent := (@unpackExponent Format.binary64 x.toBits.toBitVec).isLt
  have hbias : (Format.binary64.exponentBias : Int) + (52 : Nat) = 1075 := by decide
  dsimp only at hx
  rw [hbias] at hx
  split at hx
  · split at hx <;> cases hx
  · rename_i hinfinite
    have hne : (@unpackExponent Format.binary64 x.toBits.toBitVec).toNat ≠ 2047 := by
      intro hall
      exact hinfinite (BitVec.eq_of_toNat_eq hall)
    split at hx
    · rename_i hzero
      split at hx
      · cases hx
      · injection hx with _ hm he
        subst hm he
        rw [hzero]
        refine ⟨⟨h, Nat.lt_trans hmantissa (by decide), by decide, .inr (by decide)⟩, by decide⟩
    · rename_i hzero
      have hpos : (@unpackExponent Format.binary64 x.toBits.toBitVec).toNat ≠ 0 := by
        intro hz
        exact hzero (BitVec.eq_of_toNat_eq hz)
      injection hx with _ hm he
      subst hm he
      change _ < 2 ^ 52 at hmantissa
      change _ < 2 ^ 11 at hexponent
      rw [toNat_one_append]
      exact ⟨⟨by omega, by omega, by omega, .inl (by omega)⟩, by omega⟩

theorem pack_unpack (x : Float.Model) : Float.Model.pack x.unpack = x := by
  obtain ⟨bits, hvalid⟩ := x
  unfold Float.Model.pack Float.Model.unpack
  simp only [pack_unpack_of_valid hvalid]

theorem biased_eq (e : Int) : (e + Format.binary64.exponentBias +
    Format.binary64.mantissaBitsWithoutImplicit).toNat = (e + 1075).toNat := by
  change (e + 1023 + 52).toNat = _
  omega

theorem unpack_normal (s : Sign) {exponent : BitVec 11} (mantissa : BitVec 52)
    (hinfinite : exponent ≠ -1#11) (hzero : exponent ≠ 0#11) :
    UnpackedFloat.unpack Format.binary64 (packComponents Format.binary64 s exponent mantissa) =
      .finite s (1#1 ++ mantissa).toNat (exponent.toNat - 1075)
        (by rw [toNat_one_append]; omega) := by
  unfold UnpackedFloat.unpack
  simp only [unpackSign_packComponents, unpackExponent_packComponents,
    unpackMantissa_packComponents, Sign.ofBitVec_toBitVec, hinfinite, hzero, if_false]
  rfl

theorem unpack_subnormal (s : Sign) {mantissa : BitVec 52} (hpos : 0 < mantissa.toNat) :
    UnpackedFloat.unpack Format.binary64 (packComponents Format.binary64 s 0#11 mantissa) =
      .finite s mantissa.toNat (-1074) hpos := by
  have hzero : mantissa ≠ 0#52 := by
    rintro rfl
    exact absurd hpos (by decide)
  have hinfinite : (0#11 : BitVec 11) ≠ -1#11 := by decide
  unfold UnpackedFloat.unpack
  simp only [unpackSign_packComponents, unpackExponent_packComponents,
    unpackMantissa_packComponents, Sign.ofBitVec_toBitVec, hinfinite, hzero, if_false, if_true,
    dite_false]
  rfl

theorem unpack_pack_finite {m : Nat} {e : Int} (h : Canonical m e) (he : e ≤ 971) (s : Sign) :
    (Float.Model.pack (.finite s m e h.pos)).unpack = .finite s m e h.pos := by
  obtain ⟨hpos, hlt, hleast, hfull⟩ := h
  obtain ⟨j, hj⟩ : ∃ j : Nat, e + 1075 = j := ⟨(e + 1075).toNat, by omega⟩
  have hlog : m.log2 < 53 := (Nat.log2_lt (Nat.ne_of_gt hpos)).mpr hlt
  have hj' : (e + 1075).toNat = j := by omega
  change UnpackedFloat.unpack Format.binary64 (UnpackedFloat.pack Format.binary64 _) = _
  unfold UnpackedFloat.pack
  dsimp only
  rw [biased_eq, hj', if_neg (by omega)]
  by_cases hnormal : 2 ^ 52 ≤ m
  · have hlog' : 52 ≤ m.log2 := (Nat.le_log2 (Nat.ne_of_gt hpos)).mpr hnormal
    have hexponent : (BitVec.ofNat 11 j).toNat = j := by
      rw [BitVec.toNat_ofNat]
      omega
    have hmantissa : (1#1 ++ BitVec.ofNat 52 m).toNat = m := by
      rw [toNat_one_append, BitVec.toNat_ofNat]
      omega
    have hinfinite : BitVec.ofNat 11 j ≠ -1#11 := by
      intro hall
      have hall : j = 2047 := hexponent.symm.trans (congrArg BitVec.toNat hall)
      omega
    have hzero : BitVec.ofNat 11 j ≠ 0#11 := by
      intro hz
      have hz : j = 0 := hexponent.symm.trans (congrArg BitVec.toNat hz)
      omega
    rw [if_pos (show m.log2 + 1 = Format.binary64.mantissaBits by change _ = 53; omega),
      unpack_normal s _ hinfinite hzero]
    simp only [hmantissa, hexponent]
    congr 1
    omega
  · have hmantissa : (BitVec.ofNat 52 m).toNat = m := by
      rw [BitVec.toNat_ofNat]
      omega
    have hlog' : m.log2 < 52 := (Nat.log2_lt (Nat.ne_of_gt hpos)).mpr (by omega)
    rw [if_neg (show ¬ m.log2 + 1 = Format.binary64.mantissaBits by change ¬ _ = 53; omega),
      unpack_subnormal s (by omega)]
    simp only [hmantissa]
    congr 1
    omega

theorem unpack_pack_overflow {m : Nat} {e : Int} (hm : 0 < m) (he : 971 < e) (s : Sign) :
    (Float.Model.pack (.finite s m e hm)).unpack = .infinity s := by
  change UnpackedFloat.unpack Format.binary64 (UnpackedFloat.pack Format.binary64 _) = _
  unfold UnpackedFloat.pack
  dsimp only
  rw [biased_eq, if_pos (by omega)]
  cases s <;> rfl

end Splice.Decimal
