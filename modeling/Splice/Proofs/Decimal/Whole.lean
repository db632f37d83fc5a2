import Mathlib.Data.List.TakeWhile
import Mathlib.Tactic.Ring
import Splice.Decimal.Reader
import Splice.Proofs.Decimal.Binary
import Splice.Proofs.Tree.Spelling

/-! Whole numbers and their digits.  Digits read as the number nearest to them, which is a whole
number or infinite, and the digits of a whole number read as that number again. -/
namespace Splice.Decimal

open Float.Model Float.Model.UnpackedFloat

theorem ofScientific_small {n j : Nat} (h : Canonical (n * 2 ^ j) (-j)) :
    Float.ofScientific n false 0 = .ofModel (.pack (.finite .positive (n * 2 ^ j) (-j) h.pos)) := by
  have hpos : 0 < n := Nat.pos_of_mul_pos_right h.pos
  have hlt : n < 2 ^ 53 := Nat.lt_of_le_of_lt (Nat.le_mul_of_pos_right n (Nat.two_pow_pos j)) h.lt
  have hfit : n.toUInt64.toNat = n := by
    rw [Nat.toUInt64, UInt64.toNat_ofNat']
    omega
  have htotal : totalExponent n 0 = totalExponent (n * 2 ^ j) (-j) := by
    unfold totalExponent
    rw [log2_mul_two_pow hpos]
    omega
  have hround : UnpackedFloat.ofUInt64 Format.binary64 n.toUInt64 =
      .finite .positive (n * 2 ^ j) (-j) h.pos := by
    have hexact := roundWithAccuracy_exact h .positive 0
    have hcompare : compare (n : Int) 0 = .gt := Int.compare_eq_gt.mpr (by omega)
    have hshift : (0 - -(j : Int)).toNat = j := by omega
    rw [pow_zero, mul_one, Nat.cast_zero, sub_zero] at hexact
    unfold UnpackedFloat.ofUInt64 UnpackedFloat.ofNat UnpackedFloat.ofInt UnpackedFloat.normalize
    rw [hfit, hcompare]
    dsimp only
    unfold UnpackedFloat.round decreaseExponent
    simp only [Int.toNat_natCast, htotal, h.targetExponent, hshift, Nat.shiftLeft_eq]
    rw [zero_sub]
    exact hexact
  have hone : (Float.ofBits 0x3FF0000000000000).toModel.unpack =
      .finite .positive (2 ^ 52) (-52) (by decide) := by rfl
  have hunpack := unpack_pack_finite h (by omega) .positive
  have hmul := roundWithAccuracy_exact h .positive 52
  unfold Float.ofScientific
  rw [dif_pos ⟨hlt, by omega⟩]
  change Float.ofModel (.pack
    (UnpackedFloat.mul _ (Float.Model.pack (UnpackedFloat.ofUInt64 _ _)).unpack
    (Float.ofBits 0x3FF0000000000000).toModel.unpack)) = _
  rw [hround, hunpack, hone]
  exact congrArg (fun u => Float.ofModel (.pack u)) hmul

theorem ofScientific_slow {n : Nat} (hn : 2 ^ 53 ≤ n) :
    Float.ofScientific n false 0 =
      .ofModel (.pack (roundWithAccuracy Format.binary64 .positive (n * 2 ^ 53) (-53) .exact)) := by
  have hne : n ≠ 0 := by omega
  have hpower : (0 : Int) ≤ 2 ^ Format.binary64.exponentBits := by decide
  unfold Float.ofScientific
  rw [dif_neg (by omega)]
  simp only [Bool.false_eq_true, if_false]
  unfold Float.Model.ofScientific UnpackedFloat.ofScientific
  rw [dif_neg hne, if_neg (show ¬ (Int.ofNat 0 > _) by decide),
    if_neg (show ¬ (Int.ofNat 0 < _) by change ¬ ((0 : Int) < _); omega), if_pos (by decide)]
  unfold UnpackedFloat.mul
  simp only [Nat.shiftLeft_eq]
  rw [show (10 : Nat) ^ (Int.ofNat 0).toNat = 1 from rfl, mul_one]
  rfl

theorem ofScientific_large {m e : Nat} (h : Canonical m e) (he : 0 < e) :
    Float.ofScientific (m * 2 ^ e) false 0 = .ofModel (.pack (.finite .positive m e h.pos)) := by
  have hfull : 2 ^ 52 ≤ m := by
    rcases h.full with hfull | hleast
    · exact hfull
    · omega
  have hlarge : 2 ^ 53 ≤ m * 2 ^ e := by
    have htwo : 2 ^ 1 ≤ 2 ^ e := Nat.pow_le_pow_right (by decide) he
    calc 2 ^ 53 = 2 ^ 52 * 2 ^ 1 := by decide
      _ ≤ m * 2 ^ e := Nat.mul_le_mul hfull htwo
  have hexact := roundWithAccuracy_exact h .positive (e + 53)
  rw [ofScientific_slow hlarge, mul_assoc, ← pow_add]
  rw [show (e : Int) - ((e + 53 : Nat) : Int) = -53 by omega] at hexact
  rw [hexact]

theorem canonical_shifted {n : Nat} (hpos : 0 < n) (hn : n < 2 ^ 53) :
    Canonical (n * 2 ^ (52 - n.log2)) (-(52 - n.log2 : Nat)) := by
  have hlog : n.log2 < 53 := (Nat.log2_lt (Nat.ne_of_gt hpos)).mpr hn
  have hsize : (n * 2 ^ (52 - n.log2)).log2 = 52 := by
    rw [log2_mul_two_pow hpos]
    omega
  have hmul : 0 < n * 2 ^ (52 - n.log2) := Nat.mul_pos hpos (Nat.two_pow_pos _)
  exact ⟨hmul, (Nat.log2_lt (Nat.ne_of_gt hmul)).mp (by omega), by omega,
    .inl ((Nat.le_log2 (Nat.ne_of_gt hmul)).mp (by omega))⟩

theorem whole?_shifted (n j : Nat) : whole? (n * 2 ^ j) (-j) = some n := by
  have htwo : two (- -(j : Int)) = 2 ^ j := by
    unfold two
    rw [neg_neg, Int.toNat_natCast]
    rfl
  unfold whole?
  by_cases hj : j = 0
  · subst hj
    simp [two]
  · rw [if_neg (by omega), htwo, Nat.mul_mod_left, if_pos rfl,
      Nat.mul_div_cancel n (Nat.two_pow_pos j)]

theorem whole?_cases {m n : Nat} {e : Int} (h : whole? m e = some n) :
    (∃ j : Nat, m = n * 2 ^ j ∧ e = -j) ∨ ∃ k : Nat, 0 < k ∧ n = m * 2 ^ k ∧ e = k := by
  unfold whole? at h
  split at h
  · rename_i he
    obtain ⟨k, rfl⟩ := Int.eq_ofNat_of_zero_le he
    injection h with h
    rcases Nat.eq_zero_or_pos k with rfl | hk
    · exact .inl ⟨0, by simpa [two] using h, rfl⟩
    · exact .inr ⟨k, hk, h.symm, rfl⟩
  · obtain ⟨j, hj⟩ : ∃ j : Nat, e = -j := ⟨(-e).toNat, by omega⟩
    have htwo : two (-e) = 2 ^ j := by
      unfold two
      rw [hj, neg_neg, Int.toNat_natCast]
      rfl
    rw [htwo] at h
    split at h
    · rename_i hmod
      injection h with h
      refine .inl ⟨j, ?_, hj⟩
      rw [← h, Nat.div_mul_cancel (Nat.dvd_of_mod_eq_zero hmod)]
    · cases h

theorem sign_of_unpack {x : Float.Model} {s : Sign}
    (hx : x.unpack = .zero s ∨ ∃ m e h, x.unpack = .finite s m e h) :
    Sign.ofBitVec (@unpackSign Format.binary64 x.toBits.toBitVec) = s := by
  unfold Float.Model.unpack UnpackedFloat.unpack at hx
  dsimp only at hx
  split at hx
  · split at hx <;> simp at hx
  · split at hx
    · split at hx
      · simpa using hx
      · simp only [reduceCtorEq, false_or, finite.injEq] at hx
        obtain ⟨_, _, _, hs, _⟩ := hx
        exact hs
    · simp only [reduceCtorEq, false_or, finite.injEq] at hx
      obtain ⟨_, _, _, hs, _⟩ := hx
      exact hs

theorem toBits_lt_iff (x : Float.Model) : x.toBits < 0x8000000000000000 ↔
    Sign.ofBitVec (@unpackSign Format.binary64 x.toBits.toBitVec) = .positive := by
  have hlt : x.toBits.toNat < 2 ^ 64 := x.toBits.toNat_lt
  have hbit : (@unpackSign Format.binary64 x.toBits.toBitVec).toNat = x.toBits.toNat / 2 ^ 63 := by
    change x.toBits.toNat >>> 63 % 2 ^ 1 = _
    rw [Nat.shiftRight_eq_div_pow]
    omega
  have hpositive (b : BitVec 1) : Sign.ofBitVec b = .positive ↔ b.toNat = 0 := by
    have hzero : b.toNat = 0 ↔ b = 0#1 := @BitVec.toNat_inj 1 b 0#1
    rw [hzero]
    unfold Sign.ofBitVec
    split <;> simp_all
  rw [hpositive, hbit, UInt64.lt_iff_toNat_lt]
  change _ < 2 ^ 63 ↔ _
  omega

theorem isNatural_iff (x : Float) : isNatural x = true ↔
    x.toModel.unpack = .zero .positive ∨
      ∃ m e h n, x.toModel.unpack = .finite .positive m e h ∧ whole? m e = some n := by
  unfold isNatural integer?
  change (x.toModel.isFinite && _ && decide (x.toModel.toBits < _)) = true ↔ _
  rw [Bool.and_eq_true, decide_eq_true_iff, toBits_lt_iff]
  unfold Float.Model.isFinite
  cases hx : x.toModel.unpack with
  | notANumber => simp [UnpackedFloat.isFinite]
  | infinity s => simp [UnpackedFloat.isFinite]
  | zero s =>
    rw [sign_of_unpack (.inl hx)]
    simp [UnpackedFloat.isFinite]
  | finite s m e h =>
    rw [sign_of_unpack (.inr ⟨m, e, h, hx⟩)]
    cases s with
    | negative => simp
    | positive => cases hwhole : whole? m e <;> simp [UnpackedFloat.isFinite, h, hwhole]

theorem isNatural_pack_finite {m n : Nat} {e : Int} (h : Canonical m e) (he : e ≤ 971)
    (hwhole : whole? m e = some n) :
    isNatural (.ofModel (.pack (.finite .positive m e h.pos))) = true :=
  (isNatural_iff _).mpr (.inr ⟨m, e, h.pos, n, unpack_pack_finite h he .positive, hwhole⟩)

/-- Whether digits can stand for a number: it is a whole number without a sign, or too large. -/
def isLiteral (x : Float) : Bool :=
  isNatural x || x.toBits == infinity.toBits

theorem isNatural_of_isLiteral {x : Float} (hx : isLiteral x = true) (hfinite : x.isFinite = true) :
    isNatural x = true := by
  rcases Bool.or_eq_true_iff.mp hx with hnatural | hbits
  · exact hnatural
  · rw [Float.toBits_inj.mp (beq_iff_eq.mp hbits)] at hfinite
    exact absurd hfinite (by decide)

theorem isLiteral_ofScientific (n : Nat) : isLiteral (Float.ofScientific n false 0) = true := by
  rcases Nat.eq_zero_or_pos n with rfl | hpos
  · rfl
  rcases Nat.lt_or_ge n (2 ^ 53) with hlt | hlarge
  · have hcanon := canonical_shifted hpos hlt
    rw [ofScientific_small hcanon]
    exact Bool.or_eq_true_iff.mpr
      (.inl (isNatural_pack_finite hcanon (by omega) (whole?_shifted n _)))
  · obtain ⟨m, e, hcanon, he, hround⟩ := roundWithAccuracy_large n 53 hlarge .positive
    rw [Nat.cast_ofNat] at hround
    rw [ofScientific_slow hlarge, hround]
    rcases Int.lt_or_le 971 e with hover | hfits
    · have hinfinite := unpack_pack_overflow hcanon.pos hover .positive
      have hpack := pack_unpack (Float.Model.pack (.finite .positive m e hcanon.pos))
      rw [hinfinite] at hpack
      rw [← hpack]
      rfl
    · exact Bool.or_eq_true_iff.mpr (.inl (isNatural_pack_finite hcanon hfits (if_pos (by omega))))

theorem toLower_of_isDigit {c : Char} (hc : c.isDigit = true) : c.toLower = c := by
  simp only [Char.isDigit, Bool.and_eq_true, decide_eq_true_eq, ge_iff_le,
    UInt32.le_iff_toNat_le] at hc
  unfold Char.toLower
  rw [dif_neg]
  simp only [ge_iff_le, UInt32.le_iff_toNat_le]
  rintro ⟨hlow, -⟩
  exact absurd (Nat.le_trans hlow hc.2) (by decide)

theorem readMagnitude?_digit {c : Char} (cs : List Char) (hc : c.isDigit = true) :
    readMagnitude? (c :: cs) = readUnsigned? (c :: cs) := by
  have hword (word : String) (hw : word.toList.head?.all Char.isDigit = false) :
      String.ofList ((c :: cs).map Char.toLower) ≠ word := by
    rintro rfl
    simp [toLower_of_isDigit hc, hc] at hw
  unfold readMagnitude?
  dsimp only
  rw [if_neg, if_neg]
  · exact hword _ (by decide)
  · rintro (hinf | hinfinity)
    · exact hword _ (by decide) hinf
    · exact hword _ (by decide) hinfinity

theorem read?_digits {cs : List Char} (hne : cs ≠ []) (hdigits : ∀ c ∈ cs, c.isDigit = true) :
    read? (String.ofList cs) = some (Float.ofScientific (digitsValue cs) false 0) := by
  obtain ⟨c, cs, rfl⟩ := List.exists_cons_of_ne_nil hne
  have hc := hdigits c List.mem_cons_self
  have hsign : takeSign (c :: cs) = (false, c :: cs) := by
    unfold takeSign
    split <;> simp_all
  have htake : (c :: cs).takeWhile Char.isDigit = c :: cs :=
    List.takeWhile_eq_self_iff.mpr hdigits
  have hdrop : (c :: cs).dropWhile Char.isDigit = [] :=
    List.dropWhile_eq_nil_iff.mpr hdigits
  unfold read?
  rw [String.toList_ofList, hsign]
  dsimp only
  rw [readMagnitude?_digit cs hc]
  unfold readUnsigned?
  rw [htake, hdrop]
  simp [readExponent?]

theorem isDigit_of_mem_numeral (n : Nat) : ∀ c ∈ numeral n, c.isDigit = true :=
  fun _ hc => Nat.isDigit_of_mem_toDigits (by decide) (by decide) hc

theorem numeral_ne_nil (n : Nat) : numeral n ≠ [] :=
  Nat.toDigits_ne_nil

theorem read?_numeral (n : Nat) :
    read? (String.ofList (numeral n)) = some (Float.ofScientific n false 0) := by
  have hvalue : digitsValue (numeral n) = n := Nat.ofDigitChars_ten_toDigits
  rw [read?_digits (numeral_ne_nil n) (isDigit_of_mem_numeral n), hvalue]

/-- The text of a number without a sign is made of digits that read as it. -/
theorem text_of_isNatural {x : Float} (hx : isNatural x = true) :
    ∃ n, text x = String.ofList (numeral n) ∧ Float.ofScientific n false 0 = x := by
  have hpack : Float.ofModel (.pack x.toModel.unpack) = x := by rw [pack_unpack]
  unfold text
  rcases (isNatural_iff x).mp hx with hzero | ⟨m, e, h, n, hfinite, hwhole⟩
  · rw [hzero] at hpack ⊢
    exact ⟨0, rfl, hpack⟩
  · have hcanon := (canonical_of_unpack hfinite).1
    rw [hfinite] at hpack ⊢
    refine ⟨n, ?_, ?_⟩
    · simp only [signed, magnitudeText, hwhole]
    · rw [← hpack]
      rcases whole?_cases hwhole with ⟨j, rfl, rfl⟩ | ⟨k, hk, rfl, rfl⟩
      · exact ofScientific_small hcanon
      · exact ofScientific_large hcanon hk

theorem read?_text {x : Float} (hx : isNatural x = true) : read? (text x) = some x := by
  obtain ⟨n, htext, hvalue⟩ := text_of_isNatural hx
  rw [htext, read?_numeral, hvalue]

end Splice.Decimal
