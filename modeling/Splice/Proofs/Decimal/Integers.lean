import Splice.Proofs.Decimal.Whole

/-! Arithmetic on whole numbers.  Numbers below `2 ^ 53` in size are added, subtracted, multiplied
and compared exactly as the integers that they stand for; a product that is too large for that is
rounded to a number that is too large as well. -/
namespace Splice.Decimal

open Float.Model Float.Model.UnpackedFloat

/-- The unpacked numbers that stand for an integer, up to the sign of zero. -/
inductive Stands : UnpackedFloat → Int → Prop where
  | zero (s : Sign) : Stands (.zero s) 0
  | finite (s : Sign) {n j : Nat} (h : Canonical (n * 2 ^ j) (-j)) :
      Stands (.finite s (n * 2 ^ j) (-j) h.pos) (s.apply n)

theorem natAbs_apply (s : Sign) (n : Nat) : (s.apply n).natAbs = n := by
  cases s <;> simp [Sign.apply]

theorem integer?_eq (x : Float) :
    integer? x = match x.toModel.unpack with
      | .zero _ => some 0
      | .finite s m e _ => (whole? m e).map fun n : Nat => s.apply n
      | _ => none := by
  unfold integer?
  cases x.toModel.unpack with
  | finite s m e h => cases s <;> cases hwhole : whole? m e <;> simp [hwhole, Sign.apply]
  | _ => rfl

theorem stands_of_integer? {x : Float} {n : Int} (h : integer? x = some n)
    (hn : n.natAbs < 2 ^ 53) : Stands x.toModel.unpack n := by
  rw [integer?_eq] at h
  cases hx : x.toModel.unpack with
  | notANumber | infinity s =>
    rw [hx] at h
    cases h
  | zero s =>
    rw [hx] at h
    cases h
    exact .zero s
  | finite s m e hpos =>
    rw [hx] at h
    obtain ⟨k, hwhole, rfl⟩ := Option.map_eq_some_iff.mp h
    have hcanon := (canonical_of_unpack hx).1
    rw [natAbs_apply] at hn
    rcases whole?_cases hwhole with ⟨j, rfl, rfl⟩ | ⟨j, hj, rfl, rfl⟩
    · exact .finite s hcanon
    · -- A significand of 53 bits with zeros behind it is too large.
      have hfull : 2 ^ 52 ≤ m := by
        rcases hcanon.full with hfull | hleast
        · exact hfull
        · omega
      have htwo : 2 ^ 1 ≤ 2 ^ j := Nat.pow_le_pow_right (by decide) hj
      have hlarge : 2 ^ 52 * 2 ^ 1 ≤ m * 2 ^ j := Nat.mul_le_mul hfull htwo
      omega

theorem Stands.integer? {u : UnpackedFloat} {n : Int} (h : Stands u n) :
    integer? (.ofModel (.pack u)) = some n := by
  rw [integer?_eq]
  cases h with
  | zero s => cases s <;> rfl
  | finite s h =>
    change (match (Float.Model.pack _).unpack with
      | .zero _ => some 0
      | .finite s m e _ => (whole? m e).map fun n : Nat => s.apply n
      | _ => none) = _
    rw [unpack_pack_finite h (by omega) s]
    dsimp only
    rw [whole?_shifted]
    rfl

theorem Stands.isNaN {u : UnpackedFloat} {n : Int} (h : Stands u n) : u.isNaN = false := by
  cases h <;> rfl

theorem Stands.neg {u : UnpackedFloat} {n : Int} (h : Stands u n) : Stands u.neg (-n) := by
  cases h with
  | zero s => exact .zero (-s)
  | @finite s n j h =>
    have hsign : -s.apply n = (-s).apply n := by
      cases s with
      | negative => exact Int.neg_neg n
      | positive => rfl
    rw [hsign]
    exact .finite (-s) h

/-- Rounding leaves an integer of at most 53 bits alone, with enough zero bits behind it. -/
theorem roundWithAccuracy_integer {n j : Nat} (hpos : 0 < n) (hn : n < 2 ^ 53)
    (hj : 52 ≤ n.log2 + j) (s : Sign) :
    Stands (roundWithAccuracy Format.binary64 s (n * 2 ^ j) (-j) .exact) (s.apply n) := by
  have hcanon := canonical_shifted hpos hn
  have hexact := roundWithAccuracy_exact hcanon s (j - (52 - n.log2))
  rw [mul_assoc, ← pow_add, show 52 - n.log2 + (j - (52 - n.log2)) = j by omega,
    show -((52 - n.log2 : Nat) : Int) - (j - (52 - n.log2) : Nat) = -j by omega] at hexact
  rw [hexact]
  exact .finite s hcanon

theorem round_integer {n j : Nat} (hpos : 0 < n) (hn : n < 2 ^ 53) (s : Sign) :
    Stands (round Format.binary64 s (n * 2 ^ j) (-j)) (s.apply n) := by
  have hcanon := canonical_shifted hpos hn
  have htarget : Format.binary64.targetExponent (totalExponent (n * 2 ^ j) (-j)) =
      -(52 - n.log2 : Nat) := by
    rw [← hcanon.targetExponent]
    unfold totalExponent
    rw [log2_mul_two_pow hpos, log2_mul_two_pow hpos]
    congr 1
    omega
  have hshift : (-(j : Int) - -((52 - n.log2 : Nat) : Int)).toNat = 52 - n.log2 - j := by omega
  unfold UnpackedFloat.round decreaseExponent
  simp only [htarget, hshift, Nat.shiftLeft_eq]
  rw [mul_assoc, ← pow_add, show -(j : Int) - (52 - n.log2 - j : Nat) =
    -((j + (52 - n.log2 - j) : Nat) : Int) by omega]
  exact roundWithAccuracy_integer hpos hn (by omega) s

theorem normalize_integer {n : Int} {j : Nat} (hn : n.natAbs < 2 ^ 53) (s : Sign) :
    Stands (normalize Format.binary64 (n * 2 ^ j) (-j) s) n := by
  have htwo : (0 : Int) < 2 ^ j := by positivity
  unfold UnpackedFloat.normalize
  rcases Int.lt_trichotomy n 0 with hneg | rfl | hpos
  · have hmul : n * 2 ^ j < 0 := Int.mul_neg_of_neg_of_pos hneg htwo
    obtain ⟨k, rfl⟩ : ∃ k : Nat, n = -k := ⟨n.natAbs, by omega⟩
    have hcast : (-(-(k : Int) * 2 ^ j)).toNat = k * 2 ^ j := by
      rw [neg_mul, neg_neg]
      exact_mod_cast Int.toNat_natCast (k * 2 ^ j)
    rw [Int.compare_eq_lt.mpr hmul]
    dsimp only
    rw [hcast]
    exact round_integer (by omega) (by omega) .negative
  · rw [zero_mul]
    exact .zero s
  · have hmul : 0 < n * 2 ^ j := Int.mul_pos hpos htwo
    obtain ⟨k, rfl⟩ : ∃ k : Nat, n = k := ⟨n.natAbs, by omega⟩
    have hcast : ((k : Int) * 2 ^ j).toNat = k * 2 ^ j := by
      exact_mod_cast Int.toNat_natCast (k * 2 ^ j)
    rw [Int.compare_eq_gt.mpr hmul]
    dsimp only
    rw [hcast]
    exact round_integer (by omega) (by omega) .positive

theorem decreaseExponent_shifted (s : Sign) (n : Nat) {j k : Nat} (hjk : j ≤ k) :
    s.apply (decreaseExponent (n * 2 ^ j) (-j) (-k)).1 = s.apply n * 2 ^ k := by
  have hshift : (-(j : Int) - -(k : Int)).toNat = k - j := by omega
  have hvalue : (decreaseExponent (n * 2 ^ j) (-j) (-k)).1 = n * 2 ^ k := by
    unfold decreaseExponent
    simp only [hshift, Nat.shiftLeft_eq]
    rw [mul_assoc, ← pow_add, show j + (k - j) = k by omega]
  rw [hvalue]
  cases s <;> simp [Sign.apply]

theorem Stands.add {u v : UnpackedFloat} {m n : Int} (hu : Stands u m) (hv : Stands v n)
    (hsum : (m + n).natAbs < 2 ^ 53) : Stands (UnpackedFloat.add Format.binary64 u v) (m + n) := by
  cases hu with
  | zero s =>
    rw [zero_add]
    cases hv with
    | zero s' => cases s <;> cases s' <;> exact .zero _
    | finite s' h' => exact .finite s' h'
  | @finite s m j h =>
    cases hv with
    | zero s' =>
      rw [add_zero]
      exact .finite s h
    | @finite s' n k h' =>
      have hmin : min (-(j : Int)) (-(k : Int)) = -((max j k : Nat) : Int) := by omega
      unfold UnpackedFloat.add
      simp only [hmin]
      rw [decreaseExponent_shifted s m (Nat.le_max_left j k),
        decreaseExponent_shifted s' n (Nat.le_max_right j k), ← add_mul]
      exact normalize_integer hsum .positive

theorem sub_eq_add_neg (u v : UnpackedFloat) :
    UnpackedFloat.sub Format.binary64 u v = UnpackedFloat.add Format.binary64 u v.neg := by
  have happly (s : Sign) (m : Nat) : (-s).apply m = -s.apply m := by
    cases s with
    | negative => exact (Int.neg_neg m).symm
    | positive => rfl
  cases u with
  | finite s m e h =>
    cases v with
    | finite s' m' e' h' =>
      unfold UnpackedFloat.sub UnpackedFloat.add UnpackedFloat.neg
      simp only [happly, Int.sub_eq_add_neg]
    | _ => rfl
  | _ => cases v <;> rfl

theorem Stands.sub {u v : UnpackedFloat} {m n : Int} (hu : Stands u m) (hv : Stands v n)
    (hdiff : (m - n).natAbs < 2 ^ 53) :
    Stands (UnpackedFloat.sub Format.binary64 u v) (m - n) := by
  rw [sub_eq_add_neg, Int.sub_eq_add_neg]
  exact hu.add hv.neg (by rwa [← Int.sub_eq_add_neg])

theorem apply_mul (s s' : Sign) (m n : Nat) :
    (s * s').apply (m * n : Nat) = s.apply m * s'.apply n := by
  rw [Int.natCast_mul]
  match s, s' with
  | .negative, .negative => exact (neg_mul_neg (m : Int) n).symm
  | .negative, .positive => exact (neg_mul (m : Int) n).symm
  | .positive, .negative => exact (mul_neg (m : Int) n).symm
  | .positive, .positive => rfl

theorem Canonical.full_of_shifted {n j : Nat} (h : Canonical (n * 2 ^ j) (-j)) :
    2 ^ 52 ≤ n * 2 ^ j ∧ j ≤ 52 := by
  have hpos : 0 < n := Nat.pos_of_mul_pos_right h.pos
  have hlt : 2 ^ j < 2 ^ 53 := Nat.lt_of_le_of_lt (Nat.le_mul_of_pos_left _ hpos) h.lt
  have hj : j < 53 := (Nat.pow_lt_pow_iff_right (by decide)).mp hlt
  rcases h.full with hfull | hleast
  · exact ⟨hfull, by omega⟩
  · omega

theorem log2_mul_shifted {m n j k : Nat} (h : Canonical (m * 2 ^ j) (-j))
    (h' : Canonical (n * 2 ^ k) (-k)) : 104 ≤ (m * n).log2 + (j + k) := by
  have hmul : 2 ^ 52 * 2 ^ 52 ≤ m * 2 ^ j * (n * 2 ^ k) :=
    Nat.mul_le_mul h.full_of_shifted.1 h'.full_of_shifted.1
  have hpos : 0 < m * n :=
    Nat.mul_pos (Nat.pos_of_mul_pos_right h.pos) (Nat.pos_of_mul_pos_right h'.pos)
  rw [mul_mul_mul_comm, ← pow_add, ← pow_add] at hmul
  rw [← log2_mul_two_pow hpos]
  exact (Nat.le_log2 (Nat.ne_of_gt (Nat.mul_pos hpos (Nat.two_pow_pos _)))).mpr hmul

theorem mul_finite (s s' : Sign) {m n j k : Nat} (h : Canonical (m * 2 ^ j) (-j))
    (h' : Canonical (n * 2 ^ k) (-k)) :
    UnpackedFloat.mul Format.binary64 (.finite s (m * 2 ^ j) (-j) h.pos)
        (.finite s' (n * 2 ^ k) (-k) h'.pos) =
      roundWithAccuracy Format.binary64 (s * s') (m * n * 2 ^ (j + k)) (-(j + k : Nat)) .exact := by
  unfold UnpackedFloat.mul
  dsimp only
  rw [mul_mul_mul_comm, ← pow_add, Nat.cast_add, neg_add]

theorem Stands.mul {u v : UnpackedFloat} {m n : Int} (hu : Stands u m) (hv : Stands v n)
    (hproduct : (m * n).natAbs < 2 ^ 53) :
    Stands (UnpackedFloat.mul Format.binary64 u v) (m * n) := by
  cases hu with
  | zero s =>
    rw [zero_mul]
    cases hv with
    | zero s' => exact .zero _
    | finite s' h' => exact .zero _
  | @finite s m j h =>
    cases hv with
    | zero s' =>
      rw [mul_zero]
      exact .zero _
    | @finite s' n k h' =>
      have hpos : 0 < m * n :=
        Nat.mul_pos (Nat.pos_of_mul_pos_right h.pos) (Nat.pos_of_mul_pos_right h'.pos)
      have hlog := log2_mul_shifted h h'
      rw [← apply_mul, natAbs_apply] at hproduct
      rw [mul_finite s s' h h', ← apply_mul]
      exact roundWithAccuracy_integer hpos hproduct (by omega) _

/-- A product that is too large for 53 bits is rounded to a number that is. -/
theorem Stands.mul_large {u v : UnpackedFloat} {m n : Int} (hu : Stands u m) (hv : Stands v n)
    (hproduct : 2 ^ 53 ≤ (m * n).natAbs) :
    ∃ s k e, ∃ h : Canonical k e, 1 ≤ e ∧
      UnpackedFloat.mul Format.binary64 u v = .finite s k e h.pos := by
  cases hu with
  | zero s => simp at hproduct
  | @finite s m j h =>
    cases hv with
    | zero s' => simp at hproduct
    | @finite s' n k h' =>
      rw [← apply_mul, natAbs_apply] at hproduct
      rw [mul_finite s s' h h']
      exact ⟨s * s', roundWithAccuracy_large (m * n) (j + k) hproduct _⟩

theorem lt_of_shifted {m n j k : Nat} (h : Canonical (m * 2 ^ j) (-j))
    (h' : Canonical (n * 2 ^ k) (-k)) (hjk : j < k) : n < m := by
  have hpow : 2 ^ (j + 1) ≤ 2 ^ k := Nat.pow_le_pow_right (by decide) hjk
  have hlt : n * 2 ^ k < m * 2 ^ k :=
    calc n * 2 ^ k < 2 ^ 52 * 2 := h'.lt
      _ ≤ m * 2 ^ j * 2 := Nat.mul_le_mul_right 2 h.full_of_shifted.1
      _ = m * 2 ^ (j + 1) := by ring
      _ ≤ m * 2 ^ k := Nat.mul_le_mul_left m hpow
  exact Nat.lt_of_mul_lt_mul_right hlt

theorem compare_shifted {m n j k : Nat} (h : Canonical (m * 2 ^ j) (-j))
    (h' : Canonical (n * 2 ^ k) (-k)) :
    (compare (-(j : Int)) (-(k : Int))).then (compare (m * 2 ^ j) (n * 2 ^ k)) =
      compare (m : Int) n := by
  rcases Nat.lt_trichotomy j k with hjk | rfl | hkj
  · have hlt := lt_of_shifted h h' hjk
    rw [Int.compare_eq_gt.mpr (by omega), Int.compare_eq_gt.mpr (by omega)]
    rfl
  · rw [Std.ReflOrd.compare_self]
    rcases Nat.lt_trichotomy m n with hmn | rfl | hnm
    · have hmul := Nat.mul_lt_mul_of_pos_right hmn (Nat.two_pow_pos j)
      rw [Nat.compare_eq_lt.mpr hmul, Int.compare_eq_lt.mpr (by omega)]
      rfl
    · simp
    · have hmul := Nat.mul_lt_mul_of_pos_right hnm (Nat.two_pow_pos j)
      rw [Nat.compare_eq_gt.mpr hmul, Int.compare_eq_gt.mpr (by omega)]
      rfl
  · have hlt := lt_of_shifted h' h hkj
    rw [Int.compare_eq_lt.mpr (by omega), Int.compare_eq_lt.mpr (by omega)]
    rfl

theorem compare_neg (m n : Int) : compare (-m) (-n) = (compare m n).swap := by
  rcases Int.lt_trichotomy m n with hmn | rfl | hnm
  · rw [Int.compare_eq_lt.mpr hmn, Int.compare_eq_gt.mpr (by omega)]
    rfl
  · rw [Std.ReflOrd.compare_self, Std.ReflOrd.compare_self]
    rfl
  · rw [Int.compare_eq_gt.mpr hnm, Int.compare_eq_lt.mpr (by omega)]
    rfl

theorem Stands.compare {u v : UnpackedFloat} {m n : Int} (hu : Stands u m) (hv : Stands v n) :
    UnpackedFloat.compare u v = some (Ord.compare m n) := by
  have hlt {m n : Int} (h : m < n) : some Ordering.lt = some (Ord.compare m n) := by
    rw [Int.compare_eq_lt.mpr h]
  have hgt {m n : Int} (h : n < m) : some Ordering.gt = some (Ord.compare m n) := by
    rw [Int.compare_eq_gt.mpr h]
  have hpos {n j : Nat} (h : Canonical (n * 2 ^ j) (-j)) : (0 : Int) < n :=
    Int.natCast_pos.mpr (Nat.pos_of_mul_pos_right h.pos)
  cases hu with
  | zero s =>
    cases hv with
    | zero s' => rfl
    | finite s' h' =>
      cases s' with
      | negative => exact hgt (Int.neg_neg_of_pos (hpos h'))
      | positive => exact hlt (hpos h')
  | finite s h =>
    cases hv with
    | zero s' =>
      cases s with
      | negative => exact hlt (Int.neg_neg_of_pos (hpos h))
      | positive => exact hgt (hpos h)
    | finite s' h' =>
      match s, s' with
      | .negative, .negative =>
        refine congrArg some (Eq.trans ?_ (compare_neg _ _).symm)
        rw [compare_shifted h h']
      | .negative, .positive => exact hlt (Int.neg_neg_of_pos (hpos h) |>.trans (hpos h'))
      | .positive, .negative => exact hgt (Int.neg_neg_of_pos (hpos h') |>.trans (hpos h))
      | .positive, .positive => exact congrArg some (compare_shifted h h')

def InRange (x : Float) : Prop :=
  -2147483648 ≤ x ∧ x ≤ 2147483647

instance : DecidablePred InRange := fun x =>
  inferInstanceAs (Decidable (-2147483648 ≤ x ∧ x ≤ 2147483647))

def Denotes (x : Float) (w : BitVec 32) : Prop :=
  integer? x = some w.toInt

variable {x y : Float} {m n : Int}

theorem lt_iff_of_integer? (hx : integer? x = some m) (hy : integer? y = some n)
    (hm : m.natAbs < 2 ^ 53) (hn : n.natAbs < 2 ^ 53) : x < y ↔ m < n := by
  have hcompare := (stands_of_integer? hx hm).compare (stands_of_integer? hy hn)
  change (decide (UnpackedFloat.lt x.toModel.unpack y.toModel.unpack = true)) = true ↔ _
  rw [decide_eq_true_iff, UnpackedFloat.lt, hcompare]
  simp [Int.compare_eq_lt]

theorem le_iff_of_integer? (hx : integer? x = some m) (hy : integer? y = some n)
    (hm : m.natAbs < 2 ^ 53) (hn : n.natAbs < 2 ^ 53) : x ≤ y ↔ m ≤ n := by
  have hcompare := (stands_of_integer? hx hm).compare (stands_of_integer? hy hn)
  change (decide (UnpackedFloat.le x.toModel.unpack y.toModel.unpack = true)) = true ↔ _
  rw [decide_eq_true_iff, UnpackedFloat.le, hcompare]
  simp [Int.isLE_compare]

theorem beq_iff_of_integer? (hx : integer? x = some m) (hy : integer? y = some n)
    (hm : m.natAbs < 2 ^ 53) (hn : n.natAbs < 2 ^ 53) : (x == y) = true ↔ m = n := by
  have hcompare := (stands_of_integer? hx hm).compare (stands_of_integer? hy hn)
  change UnpackedFloat.beq x.toModel.unpack y.toModel.unpack = true ↔ _
  rw [UnpackedFloat.beq, hcompare]
  simp

theorem inRange_iff_of_integer? (hx : integer? x = some n) (hn : n.natAbs < 2 ^ 53) :
    InRange x ↔ -2147483648 ≤ n ∧ n ≤ 2147483647 := by
  have hlow : integer? (-2147483648) = some (-2147483648) := by decide +kernel
  have hhigh : integer? 2147483647 = some 2147483647 := by decide +kernel
  unfold InRange
  rw [le_iff_of_integer? hlow hx (by decide) hn, le_iff_of_integer? hx hhigh hn (by decide)]

/-- Numbers with whole exponents are greater in size than all integers of at most 53 bits. -/
theorem compare_large {k : Nat} {e : Int} (h : Canonical k e) (he : 1 ≤ e) {v : UnpackedFloat}
    (hv : Stands v n) :
    UnpackedFloat.compare (Float.Model.pack (.finite .positive k e h.pos)).unpack v = some .gt ∧
      UnpackedFloat.compare v (Float.Model.pack (.finite .negative k e h.pos)).unpack =
        some .gt := by
  rcases Int.lt_or_le 971 e with hover | hfits
  · rw [unpack_pack_overflow h.pos hover, unpack_pack_overflow h.pos hover]
    cases hv with
    | zero s => exact ⟨rfl, rfl⟩
    | finite s h' => cases s <;> exact ⟨rfl, rfl⟩
  · rw [unpack_pack_finite h hfits, unpack_pack_finite h hfits]
    cases hv with
    | zero s => exact ⟨rfl, rfl⟩
    | @finite s n j h' =>
      have hgt : Ord.compare e (-(j : Int)) = .gt := Int.compare_eq_gt.mpr (by omega)
      have hlt : Ord.compare (-(j : Int)) e = .lt := Int.compare_eq_lt.mpr (by omega)
      cases s with
      | negative =>
        refine ⟨rfl, ?_⟩
        unfold UnpackedFloat.compare
        rw [hlt]
        rfl
      | positive =>
        refine ⟨?_, rfl⟩
        unfold UnpackedFloat.compare
        rw [hgt]
        rfl

theorem not_inRange_of_large {s : Sign} {k : Nat} {e : Int} (h : Canonical k e) (he : 1 ≤ e) :
    ¬ InRange (.ofModel (.pack (.finite s k e h.pos))) := by
  have hlow : Stands (-2147483648 : Float).toModel.unpack (-2147483648) :=
    stands_of_integer? (by decide +kernel) (by decide)
  have hhigh : Stands (2147483647 : Float).toModel.unpack 2147483647 :=
    stands_of_integer? (by decide +kernel) (by decide)
  rintro ⟨hbelow, habove⟩
  cases s with
  | negative =>
    change (decide (UnpackedFloat.le _ _ = true)) = true at hbelow
    rw [decide_eq_true_iff, UnpackedFloat.le] at hbelow
    change Option.any _ (UnpackedFloat.compare _ (Float.Model.pack _).unpack) = true at hbelow
    rw [(compare_large h he hlow).2] at hbelow
    cases hbelow
  | positive =>
    change (decide (UnpackedFloat.le _ _ = true)) = true at habove
    rw [decide_eq_true_iff, UnpackedFloat.le] at habove
    change Option.any _ (UnpackedFloat.compare (Float.Model.pack _).unpack _) = true at habove
    rw [(compare_large h he hhigh).1] at habove
    cases habove

variable {v w : BitVec 32}

theorem natAbs_toInt_le (w : BitVec 32) : w.toInt.natAbs ≤ 2 ^ 31 := by
  have hlow := BitVec.le_toInt w
  have hhigh := BitVec.toInt_lt (x := w)
  omega

theorem toInt_ofInt_of_inRange (hlow : -2147483648 ≤ n) (hhigh : n ≤ 2147483647) :
    (BitVec.ofInt 32 n).toInt = n := by
  rw [BitVec.toInt_ofInt]
  exact Int.bmod_eq_of_le (by omega) (by omega)

theorem denotes_ofInt (hx : integer? x = some n) (hn : n.natAbs < 2 ^ 53) (hrange : InRange x) :
    Denotes x (BitVec.ofInt 32 n) := by
  obtain ⟨hlow, hhigh⟩ := (inRange_iff_of_integer? hx hn).mp hrange
  rw [Denotes, toInt_ofInt_of_inRange hlow hhigh, hx]

theorem Denotes.add (hx : Denotes x v) (hy : Denotes y w) (hrange : InRange (x + y)) :
    Denotes (x + y) (v + w) := by
  have hv := natAbs_toInt_le v
  have hw := natAbs_toInt_le w
  have hsum := ((stands_of_integer? hx (by omega)).add (stands_of_integer? hy (by omega))
    (by omega)).integer?
  have hword := denotes_ofInt hsum (by omega) hrange
  rwa [BitVec.ofInt_add, BitVec.ofInt_toInt, BitVec.ofInt_toInt] at hword

theorem Denotes.sub (hx : Denotes x v) (hy : Denotes y w) (hrange : InRange (x - y)) :
    Denotes (x - y) (v - w) := by
  have hv := natAbs_toInt_le v
  have hw := natAbs_toInt_le w
  have hdiff := ((stands_of_integer? hx (by omega)).sub (stands_of_integer? hy (by omega))
    (by omega)).integer?
  have hword := denotes_ofInt hdiff (by omega) hrange
  rwa [Int.sub_eq_add_neg, BitVec.ofInt_add, BitVec.ofInt_neg, BitVec.ofInt_toInt,
    BitVec.ofInt_toInt, ← BitVec.sub_eq_add_neg] at hword

theorem Denotes.mul (hx : Denotes x v) (hy : Denotes y w) (hrange : InRange (x * y)) :
    Denotes (x * y) (v * w) := by
  have hv := natAbs_toInt_le v
  have hw := natAbs_toInt_le w
  have hstands := stands_of_integer? hx (by omega)
  have hstands' := stands_of_integer? hy (by omega)
  rcases Nat.lt_or_ge (v.toInt * w.toInt).natAbs (2 ^ 53) with hsmall | hlarge
  · have hword := denotes_ofInt (hstands.mul hstands' hsmall).integer? hsmall hrange
    rwa [BitVec.ofInt_mul, BitVec.ofInt_toInt, BitVec.ofInt_toInt] at hword
  · obtain ⟨s, k, e, hcanon, he, hmul⟩ := hstands.mul_large hstands' hlarge
    have hvalue : x * y = .ofModel (.pack (.finite s k e hcanon.pos)) :=
      congrArg (fun u => Float.ofModel (.pack u)) hmul
    rw [hvalue] at hrange
    exact absurd hrange (not_inRange_of_large hcanon he)

theorem Denotes.lt_iff (hx : Denotes x v) (hy : Denotes y w) : x < y ↔ v.slt w = true := by
  have hv := natAbs_toInt_le v
  have hw := natAbs_toInt_le w
  rw [lt_iff_of_integer? hx hy (by omega) (by omega), BitVec.slt_iff_toInt_lt]

theorem Denotes.beq_iff (hx : Denotes x v) (hy : Denotes y w) : (x == y) = true ↔ v = w := by
  have hv := natAbs_toInt_le v
  have hw := natAbs_toInt_le w
  rw [beq_iff_of_integer? hx hy (by omega) (by omega), BitVec.toInt_inj]

theorem Denotes.isNaN (hx : Denotes x w) : x.isNaN = false := by
  have hw := natAbs_toInt_le w
  exact (stands_of_integer? hx (by omega)).isNaN

end Splice.Decimal
