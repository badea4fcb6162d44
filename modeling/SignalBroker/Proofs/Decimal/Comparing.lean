import SignalBroker.Proofs.Decimal.Packing

namespace SignalBroker.Double

open Float.Model (UnpackedFloat Format)
open Float.Model.UnpackedFloat

variable {m m' : ℕ} {e e' : ℤ} {a b : UnpackedFloat} {x y : Float}

theorem Canonical.isLE_iff (h : Canonical m e) (h' : Canonical m' e') :
    ((compare e e').then (compare m m')).isLE = true ↔
      magnitude (m * 2 ^ e) ≤ magnitude (m' * 2 ^ e') := by
  rw [h.magnitude_eq, h'.magnitude_eq]
  have := h.small
  have := h'.small
  have := h.full
  have := h'.full
  have := h.least
  have := h'.least
  obtain hlt | rfl | hlt := lt_trichotomy e e'
  · rw [compare_lt_iff_lt.mpr hlt]
    exact iff_of_true rfl (by omega)
  · rw [compare_eq_iff_eq.mpr rfl]
    simp [Nat.isLE_compare]
  · rw [compare_gt_iff_gt.mpr hlt]
    exact iff_of_false (by simp) (by omega)

theorem Canonical.isGE_iff (h : Canonical m e) (h' : Canonical m' e') :
    ((compare e e').then (compare m m')).isGE = true ↔
      magnitude (m' * 2 ^ e') ≤ magnitude (m * 2 ^ e) := by
  rw [← Ordering.isLE_swap, Ordering.swap_then, ← Std.OrientedOrd.eq_swap, ← Std.OrientedOrd.eq_swap]
  exact h'.isLE_iff h

structure Stored (u : UnpackedFloat) : Prop where
  regular : Regular u
  settled : settled u = u

theorem Stored.exponent_le {s : Sign} {hm : 0 < m} (h : Stored (.finite s m e hm)) : e ≤ 971 := by
  by_contra hlt
  have := h.settled
  rw [Double.settled, if_neg hlt] at this
  cases this

theorem Stored.magnitude_bounds {s : Sign} {hm : 0 < m} (h : Stored (.finite s m e hm)) :
    0 < magnitude (m * 2 ^ e) ∧ magnitude (m * 2 ^ e) < top := by
  have := h.exponent_le
  have hcanonical : Canonical m e := h.regular
  have := hcanonical.small
  have := hcanonical.least
  rw [hcanonical.magnitude_eq, top]
  omega

theorem le_iff_machineRank (ha : Stored a) (hb : Stored b) : a.le b = true ↔
    a ≠ .notANumber ∧ b ≠ .notANumber ∧ machineRank a ≤ machineRank b := by
  have htop : 0 < top := by decide
  unfold UnpackedFloat.le
  cases a with
  | notANumber => simp [UnpackedFloat.compare]
  | infinity s =>
    cases b with
    | notANumber => cases s <;> simp [UnpackedFloat.compare]
    | infinity s' => 
      cases s <;> cases s' <;>
        simp [UnpackedFloat.compare, machineRank, Sign.apply, compare, htop.le, htop]
    | zero s' => cases s <;> simp [UnpackedFloat.compare, machineRank, Sign.apply] <;> omega
    | finite s' m' e' hm' =>
      have := hb.magnitude_bounds
      cases s <;> cases s' <;>
        simp [UnpackedFloat.compare, machineRank, Sign.apply] <;> omega
  | zero s =>
    cases b with
    | notANumber => simp [UnpackedFloat.compare]
    | infinity s' => cases s' <;> simp [UnpackedFloat.compare, machineRank, Sign.apply] <;> omega
    | zero s' => simp [UnpackedFloat.compare, machineRank]
    | finite s' m' e' hm' =>
      have := hb.magnitude_bounds
      cases s' <;> simp [UnpackedFloat.compare, machineRank, Sign.apply] <;> omega
  | finite s m e hm =>
    have := ha.magnitude_bounds
    cases b with
    | notANumber => cases s <;> simp [UnpackedFloat.compare]
    | infinity s' =>
      cases s <;> cases s' <;>
        simp [UnpackedFloat.compare, machineRank, Sign.apply] <;> omega
    | zero s' => cases s <;> simp [UnpackedFloat.compare, machineRank, Sign.apply] <;> omega
    | finite s' m' e' hm' =>
      have := hb.magnitude_bounds
      have hle := Canonical.isLE_iff ha.regular hb.regular
      have hge := Canonical.isGE_iff ha.regular hb.regular
      cases s <;> cases s' <;>
        simp [UnpackedFloat.compare, machineRank, Sign.apply, hle, hge] <;> omega

theorem toNat_unpackExponent (x : Float) :
    (@unpackExponent Format.binary64 x.toBits.toBitVec).toNat = exponentField x := by
  simp [unpackExponent, exponentField, Nat.shiftRight_eq_div_pow]

theorem toNat_unpackMantissa (x : Float) :
    (@unpackMantissa Format.binary64 x.toBits.toBitVec).toNat = fractionField x := by
  simp [unpackMantissa, fractionField]

theorem storedSignificand_toBits (x : Float) :
    storedSignificand x.toBits.toBitVec = significand x := by
  rw [storedSignificand, toNat_unpackExponent, toNat_unpackMantissa]
  rfl

theorem storedExponent_toBits (x : Float) : storedExponent x.toBits.toBitVec = exponent x := by
  rw [storedExponent, toNat_unpackExponent]
  rfl

def sign (x : Float) : Sign :=
  if isNegative x then .negative else .positive

theorem ofBitVec_unpackSign (x : Float) :
    Sign.ofBitVec (@unpackSign Format.binary64 x.toBits.toBitVec) = sign x := by
  have hbit : (@unpackSign Format.binary64 x.toBits.toBitVec).toNat =
      x.toBits.toNat / 0x8000000000000000 := by
    have := x.toBits.toNat_lt
    simp [unpackSign, Nat.shiftRight_eq_div_pow]
    omega
  rw [Sign.ofBitVec, sign, isNegative, ← hbit]
  generalize @unpackSign Format.binary64 x.toBits.toBitVec = c
  obtain rfl | rfl : c = 0#1 ∨ c = 1#1 := by
    revert c
    decide
  · rfl
  · rfl

theorem exponentField_lt (x : Float) : exponentField x < 2048 :=
  Nat.mod_lt _ (by decide)

theorem unpack_of_exponentField_lt (h : exponentField x < 2047) :
    (significand x = 0 ∧ x.toModel.unpack = .zero (sign x)) ∨
      ∃ hpos, x.toModel.unpack = .finite (sign x) (significand x) (exponent x) hpos := by
  rw [← toNat_unpackExponent] at h
  obtain hzero | hpos := Nat.eq_zero_or_pos (significand x)
  · refine .inl ⟨hzero, ?_⟩
    rw [← ofBitVec_unpackSign]
    exact unpack_of_zero ((storedSignificand_toBits x).trans hzero)
  · refine .inr ⟨hpos, ?_⟩
    rw [← storedSignificand_toBits] at hpos
    have := unpack_of_pos h hpos
    simp only [storedSignificand_toBits, storedExponent_toBits, ofBitVec_unpackSign] at this
    exact this

theorem unpack_of_exponentField_eq (h : exponentField x = 2047) :
    x.toModel.unpack = .infinity (sign x) ∨ x.toModel.unpack = .notANumber := by
  have hones : @unpackExponent Format.binary64 x.toBits.toBitVec = -1#_ := by
    rw [← BitVec.toNat_inj, toNat_unpackExponent, h]
    rfl
  show UnpackedFloat.unpack Format.binary64 x.toBits.toBitVec = _ ∨
    UnpackedFloat.unpack Format.binary64 x.toBits.toBitVec = _
  rw [UnpackedFloat.unpack, ← ofBitVec_unpackSign]
  simp only [hones, if_true]
  split
  · exact .inl rfl
  · exact .inr rfl

theorem isFinite_iff : x.isFinite = true ↔ exponentField x < 2047 := by
  show x.toModel.unpack.isFinite = true ↔ _
  obtain hlt | heq : exponentField x < 2047 ∨ exponentField x = 2047 := by
    have := exponentField_lt x
    omega
  · refine iff_of_true ?_ hlt
    obtain ⟨_, h⟩ | ⟨_, h⟩ := unpack_of_exponentField_lt hlt <;>
      exact congrArg UnpackedFloat.isFinite h
  · refine iff_of_false ?_ (by omega)
    obtain h | h := unpack_of_exponentField_eq heq <;> rw [h] <;> exact Bool.false_ne_true

theorem canonical_significand (x : Float) : Canonical (significand x) (exponent x) where
  small := significand_lt x
  least := by
    unfold exponent
    omega
  full := by
    unfold significand exponent
    split
    · next h => exact .inr (by rw [h]; rfl)
    · exact .inl (by omega)

theorem exponent_le (h : x.isFinite = true) : exponent x ≤ 971 := by
  have := isFinite_iff.mp h
  unfold exponent
  omega

theorem stored_unpack (x : Float) : Stored x.toModel.unpack := by
  by_cases hx : x.isFinite = true
  · obtain ⟨-, h⟩ | ⟨hpos, h⟩ := unpack_of_exponentField_lt (isFinite_iff.mp hx)
    · rw [h]
      exact ⟨trivial, rfl⟩
    · rw [h]
      exact ⟨canonical_significand x, if_pos (exponent_le hx)⟩
  · have heq : exponentField x = 2047 := by
      have := exponentField_lt x
      have := isFinite_iff.not.mp hx
      omega
    obtain h | h := unpack_of_exponentField_eq heq <;> rw [h] <;> exact ⟨trivial, rfl⟩

/-- The place of a double in the row of doubles, with the infinities at its ends. -/
def place (x : Float) : ℤ :=
  machineRank x.toModel.unpack

theorem isNaN_iff : x.isNaN = false ↔ x.toModel.unpack ≠ .notANumber := by
  show x.toModel.unpack.isNaN = false ↔ _
  cases x.toModel.unpack <;> simp [UnpackedFloat.isNaN]

theorem le_iff_place : x ≤ y ↔ x.isNaN = false ∧ y.isNaN = false ∧ place x ≤ place y := by
  rw [isNaN_iff, isNaN_iff]
  exact decide_eq_true_iff.trans (le_iff_machineRank (stored_unpack x) (stored_unpack y))

protected theorem le_refl (h : x.isNaN = false) : x ≤ x :=
  le_iff_place.mpr ⟨h, h, Int.le_refl _⟩

protected theorem le_trans {z : Float} (hxy : x ≤ y) (hyz : y ≤ z) : x ≤ z := by
  obtain ⟨hx, -, hxy⟩ := le_iff_place.mp hxy
  obtain ⟨-, hz, hyz⟩ := le_iff_place.mp hyz
  exact le_iff_place.mpr ⟨hx, hz, Int.le_trans hxy hyz⟩

theorem toRat_eq (x : Float) :
    toRat x = signed (sign x) (significand x * 2 ^ exponent x) := by
  have hm : ((if isNegative x then -(significand x : ℤ) else significand x : ℤ) : ℚ) =
      signed (sign x) (significand x) := by
    unfold sign
    split <;> simp [signed]
  rw [← signed_mul_right, ← hm, toRat]
  split
  · next h =>
    obtain ⟨k, hk⟩ := Int.eq_ofNat_of_zero_le h
    rw [hk]
    simp
  · next h =>
    obtain ⟨k, hk⟩ := Int.eq_ofNat_of_zero_le (a := -exponent x) (by omega)
    rw [hk, neg_eq_iff_eq_neg.mp hk]
    rw [Rat.mkRat_eq_div, Int.toNat_natCast, zpow_neg, zpow_natCast, div_eq_mul_inv]
    norm_cast

theorem place_of_isFinite (h : x.isFinite = true) : place x = rank (toRat x) := by
  rw [place, toRat_eq, rank_signed _ (mul_nonneg (Nat.cast_nonneg _) (two_zpow_pos _).le)]
  obtain ⟨hzero, hx⟩ | ⟨hpos, hx⟩ := unpack_of_exponentField_lt (isFinite_iff.mp h)
  · rw [hx, hzero]
    cases sign x <;> simp [Sign.apply, machineRank]
  · rw [hx]
    rfl

theorem place_bounds (h : x.isFinite = true) : -top < place x ∧ place x < top := by
  have htop : 0 < top := by decide
  have hstored := stored_unpack x
  unfold place
  obtain ⟨_, hx⟩ | ⟨_, hx⟩ := unpack_of_exponentField_lt (isFinite_iff.mp h)
  · rw [hx]
    exact ⟨by simpa [machineRank] using htop, htop⟩
  · rw [hx] at hstored ⊢
    have := hstored.magnitude_bounds
    cases sign x <;> simp only [machineRank, Sign.apply] <;> omega

theorem unpack_of_not_isFinite (h : x.isFinite = false) (hnan : x.isNaN = false) :
    x.toModel.unpack = .infinity (sign x) := by
  have heq : exponentField x = 2047 := by
    have := exponentField_lt x
    have : ¬exponentField x < 2047 := fun hlt => by simp [isFinite_iff.mpr hlt] at h
    omega
  exact (unpack_of_exponentField_eq heq).resolve_right (isNaN_iff.mp hnan)

theorem place_of_not_isFinite (h : x.isFinite = false) (hnan : x.isNaN = false) :
    place x = -top ∨ place x = top := by
  rw [place, unpack_of_not_isFinite h hnan]
  cases sign x with
  | negative => exact .inl rfl
  | positive => exact .inr rfl

theorem isFinite_of_between {low high : Float} (hlow : low.isFinite = true)
    (hhigh : high.isFinite = true) (hle : low ≤ x) (hge : x ≤ high) : x.isFinite = true := by
  obtain ⟨-, hnan, hle⟩ := le_iff_place.mp hle
  obtain ⟨-, -, hge⟩ := le_iff_place.mp hge
  have hlow := place_bounds hlow
  have hhigh := place_bounds hhigh
  cases hx : x.isFinite with
  | true => rfl
  | false =>
    have := place_of_not_isFinite hx hnan
    omega

theorem scaled_nonneg (x : Float) : (0 : ℚ) ≤ significand x * 2 ^ exponent x :=
  mul_nonneg (Nat.cast_nonneg _) (two_zpow_pos _).le

/-- Only the zeros share a place. -/
theorem toRat_eq_of_place_eq (hx : x.isFinite = true) (hy : y.isFinite = true)
    (h : place x = place y) : toRat x = toRat y := by
  rw [place_of_isFinite hx, place_of_isFinite hy, toRat_eq, toRat_eq,
    rank_signed _ (scaled_nonneg x), rank_signed _ (scaled_nonneg y)] at h
  rw [toRat_eq, toRat_eq]
  have hcanonical := canonical_significand x
  obtain ⟨heq, hsign⟩ : magnitude (significand x * 2 ^ exponent x) =
      magnitude (significand y * 2 ^ exponent y) ∧
      (sign x = sign y ∨ magnitude (significand x * 2 ^ exponent x) = 0) := by
    have := magnitude_nonneg (scaled_nonneg x)
    have := magnitude_nonneg (scaled_nonneg y)
    cases hsx : sign x <;> cases hsy : sign y <;> rw [hsx, hsy] at h <;>
      simp only [Sign.apply] at h <;> simp <;> omega
  obtain ⟨he, hm⟩ := hcanonical.eq_of_magnitude_eq (canonical_significand y) heq
  rw [← he, ← hm]
  obtain hsign | hzero := hsign
  · rw [hsign]
  · have hzero : significand x = 0 := by
      rw [hcanonical.magnitude_eq] at hzero
      have := hcanonical.least
      omega
    rw [hzero]
    cases sign x <;> cases sign y <;> simp [signed]

theorem isNaN_of_isFinite (h : x.isFinite = true) : x.isNaN = false := by
  obtain ⟨_, hx⟩ | ⟨_, hx⟩ := unpack_of_exponentField_lt (isFinite_iff.mp h) <;>
    exact congrArg UnpackedFloat.isNaN hx

theorem le_iff_toRat (hx : x.isFinite = true) (hy : y.isFinite = true) :
    x ≤ y ↔ toRat x ≤ toRat y := by
  rw [le_iff_place]
  refine ⟨fun ⟨_, _, h⟩ => ?_, fun h => ⟨isNaN_of_isFinite hx, isNaN_of_isFinite hy, ?_⟩⟩
  · by_contra hlt
    have hge : place y ≤ place x := by
      rw [place_of_isFinite hx, place_of_isFinite hy]
      exact rank_mono (not_le.mp hlt).le
    exact hlt (toRat_eq_of_place_eq hx hy (le_antisymm h hge)).le
  · rw [place_of_isFinite hx, place_of_isFinite hy]
    exact rank_mono h

end SignalBroker.Double
