import SignalBroker.Proofs.Decimal.Comparing

namespace SignalBroker.Double

open Float.Model (UnpackedFloat Format)
open Float.Model.UnpackedFloat

section Machine

variable {s s' : Sign} {m m' n : ℕ} {e e' : ℤ} {hm : 0 < m} {hm' : 0 < m'}

theorem represents_natCast (n : ℕ) : Represents (ExtendedMantissa.ofMantissaAndAccuracy n .exact) n where
  whole := by
    rw [Int.floor_natCast]
    rfl
  round := by
    rw [Int.fract_natCast]
    exact iff_of_false Bool.false_ne_true (by norm_num)
  sticky := by
    rw [Int.fract_natCast]
    exact iff_of_false Bool.false_ne_true (fun h => h.1 rfl)

theorem ofMantissaAndAccuracy_fraction (n r : ℕ) {d : ℕ} (hd : 0 < d) :
    ExtendedMantissa.ofMantissaAndAccuracy n (accuracyOfFraction r d) =
      ⟨n, decide (d ≤ 2 * r), decide (r ≠ 0 ∧ 2 * r ≠ d)⟩ := by
  unfold accuracyOfFraction
  split
  · next hzero =>
    subst hzero
    simp [ExtendedMantissa.ofMantissaAndAccuracy, hd.ne']
  · next hne =>
    obtain hlt | heq | hgt := lt_trichotomy (2 * r) d
    · simp [compare_lt_iff_lt.mpr hlt, ExtendedMantissa.ofMantissaAndAccuracy, hne, hlt, hlt.ne]
    · simp [ExtendedMantissa.ofMantissaAndAccuracy, heq]
    · simp [compare_gt_iff_gt.mpr hgt, ExtendedMantissa.ofMantissaAndAccuracy, hne, hgt.le, hgt.ne']

/-- A division with remainder keeps as much of the remainder as the rounding needs. -/
theorem represents_div (n : ℕ) {d : ℕ} (hd : 0 < d) :
    Represents (ExtendedMantissa.ofMantissaAndAccuracy (n / d) (accuracyOfFraction (n % d) d))
      (n / d) := by
  have hd' : (0 : ℚ) < d := by exact_mod_cast hd
  have hfract : Int.fract (n / d : ℚ) = ((n % d : ℕ) : ℚ) / d :=
    Int.fract_div_natCast_eq_div_natCast_mod
  rw [ofMantissaAndAccuracy_fraction _ _ hd]
  refine ⟨?_, decide_eq_true_iff.trans ?_, decide_eq_true_iff.trans (and_congr ?_ ?_)⟩
  · rw [Int.floor_div_natCast, Int.floor_natCast]
    rfl
  · rw [hfract, le_div_iff₀ hd', ← @Nat.cast_le ℚ]
    push_cast
    constructor <;> intro h <;> linarith
  · rw [hfract, Ne, Ne, div_eq_zero_iff, Nat.cast_eq_zero, or_iff_left hd'.ne']
  · rw [hfract, Ne, Ne, div_eq_iff hd'.ne', ← @Nat.cast_inj ℚ]
    push_cast
    refine not_congr ⟨fun h => ?_, fun h => ?_⟩ <;> linarith

theorem signed_mul (s s' : Sign) (q r : ℚ) : signed s q * signed s' r = signed (s * s') (q * r) := by
  cases s <;> cases s'
  · exact neg_mul_neg q r
  · exact neg_mul q r
  · exact mul_neg q r
  · rfl

theorem signed_div (s s' : Sign) (q r : ℚ) : signed s q / signed s' r = signed (s / s') (q / r) := by
  cases s <;> cases s'
  · exact neg_div_neg_eq q r
  · exact neg_div r q
  · exact div_neg q
  · rfl

theorem le_gap_mul (h : Canonical m e) (h' : Canonical m' e') (hm : 0 < m) (hm' : 0 < m') :
    e + e' ≤ gap ((m * m' : ℕ) * 2 ^ (e + e')) := by
  have hpos : 0 < m * m' := Nat.mul_pos hm hm'
  rw [gap, log_scaled hpos]
  by_cases hfull : 2 ^ 52 ≤ m * m'
  · have := (Nat.le_log2 hpos.ne').mpr hfull
    omega
  · have hle : m ≤ m * m' := Nat.le_mul_of_pos_right m hm'
    have hle' : m' ≤ m * m' := Nat.le_mul_of_pos_left m' hm
    have := h.full
    have := h'.full
    omega

theorem mul_finite (h : Canonical m e) (h' : Canonical m' e') :
    Rounded (UnpackedFloat.mul Format.binary64 (.finite s m e hm) (.finite s' m' e' hm'))
      (signed s (m * 2 ^ e) * signed s' (m' * 2 ^ e')) := by
  have hpos : (0 : ℚ) < (m * m' : ℕ) * 2 ^ (e + e') :=
    mul_pos (by exact_mod_cast Nat.mul_pos hm hm') (two_zpow_pos _)
  have hproduct : (m * 2 ^ e * (m' * 2 ^ e') : ℚ) = (m * m' : ℕ) * 2 ^ (e + e') := by
    rw [two_zpow_add]
    push_cast
    ring
  have hrepresents : Represents (ExtendedMantissa.ofMantissaAndAccuracy (m * m') .exact)
      ((m * m' : ℕ) * 2 ^ (e + e') / 2 ^ (e + e')) := by
    rw [mul_div_cancel_right₀ _ (two_zpow_pos _).ne']
    exact represents_natCast _
  rw [signed_mul, hproduct]
  exact roundWithAccuracy_spec _ hpos hrepresents (le_gap_mul h h' hm hm')

theorem le_gap_div (hm : 0 < m) (hm' : 0 < m') (e e' : ℤ) :
    Format.binary64.targetExponent
      (Float.Model.totalExponent m e - Float.Model.totalExponent m' e') ≤
        gap (m * 2 ^ e / (m' * 2 ^ e')) := by
  have hpos : (0 : ℚ) < m * 2 ^ e := mul_pos (by exact_mod_cast hm) (two_zpow_pos _)
  have hpos' : (0 : ℚ) < m' * 2 ^ e' := mul_pos (by exact_mod_cast hm') (two_zpow_pos _)
  have hlog : Int.log 2 (m * 2 ^ e : ℚ) - Int.log 2 (m' * 2 ^ e' : ℚ) - 1 ≤
      Int.log 2 (m * 2 ^ e / (m' * 2 ^ e') : ℚ) := by
    rw [← Int.zpow_le_iff_le_log (by norm_num) (div_pos hpos hpos'), le_div_iff₀ hpos']
    push_cast
    calc (2 : ℚ) ^ (Int.log 2 (m * 2 ^ e : ℚ) - Int.log 2 (m' * 2 ^ e' : ℚ) - 1) * (m' * 2 ^ e')
      _ ≤ 2 ^ (Int.log 2 (m * 2 ^ e : ℚ) - Int.log 2 (m' * 2 ^ e' : ℚ) - 1) *
          2 ^ (Int.log 2 (m' * 2 ^ e' : ℚ) + 1) :=
        mul_le_mul_of_nonneg_left (lt_zpow_log _).le (two_zpow_pos _).le
      _ = 2 ^ Int.log 2 (m * 2 ^ e : ℚ) := by
        rw [← two_zpow_add]
        congr 1
        omega
      _ ≤ m * 2 ^ e := zpow_log_le hpos
  rw [log_scaled hm, log_scaled hm'] at hlog
  have hbits : (Format.binary64.mantissaBits : ℤ) = 53 := rfl
  have hmin : Format.binary64.minExponent = -1074 := rfl
  rw [Format.targetExponent, Float.Model.totalExponent, Float.Model.totalExponent, hbits, hmin, gap]
  omega

theorem div_finite :
    Rounded (UnpackedFloat.div Format.binary64 (.finite s m e hm) (.finite s' m' e' hm'))
      (signed s (m * 2 ^ e) / signed s' (m' * 2 ^ e')) := by
  have hpos : (0 : ℚ) < m * 2 ^ e / (m' * 2 ^ e') :=
    div_pos (mul_pos (by exact_mod_cast hm) (two_zpow_pos _))
      (mul_pos (by exact_mod_cast hm') (two_zpow_pos _))
  have hgap := le_gap_div hm hm' e e'
  rw [signed_div]
  simp only [UnpackedFloat.div, divCore]
  generalize Format.binary64.targetExponent
    (Float.Model.totalExponent m e - Float.Model.totalExponent m' e') = t at hgap ⊢
  obtain ⟨k, hk⟩ := Int.eq_ofNat_of_zero_le (a := e - e' - min (e - e') t) (by omega)
  have hquotient : (m * 2 ^ e / (m' * 2 ^ e') / 2 ^ min (e - e') t : ℚ) = (m <<< k : ℕ) / m' := by
    have he : e = e' + (min (e - e') t + k) := by omega
    have := (two_zpow_pos e').ne'
    have := (two_zpow_pos (min (e - e') t)).ne'
    rw [Nat.shiftLeft_eq]
    nth_rewrite 1 [he]
    rw [two_zpow_add, two_zpow_add, zpow_natCast]
    push_cast
    field_simp
  have hrepresents := represents_div (m <<< k) hm'
  rw [← hquotient] at hrepresents
  rw [hk, Int.toNat_natCast]
  exact roundWithAccuracy_spec _ hpos hrepresents (by omega)

/-- Rounding a whole number of any size first gives it as many digits as a double has. -/
theorem round_spec (s : Sign) (hm : 0 < m) (e : ℤ) :
    Rounded (UnpackedFloat.round Format.binary64 s m e) (signed s (m * 2 ^ e)) := by
  have hpos : (0 : ℚ) < m * 2 ^ e := mul_pos (by exact_mod_cast hm) (two_zpow_pos _)
  have hgap : Format.binary64.targetExponent (Float.Model.totalExponent m e) = gap (m * 2 ^ e) := by
    rw [targetExponent_eq, gap, log_scaled hm]
  simp only [UnpackedFloat.round, decreaseExponent, hgap]
  generalize hk : (e - gap (m * 2 ^ e)).toNat = k
  have hscaled : (m * 2 ^ e / 2 ^ (e - k) : ℚ) = (m <<< k : ℕ) := by
    have he : e = (e - k) + k := by omega
    nth_rewrite 1 [he]
    rw [two_zpow_add, ← mul_assoc, mul_right_comm, mul_div_cancel_right₀ _ (two_zpow_pos _).ne',
      Nat.shiftLeft_eq, zpow_natCast]
    push_cast
    rfl
  refine roundWithAccuracy_spec s hpos ?_ (by omega)
  rw [hscaled]
  exact represents_natCast _

theorem ofNat_rounded (n : ℕ) : Rounded (UnpackedFloat.ofNat Format.binary64 n) n := by
  rw [UnpackedFloat.ofNat, UnpackedFloat.ofInt, UnpackedFloat.normalize]
  obtain rfl | hpos := Nat.eq_zero_or_pos n
  · exact ⟨trivial, by simp, by simp [machineRank, rank]⟩
  · have hgt : compare (n : ℤ) 0 = .gt := compare_gt_iff_gt.mpr (by omega)
    rw [hgt]
    simpa [signed] using round_spec .positive hpos 0

theorem rounded_zero (s : Sign) : Rounded (.zero s) 0 :=
  ⟨trivial, by simp, by simp [machineRank, rank]⟩

def worth : UnpackedFloat → ℚ
  | .finite s m e _ => signed s (m * 2 ^ e)
  | _ => 0

@[simp] theorem worth_zero (s : Sign) : worth (.zero s) = 0 := rfl

theorem mul_rounded {a b : UnpackedFloat} (ha : a.isFinite = true) (hb : b.isFinite = true)
    (ha' : Regular a) (hb' : Regular b) :
    Rounded (UnpackedFloat.mul Format.binary64 a b) (worth a * worth b) := by
  cases a with
  | notANumber => exact absurd ha Bool.false_ne_true
  | infinity s => exact absurd ha Bool.false_ne_true
  | zero s =>
    rw [worth_zero, zero_mul]
    cases b with
    | notANumber => exact absurd hb Bool.false_ne_true
    | infinity s' => exact absurd hb Bool.false_ne_true
    | zero s' => exact rounded_zero _
    | finite s' m' e' hm' => exact rounded_zero _
  | finite s m e hm =>
    cases b with
    | notANumber => exact absurd hb Bool.false_ne_true
    | infinity s' => exact absurd hb Bool.false_ne_true
    | zero s' =>
      rw [worth_zero, mul_zero]
      exact rounded_zero _
    | finite s' m' e' hm' => exact mul_finite ha' hb'

theorem div_rounded {a b : UnpackedFloat} (ha : a.isFinite = true) (hb : worth b ≠ 0) :
    Rounded (UnpackedFloat.div Format.binary64 a b) (worth a / worth b) := by
  cases b with
  | notANumber => exact absurd rfl hb
  | infinity s' => exact absurd rfl hb
  | zero s' => exact absurd rfl hb
  | finite s' m' e' hm' =>
    cases a with
    | notANumber => exact absurd ha Bool.false_ne_true
    | infinity s => exact absurd ha Bool.false_ne_true
    | zero s =>
      rw [worth_zero, zero_div]
      exact rounded_zero _
    | finite s m e hm => exact div_finite

theorem regular_neg {u : UnpackedFloat} (h : Regular u) : Regular u.neg := by
  cases u <;> exact h

theorem machineRank_neg (u : UnpackedFloat) : machineRank u.neg = -machineRank u := by
  have happly : ∀ (s : Sign) (n : ℤ), (-s).apply n = -s.apply n := by
    intro s n
    cases s with
    | negative => exact (neg_neg n).symm
    | positive => rfl
  cases u with
  | notANumber => rfl
  | infinity s => exact happly s _
  | zero s => rfl
  | finite s m e hm => exact happly s _

end Machine

/-- A double is what a number is rounded to, or the infinity that takes the place of all beyond. -/
structure Nearest (x : Float) (q : ℚ) : Prop where
  isNaN : x.isNaN = false
  place_eq : place x = clamp (rank q)

variable {x y : Float} {q : ℚ}

theorem isNaN_ofModel_pack {u : UnpackedFloat} (h : Regular u) (hnan : u ≠ .notANumber) :
    (Float.ofModel (.pack u)).isNaN = false := by
  rw [isNaN_iff]
  show (Float.Model.pack u).unpack ≠ _
  rw [unpack_pack h hnan]
  exact settled_ne hnan

theorem place_ofModel_pack {u : UnpackedFloat} (h : Regular u) (hnan : u ≠ .notANumber) :
    place (.ofModel (.pack u)) = clamp (machineRank u) := by
  rw [← machineRank_settled h, ← unpack_pack h hnan]
  rfl

theorem Rounded.nearest {u : UnpackedFloat} (h : Rounded u q) : Nearest (.ofModel (.pack u)) q :=
  ⟨isNaN_ofModel_pack h.regular h.isNumber,
    (place_ofModel_pack h.regular h.isNumber).trans (congrArg clamp h.rank_eq)⟩

theorem worth_unpack (h : x.isFinite = true) : worth x.toModel.unpack = toRat x := by
  rw [toRat_eq]
  obtain ⟨hzero, hx⟩ | ⟨_, hx⟩ := unpack_of_exponentField_lt (isFinite_iff.mp h)
  · rw [hx, hzero]
    cases sign x <;> simp [worth, signed]
  · rw [hx]
    rfl

theorem nearest_mul (hx : x.isFinite = true) (hy : y.isFinite = true) :
    Nearest (x * y) (toRat x * toRat y) := by
  rw [← worth_unpack hx, ← worth_unpack hy]
  exact (mul_rounded hx hy (stored_unpack x).regular (stored_unpack y).regular).nearest

theorem nearest_div (hx : x.isFinite = true) (hy : y.isFinite = true) (hne : toRat y ≠ 0) :
    Nearest (x / y) (toRat x / toRat y) := by
  rw [← worth_unpack hy] at hne ⊢
  rw [← worth_unpack hx]
  exact (div_rounded hx hne).nearest

theorem nearest_toFloat (n : UInt64) : Nearest n.toFloat n.toNat :=
  (ofNat_rounded n.toNat).nearest

theorem nearest_toRat (h : x.isFinite = true) : Nearest x (toRat x) := by
  refine ⟨isNaN_of_isFinite h, ?_⟩
  have := place_bounds h
  rw [← place_of_isFinite h]
  unfold clamp
  omega

theorem rank_neg (q : ℚ) : rank (-q) = -rank q := by
  obtain hneg | rfl | hpos := lt_trichotomy q 0
  · rw [rank, rank, if_neg (by linarith), if_pos hneg, neg_neg]
  · rfl
  · rw [rank, rank, if_pos (by linarith), if_neg (by linarith), neg_neg]

theorem Nearest.neg (h : Nearest x q) : Nearest (-x) (-q) := by
  have hregular := regular_neg (stored_unpack x).regular
  have hnan : x.toModel.unpack.neg ≠ .notANumber := by
    have := isNaN_iff.mp h.isNaN
    cases hx : x.toModel.unpack <;> simp_all [UnpackedFloat.neg]
  refine ⟨isNaN_ofModel_pack hregular hnan, (place_ofModel_pack hregular hnan).trans ?_⟩
  have hplace := h.place_eq
  rw [place] at hplace
  rw [machineRank_neg, hplace, rank_neg]
  unfold clamp
  omega

end SignalBroker.Double
