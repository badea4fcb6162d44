import Mathlib
import SignalBroker.Proofs.Decimal.Rounding

namespace SignalBroker.Double

open Float.Model (UnpackedFloat Format)
open Float.Model.UnpackedFloat (ExtendedMantissa Accuracy Sign)

/-- A significand with its two further bits tells a number: its whole part, whether the rest is a half
or more, and whether there is anything else behind that. -/
structure Represents (em : ExtendedMantissa) (t : ℚ) : Prop where
  whole : (em.mantissa : ℤ) = ⌊t⌋
  round : em.roundBit = true ↔ 1 / 2 ≤ Int.fract t
  sticky : em.stickyBit = true ↔ Int.fract t ≠ 0 ∧ Int.fract t ≠ 1 / 2

theorem floor_fract_half {k : ℕ} {t g : ℚ} (ht : t = 2 * k + g) (h₀ : 0 ≤ g) (h₁ : g < 2) :
    ⌊t / 2⌋ = k ∧ Int.fract (t / 2) = g / 2 := by
  have hhalf : t / 2 = k + g / 2 := by
    rw [ht]
    ring
  have hfloor : ⌊t / 2⌋ = k := by
    rw [hhalf, Int.floor_eq_iff]
    push_cast
    constructor <;> linarith
  refine ⟨hfloor, ?_⟩
  rw [Int.fract, hfloor, hhalf]
  push_cast
  ring

namespace Represents

variable {em : ExtendedMantissa} {t : ℚ}

theorem roundedMantissa (h : Represents em t) : (em.roundedMantissa : ℤ) = roundTies t := by
  obtain ⟨m, round, sticky⟩ := em
  obtain ⟨hwhole, hround, hsticky⟩ := h
  dsimp only at hwhole hround hsticky
  unfold roundTies
  rw [← hwhole]
  cases round with
  | false =>
    have hlt : Int.fract t < 1 / 2 := not_le.mp fun hle => Bool.false_ne_true (hround.mpr hle)
    rw [if_pos hlt]
    cases sticky <;> rfl
  | true =>
    have hle : 1 / 2 ≤ Int.fract t := hround.mp rfl
    rw [if_neg (not_lt.mpr hle)]
    cases sticky with
    | false =>
      have heq : Int.fract t = 1 / 2 := by
        by_contra hne
        have hpos : Int.fract t ≠ 0 := by
          intro h0
          rw [h0] at hle
          norm_num at hle
        exact Bool.false_ne_true (hsticky.mpr ⟨hpos, hne⟩)
      rw [heq, if_neg (lt_irrefl _)]
      rfl
    | true =>
      rw [if_pos (lt_of_le_of_ne hle (Ne.symm (hsticky.mp rfl).2))]
      rfl

theorem bits_eq_true_iff (h : Represents em t) :
    (em.roundBit || em.stickyBit) = true ↔ Int.fract t ≠ 0 := by
  rw [Bool.or_eq_true, h.round, h.sticky]
  by_cases htie : Int.fract t = 1 / 2
  · simp [htie]
  · refine ⟨?_, fun hne => .inr ⟨hne, htie⟩⟩
    rintro (hle | ⟨hne, -⟩)
    · intro hzero
      rw [hzero] at hle
      norm_num at hle
    · exact hne

theorem shiftRightOne (h : Represents em t) : Represents em.shiftRightOne (t / 2) := by
  have hbits := h.bits_eq_true_iff
  have ht : t = em.mantissa + Int.fract t := by
    have := Int.floor_add_fract t
    rw [← h.whole] at this
    exact_mod_cast this.symm
  have hf₀ := Int.fract_nonneg t
  have hf₁ := Int.fract_lt_one t
  generalize Int.fract t = f at *
  obtain ⟨k, hk⟩ | ⟨k, hk⟩ := em.mantissa.even_or_odd
  · have hm : em.mantissa = 2 * k := by omega
    rw [hm] at ht
    push_cast at ht
    obtain ⟨hfloor, hfract⟩ := floor_fract_half ht hf₀ (by linarith)
    refine ⟨?_, ?_, ?_⟩
    · rw [hfloor, ExtendedMantissa.shiftRightOne, hm, Nat.mul_div_cancel_left k (by norm_num)]
    · rw [hfract]
      refine iff_of_false (by simp [ExtendedMantissa.shiftRightOne, hm]) ?_
      linarith
    · rw [hfract]
      refine hbits.trans ⟨fun hne => ⟨by simpa using hne, by linarith⟩, fun hne => by simpa using hne.1⟩
  · have hm : em.mantissa = 2 * k + 1 := hk
    rw [hm] at ht
    push_cast at ht
    obtain ⟨hfloor, hfract⟩ := floor_fract_half (g := f + 1) (by linarith) (by linarith) (by linarith)
    refine ⟨?_, ?_, ?_⟩
    · rw [hfloor, ExtendedMantissa.shiftRightOne, hm]
      exact congrArg Nat.cast (show (2 * k + 1) / 2 = k by omega)
    · rw [hfract]
      refine iff_of_true (by simp [ExtendedMantissa.shiftRightOne, hm]) ?_
      linarith
    · rw [hfract]
      refine hbits.trans ⟨fun hne => ⟨by linarith, fun htie => hne (by linarith)⟩, fun hne hzero => ?_⟩
      exact hne.2 (by rw [hzero]; norm_num)

theorem shiftRight (h : Represents em t) (n : ℕ) : Represents (em >>> n) (t / 2 ^ n) := by
  show Represents (n.repeat ExtendedMantissa.shiftRightOne em) _
  induction n with
  | zero => simpa [Nat.repeat] using h
  | succ n ih =>
    rw [pow_succ, ← div_div]
    exact ih.shiftRightOne

end Represents

def top : ℤ := 2047 * 2 ^ 52

def machineRank : UnpackedFloat → ℤ
  | .notANumber => 0
  | .infinity s => s.apply top
  | .zero _ => 0
  | .finite s m e _ => s.apply (magnitude (m * 2 ^ e))

/-- What the machine has is in the form of a double, though it may lie beyond all doubles. -/
def Regular : UnpackedFloat → Prop
  | .finite _ m e _ => Canonical m e
  | _ => True

def signed : Sign → ℚ → ℚ
  | .negative, q => -q
  | .positive, q => q

theorem rank_signed {q : ℚ} (s : Sign) (h : 0 ≤ q) : rank (signed s q) = s.apply (magnitude q) := by
  cases s with
  | positive => exact if_neg (not_lt.mpr h)
  | negative =>
    obtain hpos | rfl := h.lt_or_eq'
    · rw [signed, rank, if_pos (neg_neg_of_pos hpos), neg_neg]
      rfl
    · rfl

theorem signed_mul_right (s : Sign) (q r : ℚ) : signed s q * r = signed s (q * r) := by
  cases s with
  | positive => rfl
  | negative => exact neg_mul q r

theorem signed_div_right (s : Sign) (q r : ℚ) : signed s q / r = signed s (q / r) := by
  cases s with
  | positive => rfl
  | negative => exact neg_div r q

/-- What a number is rounded to: it has the rank of the number, whether a double has that rank or
not. -/
structure Rounded (u : UnpackedFloat) (q : ℚ) : Prop where
  regular : Regular u
  isNumber : u ≠ .notANumber
  rank_eq : machineRank u = rank q

section Round

open Float.Model.UnpackedFloat (shiftToExponent shiftToTargetExponent roundWithAccuracy)

variable {x : ℚ} {m : ℕ} {e : ℤ} {acc : Accuracy}

theorem mantissa_ofMantissaAndAccuracy (m : ℕ) (acc : Accuracy) :
    (ExtendedMantissa.ofMantissaAndAccuracy m acc).mantissa = m := by
  cases acc with
  | exact => rfl
  | inexact o => cases o <;> rfl

theorem targetExponent_eq (m : ℕ) (e : ℤ) :
    Format.binary64.targetExponent (Float.Model.totalExponent m e) = max (m.log2 + e - 52) (-1074) := by
  have hbits : (Format.binary64.mantissaBits : ℤ) = 53 := rfl
  have hmin : Format.binary64.minExponent = -1074 := rfl
  rw [Format.targetExponent, Float.Model.totalExponent, hbits, hmin]
  congr 1
  omega

/-- A significand that is not too short already tells the gap. -/
theorem targetExponent_of_floor (hx : 0 < x) (hm : (m : ℤ) = ⌊x / 2 ^ e⌋) (he : e ≤ gap x) :
    Format.binary64.targetExponent (Float.Model.totalExponent m e) = gap x := by
  have hle := Int.floor_le (x / 2 ^ e)
  have hlt := Int.lt_floor_add_one (x / 2 ^ e)
  rw [← hm, Int.cast_natCast] at hle hlt
  rw [le_div_iff₀ (two_zpow_pos e)] at hle
  rw [div_lt_iff₀ (two_zpow_pos e)] at hlt
  rw [targetExponent_eq]
  unfold gap at he ⊢
  obtain rfl | hpos := Nat.eq_zero_or_pos m
  · have hlog : Int.log 2 x < e := by
      rw [Nat.cast_zero, zero_add, one_mul] at hlt
      exact (zpow_lt_zpow_iff_right₀ (by norm_num : (1 : ℚ) < 2)).mp ((zpow_log_le hx).trans_lt hlt)
    have hzero : Nat.log2 0 = 0 := rfl
    omega
  · have hlog : Int.log 2 x = m.log2 + e := by
      have hlower : 2 ^ m.log2 ≤ m := Nat.log2_self_le hpos.ne'
      have hupper : m + 1 ≤ 2 ^ (m.log2 + 1) := Nat.lt_log2_self
      apply log_eq
      · rw [two_zpow_add, zpow_natCast]
        exact le_trans (mul_le_mul_of_nonneg_right (by exact_mod_cast hlower) (two_zpow_pos e).le) hle
      · rw [add_right_comm, two_zpow_add]
        refine hlt.trans_le (mul_le_mul_of_nonneg_right ?_ (two_zpow_pos e).le)
        exact_mod_cast hupper
    rw [hlog]

theorem shiftToTargetExponent_spec (hx : 0 < x)
    (h : Represents (ExtendedMantissa.ofMantissaAndAccuracy m acc) (x / 2 ^ e)) (he : e ≤ gap x) :
    ∃ em, shiftToTargetExponent Format.binary64 m e acc = (em, gap x) ∧
      Represents em (x / 2 ^ gap x) := by
  have hm := h.whole
  rw [mantissa_ofMantissaAndAccuracy] at hm
  obtain ⟨n, hn⟩ := Int.eq_ofNat_of_zero_le (sub_nonneg.mpr he)
  refine ⟨ExtendedMantissa.ofMantissaAndAccuracy m acc >>> n, ?_, ?_⟩
  · rw [shiftToTargetExponent, targetExponent_of_floor hx hm he, shiftToExponent, hn,
      Int.toNat_natCast, ← hn, add_sub_cancel]
  · have hgap : gap x = e + n := by omega
    rw [hgap, two_zpow_add, zpow_natCast, ← div_div]
    exact h.shiftRight n

/-- What is counted in gaps and rounded is a double, halved once where the rounding reached the next
power of two. -/
theorem shiftToTargetExponent_rounded {n : ℕ} {g : ℤ} (hg : -1074 ≤ g) (hn : n ≤ 2 ^ 53)
    (hfull : 2 ^ 52 ≤ n ∨ g = -1074) : ∃ em g',
      shiftToTargetExponent Format.binary64 n g .exact = (em, g') ∧ Canonical em.mantissa g' ∧
      (g' + 1074) * 2 ^ 52 + em.mantissa = (g + 1074) * 2 ^ 52 + n := by
  have hshift : ∀ k : ℕ, (max (n.log2 + g - 52) (-1074) - g).toNat = k →
      shiftToTargetExponent Format.binary64 n g .exact =
        ((⟨n, false, false⟩ : ExtendedMantissa) >>> k, g + k) := by
    intro k hk
    rw [shiftToTargetExponent, targetExponent_eq, shiftToExponent, hk]
    rfl
  obtain hlt | rfl := Nat.lt_or_eq_of_le hn
  · have hlog : n.log2 < 53 := by
      obtain rfl | hpos := Nat.eq_zero_or_pos n
      · decide
      · exact (Nat.log2_lt hpos.ne').mpr hlt
    refine ⟨_, _, hshift 0 (by omega), ⟨hlt, by simpa using hg, ?_⟩, by simp; rfl⟩
    rwa [Nat.cast_zero, add_zero]
  · have hlog : (2 ^ 53).log2 = 53 := Nat.log2_two_pow
    refine ⟨_, _, hshift 1 (by rw [hlog]; omega), ⟨by decide, ?_, .inl (by decide)⟩, ?_⟩
    · push_cast
      omega
    · show (g + ((1 : ℕ) : ℤ) + 1074) * 2 ^ 52 + ((2 ^ 52 : ℕ) : ℤ) = _
      push_cast
      ring

/-- Rounding works on what the significand and its further bits tell. -/
theorem roundWithAccuracy_spec (s : Sign) (hx : 0 < x)
    (h : Represents (ExtendedMantissa.ofMantissaAndAccuracy m acc) (x / 2 ^ e)) (he : e ≤ gap x) :
    Rounded (roundWithAccuracy Format.binary64 s m e acc) (signed s x) := by
  obtain ⟨em, hshift, hem⟩ := shiftToTargetExponent_spec hx h he
  have hn := hem.roundedMantissa
  have hg : -1074 ≤ gap x := le_max_right _ _
  have hle := roundTies_scaled_le x
  have hfull : 2 ^ 52 ≤ em.roundedMantissa ∨ gap x = -1074 := by
    obtain hlt | heq := hg.lt_or_eq
    · have := le_roundTies_scaled hx hlt
      exact .inl (by omega)
    · exact .inr heq.symm
  obtain ⟨em', g', hshift', hcanonical, hrank⟩ :=
    shiftToTargetExponent_rounded hg (by omega) hfull
  have hmagnitude : magnitude (em'.mantissa * 2 ^ g') = magnitude x := by
    rw [hcanonical.magnitude_eq, hrank, hn, magnitude_of_pos hx]
  have hsigned := rank_signed s hx.le
  simp only [roundWithAccuracy, hshift, hshift']
  split
  · next hzero =>
    rw [hzero, Nat.cast_zero, zero_mul, magnitude_zero] at hmagnitude
    refine ⟨trivial, by simp, ?_⟩
    rw [hsigned, ← hmagnitude]
    cases s <;> rfl
  · exact ⟨hcanonical, by simp, (congrArg s.apply hmagnitude).trans hsigned.symm⟩

end Round

end SignalBroker.Double
