import Mathlib.Data.Int.Log
import Mathlib.Data.Rat.Floor
import Mathlib.Tactic.Linarith
import Mathlib.Tactic.Positivity
import Mathlib.Tactic.Ring
import SignalBroker.Decimal.Double

namespace SignalBroker.Double

def roundTies (t : ℚ) : ℤ :=
  if Int.fract t < 1 / 2 then ⌊t⌋
  else if 1 / 2 < Int.fract t then ⌊t⌋ + 1
  else ⌊t⌋ + ⌊t⌋ % 2

/-- The power of two that is the gap between the doubles around a positive number. -/
def gap (x : ℚ) : ℤ :=
  max (Int.log 2 x - 52) (-1074)

/-- How many doubles lie between zero and the double nearest to a number that is not negative. -/
def magnitude (x : ℚ) : ℤ :=
  if x = 0 then 0 else (gap x + 1074) * 2 ^ 52 + roundTies (x / 2 ^ gap x)

def rank (x : ℚ) : ℤ :=
  if x < 0 then -magnitude (-x) else magnitude x

variable {t u x y : ℚ} {n m : ℤ}

theorem floor_le_roundTies (t : ℚ) : ⌊t⌋ ≤ roundTies t := by
  unfold roundTies
  split
  · exact le_rfl
  · split <;> omega

theorem roundTies_le (t : ℚ) : roundTies t ≤ ⌊t⌋ + 1 := by
  unfold roundTies
  split
  · omega
  · split <;> omega

@[simp] theorem roundTies_intCast (n : ℤ) : roundTies n = n := by
  rw [roundTies, Int.fract_intCast, if_pos (by norm_num), Int.floor_intCast]

theorem roundTies_mono (h : t ≤ u) : roundTies t ≤ roundTies u := by
  obtain hlt | heq := (Int.floor_le_floor h).lt_or_eq
  · have := roundTies_le t
    have := floor_le_roundTies u
    omega
  · -- in one interval of length one, the parts behind the point decide
    have hfract : Int.fract t ≤ Int.fract u := by
      rw [Int.fract, Int.fract, heq]
      linarith
    unfold roundTies
    rw [heq]
    split_ifs <;> first | omega | (exfalso; linarith)

theorem le_roundTies (h : (n : ℚ) ≤ t) : n ≤ roundTies t := by
  simpa using roundTies_mono h

theorem roundTies_le_of_le (h : t ≤ n) : roundTies t ≤ n := by
  simpa using roundTies_mono h

theorem two_zpow_pos (e : ℤ) : (0 : ℚ) < 2 ^ e :=
  zpow_pos (by norm_num) e

theorem two_zpow_le {e f : ℤ} (h : e ≤ f) : (2 : ℚ) ^ e ≤ 2 ^ f :=
  zpow_le_zpow_right₀ (by norm_num) h

theorem two_zpow_add (e f : ℤ) : (2 : ℚ) ^ (e + f) = 2 ^ e * 2 ^ f :=
  zpow_add₀ (by norm_num) e f

theorem zpow_log_le (hx : 0 < x) : (2 : ℚ) ^ Int.log 2 x ≤ x := by
  simpa using Int.zpow_log_le_self (b := 2) (by norm_num) hx

theorem lt_zpow_log (x : ℚ) : x < (2 : ℚ) ^ (Int.log 2 x + 1) := by
  simpa using Int.lt_zpow_succ_log_self (b := 2) (by norm_num) x

theorem log_eq (hle : (2 : ℚ) ^ n ≤ x) (hlt : x < (2 : ℚ) ^ (n + 1)) : Int.log 2 x = n := by
  have hx : 0 < x := (two_zpow_pos n).trans_le hle
  have h₁ : (2 : ℚ) ^ n < 2 ^ (Int.log 2 x + 1) := hle.trans_lt (lt_zpow_log x)
  have h₂ : (2 : ℚ) ^ Int.log 2 x < 2 ^ (n + 1) := (zpow_log_le hx).trans_lt hlt
  have := (zpow_lt_zpow_iff_right₀ (by norm_num : (1 : ℚ) < 2)).mp h₁
  have := (zpow_lt_zpow_iff_right₀ (by norm_num : (1 : ℚ) < 2)).mp h₂
  omega

theorem gap_mono (hx : 0 < x) (h : x ≤ y) : gap x ≤ gap y := by
  have := Int.log_mono_right (b := 2) hx h
  unfold gap
  omega

theorem scaled_lt (x : ℚ) : x / 2 ^ gap x < 2 ^ 53 := by
  rw [div_lt_iff₀ (two_zpow_pos _)]
  refine (lt_zpow_log x).trans_le ?_
  rw [← zpow_natCast, ← two_zpow_add]
  refine two_zpow_le ?_
  unfold gap
  push_cast
  omega

theorem le_scaled (hx : 0 < x) (h : -1074 < gap x) : 2 ^ 52 ≤ x / 2 ^ gap x := by
  rw [le_div_iff₀ (two_zpow_pos _)]
  refine le_trans ?_ (zpow_log_le hx)
  rw [← zpow_natCast, ← two_zpow_add]
  refine two_zpow_le ?_
  unfold gap at h ⊢
  push_cast
  omega

theorem magnitude_of_pos (hx : 0 < x) :
    magnitude x = (gap x + 1074) * 2 ^ 52 + roundTies (x / 2 ^ gap x) :=
  if_neg hx.ne'

@[simp] theorem magnitude_zero : magnitude 0 = 0 := rfl

theorem roundTies_scaled_nonneg (hx : 0 < x) : 0 ≤ roundTies (x / 2 ^ gap x) :=
  le_roundTies (n := 0) (by push_cast; exact (div_pos hx (two_zpow_pos _)).le)

theorem roundTies_scaled_le (x : ℚ) : roundTies (x / 2 ^ gap x) ≤ 2 ^ 53 :=
  roundTies_le_of_le (n := 2 ^ 53) (by push_cast; exact (scaled_lt x).le)

theorem le_roundTies_scaled (hx : 0 < x) (h : -1074 < gap x) :
    2 ^ 52 ≤ roundTies (x / 2 ^ gap x) :=
  le_roundTies (n := 2 ^ 52) (by push_cast; exact le_scaled hx h)

theorem magnitude_nonneg (hx : 0 ≤ x) : 0 ≤ magnitude x := by
  obtain hx | rfl := hx.lt_or_eq'
  · have := roundTies_scaled_nonneg hx
    have : -1074 ≤ gap x := le_max_right _ _
    rw [magnitude_of_pos hx]
    omega
  · exact le_rfl

/-- Within a binade the rounding decides, and no rounding reaches beyond the first double of the next
binade. -/
theorem magnitude_mono (hx : 0 ≤ x) (h : x ≤ y) : magnitude x ≤ magnitude y := by
  obtain hx | rfl := hx.lt_or_eq'
  · have hy := hx.trans_le h
    rw [magnitude_of_pos hx, magnitude_of_pos hy]
    obtain hlt | heq := (gap_mono hx h).lt_or_eq
    · have hsmall : -1074 ≤ gap x := le_max_right _ _
      have hle := roundTies_scaled_le x
      have hge := le_roundTies_scaled hy (by omega)
      omega
    · rw [heq]
      have := roundTies_mono (div_le_div_of_nonneg_right h (two_zpow_pos (gap y)).le)
      omega
  · exact magnitude_nonneg h

theorem rank_mono (h : x ≤ y) : rank x ≤ rank y := by
  unfold rank
  split_ifs with hx hy
  · exact neg_le_neg (magnitude_mono (by linarith) (by linarith))
  · have := magnitude_nonneg (x := -x) (by linarith)
    have := magnitude_nonneg (x := y) (by linarith)
    omega
  · exact absurd (h.trans_lt (by assumption)) hx
  · exact magnitude_mono (not_lt.mp hx) h

/-- The significand and the exponent of a double: the exponent is the smallest one, or the significand
has all its digits. -/
structure Canonical (m : ℕ) (e : ℤ) : Prop where
  small : m < 2 ^ 53
  least : -1074 ≤ e
  full : 2 ^ 52 ≤ m ∨ e = -1074

theorem log_scaled {m : ℕ} (hm : 0 < m) (e : ℤ) : Int.log 2 (m * 2 ^ e : ℚ) = m.log2 + e := by
  have hle : 2 ^ m.log2 ≤ m := Nat.log2_self_le hm.ne'
  have hlt : m < 2 ^ (m.log2 + 1) := Nat.lt_log2_self
  apply log_eq
  · rw [two_zpow_add, zpow_natCast]
    exact mul_le_mul_of_nonneg_right (by exact_mod_cast hle) (two_zpow_pos e).le
  · rw [add_right_comm, two_zpow_add]
    refine mul_lt_mul_of_pos_right ?_ (two_zpow_pos e)
    exact_mod_cast hlt

namespace Canonical

variable {m m' : ℕ} {e e' : ℤ}

theorem gap_eq (h : Canonical m e) (hm : 0 < m) : gap (m * 2 ^ e) = e := by
  rw [gap, log_scaled hm]
  have hlog : m.log2 < 53 := (Nat.log2_lt hm.ne').mpr h.small
  obtain hfull | hleast := h.full
  · have : 52 ≤ m.log2 := (Nat.le_log2 hm.ne').mpr hfull
    have := h.least
    omega
  · omega

theorem magnitude_eq (h : Canonical m e) : magnitude (m * 2 ^ e) = (e + 1074) * 2 ^ 52 + m := by
  obtain rfl | hm := Nat.eq_zero_or_pos m
  · have he : e = -1074 := h.full.resolve_left (by norm_num)
    simp [he]
  · have hpos : (0 : ℚ) < m * 2 ^ e := mul_pos (by exact_mod_cast hm) (two_zpow_pos e)
    rw [magnitude_of_pos hpos, h.gap_eq hm, mul_div_cancel_right₀ _ (two_zpow_pos e).ne']
    exact congrArg _ (roundTies_intCast m)

theorem eq_of_magnitude_eq (h : Canonical m e) (h' : Canonical m' e')
    (heq : magnitude (m * 2 ^ e) = magnitude (m' * 2 ^ e')) : e = e' ∧ m = m' := by
  rw [h.magnitude_eq, h'.magnitude_eq] at heq
  have := h.small
  have := h'.small
  have := h.least
  have := h'.least
  obtain hfull | hfull := h.full <;> obtain hfull' | hfull' := h'.full <;> omega

end Canonical

end SignalBroker.Double
