import SignalBroker.Proofs.Adapter.Roles
import SignalBroker.Proofs.Decimal.Closeness

namespace SignalBroker

namespace SimulatedKind

open Double
open Float.Model.UnpackedFloat (Sign)

/-- A number in hundredths, a half going away from zero, without any other rounding. -/
def hundredths (q : ℚ) : ℚ :=
  roundAway (q * 100) / 100

variable {x y : Float} {q r : ℚ}

theorem hundredths_mono (h : q ≤ r) : hundredths q ≤ hundredths r := by
  have := roundAway_mono (mul_le_mul_of_nonneg_right h (by norm_num : (0 : ℚ) ≤ 100))
  exact div_le_div_of_nonneg_right (by exact_mod_cast this) (by norm_num)

theorem abs_roundAway_sub_le (q : ℚ) : |roundAway q - q| ≤ 1 / 2 := by
  unfold roundAway
  split
  · have := abs_sub_round (-q)
    push_cast
    rwa [show -(round (-q) : ℚ) - q = -q - round (-q) by ring]
  · rw [abs_sub_comm]
    exact abs_sub_round q

/-- A number moves by at most half a hundredth. -/
theorem abs_hundredths_sub_le (q : ℚ) : |hundredths q - q| ≤ 1 / 200 := by
  have h := abs_le.mp (abs_roundAway_sub_le (q * 100))
  rw [hundredths, abs_le]
  constructor <;> linarith

theorem toHundredths_mono (h : x ≤ y) : toHundredths x ≤ toHundredths y := by
  have hmul : x * 100.0 ≤ y * 100.0 :=
    computes_mul_hundred.mono (fun _ _ h => mul_le_mul_of_nonneg_right h (by norm_num)) h
  have hround : roundHalfAway (x * 100.0) ≤ roundHalfAway (y * 100.0) :=
    computes_roundHalfAway.mono (fun _ _ h => Int.cast_le.mpr (roundAway_mono h)) hmul
  exact computes_div_hundred.mono (fun _ _ h => div_le_div_of_nonneg_right h (by norm_num)) hround

theorem roundAway_eq_of_near {s : Sign} {n : ℕ} (hq : 0 ≤ q) (h : |q - n| < 1 / 2) :
    roundAway (signed s q) = s.apply n := by
  obtain ⟨hlow, hhigh⟩ := abs_lt.mp h
  rw [roundAway_signed s hq, round_eq, (Int.floor_eq_iff (z := (n : ℤ))).mpr]
  push_cast
  constructor <;> linarith

/-- A hundred times the double nearest to some hundredths is less than a half away from their number,
after two roundings. -/
theorem mul_hundred_near {s : Sign} {n : ℕ} (hn : 0 < n) (hle : n ≤ 2 ^ 50)
    (h : Nearest x (signed s (n / 100))) :
    (x * 100.0).isFinite = true ∧
      ∃ c : ℚ, 0 ≤ c ∧ |c - n| < 1 / 2 ∧ toRat (x * 100.0) = signed s c := by
  have hn' : (1 : ℚ) ≤ n := by exact_mod_cast hn
  have hle' : (n : ℚ) ≤ 1125899906842624 := by exact_mod_cast hle
  have hgap := gap_le (q := (n / 100 : ℚ)) (j := 44) (by linarith) (by norm_num; linarith)
  obtain ⟨hx, hvalue⟩ := h.toRat_eq (by linarith) (.inl (by omega))
  have herror : |rounded (n / 100 : ℚ) - n / 100| ≤ 1 / 512 := by
    refine (abs_rounded_sub_le _).trans ?_
    have := two_zpow_le (show gap (n / 100 : ℚ) ≤ -8 by omega)
    norm_num at this ⊢
    linarith
  generalize rounded (n / 100 : ℚ) = a at hvalue herror
  obtain ⟨hlow, hhigh⟩ := abs_le.mp herror
  have hproduct : Nearest (x * 100.0) (signed s (a * 100)) := by
    have := computes_mul_hundred.finite hx
    rwa [hvalue, signed_mul_right] at this
  have hgap := gap_le (q := a * 100) (j := 51) (by linarith) (by norm_num; linarith)
  obtain ⟨hfinite, hvalue⟩ := hproduct.toRat_eq (by linarith) (.inl (by omega))
  have herror : |rounded (a * 100) - a * 100| ≤ 1 / 4 := by
    refine (abs_rounded_sub_le _).trans ?_
    have := two_zpow_le (show gap (a * 100 : ℚ) ≤ -1 by omega)
    norm_num at this ⊢
    linarith
  obtain ⟨hlow', hhigh'⟩ := abs_le.mp herror
  refine ⟨hfinite, _, by linarith, ?_, hvalue⟩
  rw [abs_lt]
  constructor <;> linarith

/-- The double nearest to a number in hundredths stays what it is: rounding to whole numbers finds the
number of hundredths, and the division goes back from there. -/
theorem toHundredths_nearest {k : ℤ} (hk : |k| ≤ 2 ^ 50) (h : Nearest x (k / 100)) :
    Nearest (toHundredths x) (k / 100) := by
  obtain ⟨s, n, rfl⟩ : ∃ s : Sign, ∃ n : ℕ, k = s.apply n := by
    obtain ⟨n, rfl | rfl⟩ := k.eq_nat_or_neg
    · exact ⟨.positive, n, rfl⟩
    · exact ⟨.negative, n, rfl⟩
  have hle : n ≤ 2 ^ 50 := by
    cases s <;> simp only [Sign.apply, abs_neg, Nat.abs_cast] at hk <;> exact_mod_cast hk
  have hcast : (s.apply n : ℚ) = signed s n := by cases s <;> simp [Sign.apply, signed]
  rw [hcast] at h ⊢
  have hwhole : Nearest (roundHalfAway (x * 100.0)) (signed s n) := by
    obtain rfl | hn := Nat.eq_zero_or_pos n
    · have hzero : signed s ((0 : ℕ)) = 0 := by cases s <;> simp [signed]
      rw [hzero, zero_div] at h
      obtain ⟨hx, hvalue⟩ := h.toRat_zero
      have hproduct := computes_mul_hundred.finite hx
      rw [hvalue, zero_mul] at hproduct
      obtain ⟨hfinite, hvalue⟩ := hproduct.toRat_zero
      have := computes_roundHalfAway.finite hfinite
      rw [hvalue] at this
      rw [hzero]
      simpa [roundAway] using this
    · rw [signed_div_right] at h
      obtain ⟨hfinite, c, hc, hnear, hvalue⟩ := mul_hundred_near hn hle h
      have := computes_roundHalfAway.finite hfinite
      rwa [hvalue, roundAway_eq_of_near hc hnear, hcast] at this
  obtain ⟨hfinite, hvalue⟩ := hwhole.toRat_natCast (by omega)
  have := computes_div_hundred.finite hfinite
  rwa [hvalue] at this

/-- The two ends of a range do not leave it when they are brought to hundredths. -/
def KeepsEnds (low high : Float) : Prop :=
  low ≤ toHundredths low ∧ toHundredths high ≤ high

variable {low high : Float}

theorem stays_iff_keepsEnds (h : low ≤ high) :
    (∀ raw, low ≤ raw → raw ≤ high → low ≤ toHundredths raw ∧ toHundredths raw ≤ high) ↔
      KeepsEnds low high := by
  obtain ⟨hlow, hhigh, -⟩ := le_iff_place.mp h
  refine ⟨fun hstays => ?_, fun hends raw hle hge => ?_⟩
  · exact ⟨(hstays low (Double.le_refl hlow) h).1, (hstays high h (Double.le_refl hhigh)).2⟩
  · exact ⟨Double.le_trans hends.1 (toHundredths_mono hle),
      Double.le_trans (toHundredths_mono hge) hends.2⟩

def Within (low high : Float) (v : SignalValue) : Prop :=
  ∃ y : Double, v = .number (.double y) ∧ low ≤ y.toFloat ∧ y.toFloat ≤ high

theorem ofFloat_of_isFinite (h : x.isFinite = true) :
    SignalValue.ofFloat x = .number (.double ⟨x, h⟩) := by
  simp [SignalValue.ofFloat, Number.ofFloat?, Double.ofFloat?, h]

theorem within_ofFloat_iff (hlow : low.isFinite = true) (hhigh : high.isFinite = true) :
    Within low high (.ofFloat x) ↔ low ≤ x ∧ x ≤ high := by
  constructor
  · rintro ⟨y, hvalue, hle, hge⟩
    cases hx : x.isFinite with
    | true =>
      rw [ofFloat_of_isFinite hx] at hvalue
      cases hvalue
      exact ⟨hle, hge⟩
    | false => simp [SignalValue.ofFloat, Number.ofFloat?, Double.ofFloat?, hx] at hvalue
  · rintro ⟨hle, hge⟩
    have hx := isFinite_of_between hlow hhigh hle hge
    exact ⟨_, ofFloat_of_isFinite hx, hle, hge⟩

theorem keepsEnds_of_nearest {j k : ℤ} (hj : |j| ≤ 2 ^ 50) (hk : |k| ≤ 2 ^ 50)
    (hlow : Nearest low (j / 100)) (hhigh : Nearest high (k / 100)) : KeepsEnds low high := by
  have hlow' := toHundredths_nearest hj hlow
  have hhigh' := toHundredths_nearest hk hhigh
  exact ⟨le_iff_place.mpr ⟨hlow.isNaN, hlow'.isNaN, by rw [hlow.place_eq, hlow'.place_eq]⟩,
    le_iff_place.mpr ⟨hhigh'.isNaN, hhigh.isNaN, by rw [hhigh.place_eq, hhigh'.place_eq]⟩⟩

end SimulatedKind

namespace Simulation

open SimulatedKind Double

variable {name : String} {settings : SimulationSettings} {built : Store × Simulation}
  {signal : SimulatedSignal} {low high : Float}

theorem fault?_eq_none_iff (hkind : signal.kind = .number low high) :
    signal.fault? name = none ↔ low ≤ high := by
  rw [SimulatedSignal.fault?, hkind]
  dsimp only
  split
  · next h => exact iff_of_true rfl h
  · next h => exact iff_of_false (Option.some_ne_none _) h

theorem draw_number (low high : Float) (d : Random.Draws) : ((SimulatedKind.number low high).draw d).1 =
    some (.ofFloat (toHundredths (d.between low high).1)) :=
  rfl

/-- Which number signals stay in their range. Every value that is drawn is in the range exactly if the
ends are kept, which they are where they are given in hundredths. The same holds of the rounding alone
where numbers are not rounded any further, and it leaves the range by at most half a hundredth. -/
theorem stays_in_range_iff (h : build name settings = .ok built)
    (hsignal : signal ∈ settings.signals) (hkind : signal.kind = .number low high)
    (hlow : low.isFinite = true) (hhigh : high.isFinite = true) :
    ((∀ raw, low ≤ raw → raw ≤ high → Within low high (.ofFloat (toHundredths raw))) ↔
      KeepsEnds low high) ∧
    (KeepsEnds low high → ∀ d : Random.Draws, low ≤ (d.between low high).1 →
      (d.between low high).1 ≤ high → ∃ v, (signal.kind.draw d).1 = some v ∧ Within low high v) ∧
    (∀ j k : ℤ, |j| ≤ 2 ^ 50 → |k| ≤ 2 ^ 50 → Nearest low (j / 100) → Nearest high (k / 100) →
      KeepsEnds low high) ∧
    ((∀ raw, low ≤ raw → raw ≤ high →
        toRat low ≤ hundredths (toRat raw) ∧ hundredths (toRat raw) ≤ toRat high) ↔
      toRat low ≤ hundredths (toRat low) ∧ hundredths (toRat high) ≤ toRat high) ∧
    ∀ raw, low ≤ raw → raw ≤ high → toRat low - 1 / 200 ≤ hundredths (toRat raw) ∧
      hundredths (toRat raw) ≤ toRat high + 1 / 200 := by
  have hle := (fault?_eq_none_iff hkind).mp (fault?_of_build h hsignal)
  have hstays : (∀ raw, low ≤ raw → raw ≤ high → Within low high (.ofFloat (toHundredths raw))) ↔
      KeepsEnds low high := by
    simp only [within_ofFloat_iff hlow hhigh]
    exact stays_iff_keepsEnds hle
  have hrat : ∀ raw, low ≤ raw → raw ≤ high → toRat low ≤ toRat raw ∧ toRat raw ≤ toRat high := by
    intro raw hle hge
    have hraw := isFinite_of_between hlow hhigh hle hge
    exact ⟨(le_iff_toRat hlow hraw).mp hle, (le_iff_toRat hraw hhigh).mp hge⟩
  refine ⟨hstays, fun hends d hd hd' => ?_, fun j k => keepsEnds_of_nearest, ⟨fun hall => ?_, ?_⟩, ?_⟩
  · refine ⟨_, ?_, hstays.mpr hends _ hd hd'⟩
    rw [hkind, draw_number]
  · have hrefl := Double.le_refl (isNaN_of_isFinite hlow)
    have hrefl' := Double.le_refl (isNaN_of_isFinite hhigh)
    exact ⟨(hall low hrefl hle).1, (hall high hle hrefl').2⟩
  · rintro ⟨hends, hends'⟩ raw hraw hraw'
    obtain ⟨hle, hge⟩ := hrat raw hraw hraw'
    exact ⟨hends.trans (hundredths_mono hle), (hundredths_mono hge).trans hends'⟩
  · intro raw hraw hraw'
    obtain ⟨hle, hge⟩ := hrat raw hraw hraw'
    have hnear := abs_le.mp (abs_hundredths_sub_le (toRat raw))
    constructor <;> linarith

def speedometer : SimulationSettings :=
  ⟨1, 1000, none, [⟨"Speed", .number 0.0 250.0, none, true, true⟩]⟩

theorem stays_in_range_speed : ∃ built, build "sim" speedometer = .ok built ∧
    ∀ raw : Float, 0.0 ≤ raw → raw ≤ 250.0 → Within 0.0 250.0 (.ofFloat (toHundredths raw)) := by
  obtain ⟨s, sim, hbuild⟩ := exists_build "sim" speedometer (by decide) (by
    intro signal hsignal
    cases List.mem_singleton.mp hsignal
    exact (fault?_eq_none_iff rfl).mpr (show (0.0 : Float) ≤ 250.0 by decide))
  obtain ⟨hstays, -, hgrid, -⟩ := stays_in_range_iff hbuild (List.mem_singleton.mpr rfl) rfl rfl rfl
  have hlow := nearest_toRat (x := 0.0) rfl
  have hhigh := nearest_toRat (x := 250.0) rfl
  rw [show toRat 0.0 = (0 : ℤ) / 100 by decide +kernel] at hlow
  rw [show toRat 250.0 = (25000 : ℤ) / 100 by decide +kernel] at hhigh
  exact ⟨_, hbuild, hstays.mpr (hgrid 0 25000 (by norm_num) (by norm_num) hlow hhigh)⟩

def sliver : SimulationSettings :=
  ⟨1, 1000, none, [⟨"S", .number 0.004 0.004, none, true, false⟩]⟩

/-- A number between the hundredths is published as one that is not in the range. -/
theorem leaves_range : ∃ built, build "sim" sliver = .ok built ∧
    ∃ signal ∈ sliver.signals, signal.kind = .number 0.004 0.004 ∧
      ((Random.Draws.ofSeed 1).between 0.004 0.004).1 = 0.004 ∧
      (∃ v, (signal.kind.draw (.ofSeed 1)).1 = some v ∧ ¬Within 0.004 0.004 v) ∧
      hundredths (toRat 0.004) < toRat 0.004 := by
  obtain ⟨s, sim, hbuild⟩ := exists_build "sim" sliver (by decide) (by
    intro signal hsignal
    cases List.mem_singleton.mp hsignal
    exact (fault?_eq_none_iff rfl).mpr (show (0.004 : Float) ≤ 0.004 by decide))
  have hraw : ((Random.Draws.ofSeed 1).between 0.004 0.004).1 = 0.004 := by decide +kernel
  refine ⟨_, hbuild, _, List.mem_singleton.mpr rfl, rfl, hraw, ⟨_, draw_number _ _ _, ?_⟩, ?_⟩
  · rw [hraw, within_ofFloat_iff rfl rfl]
    decide +kernel
  · decide +kernel

end Simulation

end SignalBroker
