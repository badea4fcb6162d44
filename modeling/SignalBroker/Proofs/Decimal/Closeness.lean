import SignalBroker.Proofs.Decimal.Steps

namespace SignalBroker.Double

open Float.Model (UnpackedFloat Format)
open Float.Model.UnpackedFloat

variable {x : Float} {m : ℕ} {e : ℤ} {q : ℚ}

theorem exists_toRat_eq (s : Sign) (h : Canonical m e) (he : e ≤ 971) :
    ∃ y : Float, y.isFinite = true ∧ toRat y = signed s (m * 2 ^ e) := by
  obtain ⟨u, hstored, hfinite, hworth⟩ : ∃ u, Stored u ∧ u.isFinite = true ∧
      worth u = signed s (m * 2 ^ e) := by
    obtain rfl | hm := Nat.eq_zero_or_pos m
    · refine ⟨.zero s, ⟨trivial, rfl⟩, rfl, ?_⟩
      cases s <;> simp [signed]
    · exact ⟨.finite s m e hm, ⟨h, if_pos he⟩, rfl, rfl⟩
  have hnan : u ≠ .notANumber := by
    rintro rfl
    exact Bool.false_ne_true hfinite
  have hunpack : (Float.ofModel (.pack u)).toModel.unpack = u :=
    (unpack_pack hstored.regular hnan).trans hstored.settled
  have hfinite : (Float.ofModel (.pack u)).isFinite = true :=
    (congrArg UnpackedFloat.isFinite hunpack).trans hfinite
  refine ⟨_, hfinite, ?_⟩
  rw [← worth_unpack hfinite, hunpack, hworth]

def rounded (q : ℚ) : ℚ :=
  roundTies (q / 2 ^ gap q) * 2 ^ gap q

theorem abs_roundTies_sub_le (t : ℚ) : |roundTies t - t| ≤ 1 / 2 := by
  have hfloor := Int.floor_add_fract t
  have hnonneg := Int.fract_nonneg t
  have hlt := Int.fract_lt_one t
  rw [abs_le]
  unfold roundTies
  split_ifs with hbelow habove
  · constructor <;> linarith
  · push_cast
    constructor <;> linarith
  · -- a tie is half away from both neighbours
    obtain hparity | hparity := Int.emod_two_eq ⌊t⌋ <;> rw [hparity] <;> push_cast <;>
      constructor <;> linarith

theorem abs_rounded_sub (q : ℚ) :
    |rounded q - q| = |roundTies (q / 2 ^ gap q) - q / 2 ^ gap q| * 2 ^ gap q := by
  have hpos := two_zpow_pos (gap q)
  rw [← abs_of_pos hpos, ← abs_mul, abs_of_pos hpos, sub_mul, div_mul_cancel₀ _ hpos.ne', rounded]

theorem abs_rounded_sub_le (q : ℚ) : |rounded q - q| ≤ 2 ^ gap q / 2 :=
  calc |rounded q - q|
    _ = |roundTies (q / 2 ^ gap q) - q / 2 ^ gap q| * 2 ^ gap q := abs_rounded_sub q
    _ ≤ 1 / 2 * 2 ^ gap q :=
      mul_le_mul_of_nonneg_right (abs_roundTies_sub_le _) (two_zpow_pos _).le
    _ = 2 ^ gap q / 2 := by ring

theorem exists_canonical_rounded (hq : 0 < q) : ∃ m e, Canonical m e ∧ e ≤ gap q + 1 ∧
    rounded q = m * 2 ^ e ∧ magnitude (m * 2 ^ e) = magnitude q := by
  have hleast : -1074 ≤ gap q := le_max_right _ _
  obtain ⟨n, hn⟩ := Int.eq_ofNat_of_zero_le (roundTies_scaled_nonneg hq)
  have hle : n ≤ 2 ^ 53 := by
    have := roundTies_scaled_le q
    omega
  have hfull : 2 ^ 52 ≤ n ∨ gap q = -1074 := by
    obtain hlt | heq := hleast.lt_or_eq
    · have := le_roundTies_scaled hq hlt
      exact .inl (by omega)
    · exact .inr heq.symm
  rw [rounded, magnitude_of_pos hq, hn]
  obtain hlt | rfl := hle.lt_or_eq
  · have hcanonical : Canonical n (gap q) := ⟨hlt, hleast, hfull⟩
    exact ⟨n, gap q, hcanonical, by omega, rfl, hcanonical.magnitude_eq⟩
  · have hcanonical : Canonical (2 ^ 52) (gap q + 1) := ⟨by norm_num, by omega, .inl le_rfl⟩
    refine ⟨2 ^ 52, gap q + 1, hcanonical, le_rfl, ?_, hcanonical.magnitude_eq.trans ?_⟩
    · rw [two_zpow_add]
      push_cast
      ring
    · push_cast
      ring

/-- The double nearest to a number, unless the number is rounded to one beyond all doubles. -/
theorem Nearest.toRat_eq {s : Sign} (h : Nearest x (signed s q)) (hq : 0 < q)
    (hsmall : gap q ≤ 970 ∨ x.isFinite = true) :
    x.isFinite = true ∧ toRat x = signed s (rounded q) := by
  obtain ⟨m, e, hcanonical, hgap, hrounded, hmagnitude⟩ := exists_canonical_rounded hq
  have hpos : (0 : ℚ) ≤ m * 2 ^ e := mul_nonneg (Nat.cast_nonneg _) (two_zpow_pos _).le
  have hplace : place x = clamp (s.apply (magnitude (m * 2 ^ e))) := by
    rw [h.place_eq, rank_signed s hq.le, hmagnitude]
  have he : e ≤ 971 := by
    obtain hsmall | hx := hsmall
    · omega
    · have := Double.place_bounds hx
      have := hcanonical.full
      rw [hcanonical.magnitude_eq] at hplace
      unfold clamp top at *
      cases s <;> simp only [Sign.apply] at hplace <;> omega
  obtain ⟨y, hy, hworth⟩ := exists_toRat_eq s hcanonical he
  have hbounds := Double.place_bounds hy
  have hplace : place x = place y := by
    rw [place_of_isFinite hy, hworth, rank_signed s hpos] at hbounds ⊢
    rw [hplace]
    unfold clamp
    omega
  have hx : x.isFinite = true := by
    by_contra hinfinite
    have := place_of_not_isFinite (Bool.not_eq_true _ ▸ hinfinite) h.isNaN
    omega
  exact ⟨hx, by rw [toRat_eq_of_place_eq hx hy hplace, hworth, hrounded]⟩

theorem Nearest.toRat_zero (h : Nearest x 0) : x.isFinite = true ∧ toRat x = 0 := by
  have hzero : (0.0 : Float).isFinite = true := rfl
  have hplace : place x = place 0.0 := h.place_eq.trans rfl
  have hx : x.isFinite = true := by
    by_contra hinfinite
    have := place_of_not_isFinite (Bool.not_eq_true _ ▸ hinfinite) h.isNaN
    have := Double.place_bounds hzero
    omega
  refine ⟨hx, (toRat_eq_of_place_eq hx hzero hplace).trans ?_⟩
  decide +kernel

theorem gap_le {j : ℕ} (hq : 0 < q) (hle : q ≤ 2 ^ j) : gap q ≤ max ((j : ℤ) - 52) (-1074) := by
  have hlog : Int.log 2 ((2 : ℚ) ^ (j : ℤ)) = j := Int.log_zpow (by norm_num) _
  have := gap_mono hq hle
  rwa [← zpow_natCast, gap, gap, hlog] at this

theorem rounded_natCast {n : ℕ} (hn : 0 < n) (hle : n ≤ 2 ^ 52) : rounded n = n := by
  have hgap := gap_le (q := n) (j := 52) (by exact_mod_cast hn) (by exact_mod_cast hle)
  obtain ⟨k, hk⟩ : ∃ k : ℕ, gap n = -k := ⟨(-gap n).toNat, by omega⟩
  have hwhole : (n / 2 ^ gap n : ℚ) = ((n * 2 ^ k : ℤ) : ℚ) := by
    rw [hk, zpow_neg, div_inv_eq_mul, zpow_natCast]
    push_cast
    rfl
  rw [rounded, hwhole, roundTies_intCast, ← hwhole, div_mul_cancel₀ _ (two_zpow_pos _).ne']

theorem Nearest.toRat_natCast {s : Sign} {n : ℕ} (h : Nearest x (signed s n)) (hle : n ≤ 2 ^ 52) :
    x.isFinite = true ∧ toRat x = signed s n := by
  obtain rfl | hn := Nat.eq_zero_or_pos n
  · have hzero : signed s (0 : ℕ) = 0 := by cases s <;> simp [signed]
    rw [hzero] at h ⊢
    exact h.toRat_zero
  · have hgap := gap_le (q := n) (j := 52) (by exact_mod_cast hn) (by exact_mod_cast hle)
    have := h.toRat_eq (by exact_mod_cast hn) (.inl (by omega))
    rwa [rounded_natCast hn hle] at this

end SignalBroker.Double
