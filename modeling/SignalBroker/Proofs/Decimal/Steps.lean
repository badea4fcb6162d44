import SignalBroker.Proofs.Decimal.Arithmetic

namespace SignalBroker.Double

/-- The function gives the double nearest to the exact result, and leaves an infinity an infinity. -/
structure Computes (f : Float → Float) (g : ℚ → ℚ) : Prop where
  finite : ∀ {x}, x.isFinite = true → Nearest (f x) (g (toRat x))
  infinite : ∀ {x}, x.isFinite = false → x.isNaN = false →
    (f x).isNaN = false ∧ place (f x) = place x

open Float.Model (UnpackedFloat)
open Float.Model.UnpackedFloat (Sign)

variable {x y : Float} {f : Float → Float} {g : ℚ → ℚ}

theorem Nearest.place_bounds {q : ℚ} (h : Nearest x q) : -top ≤ place x ∧ place x ≤ top := by
  have htop : 0 < top := by decide
  rw [h.place_eq]
  unfold clamp
  omega

theorem Computes.isNaN (h : Computes f g) (hx : x.isNaN = false) : (f x).isNaN = false := by
  cases hfinite : x.isFinite with
  | true => exact (h.finite hfinite).isNaN
  | false => exact (h.infinite hfinite hx).1

/-- Infinities stay at the ends of the row, and between them rounding keeps the order. -/
theorem Computes.mono (h : Computes f g) (hg : Monotone g) (hle : x ≤ y) : f x ≤ f y := by
  obtain ⟨hx, hy, hplace⟩ := le_iff_place.mp hle
  refine le_iff_place.mpr ⟨h.isNaN hx, h.isNaN hy, ?_⟩
  cases hfx : x.isFinite with
  | true =>
    have hnear := (h.finite hfx).place_bounds
    have hbounds := Double.place_bounds hfx
    cases hfy : y.isFinite with
    | true =>
      rw [(h.finite hfx).place_eq, (h.finite hfy).place_eq]
      exact clamp_mono (rank_mono (hg ((le_iff_toRat hfx hfy).mp hle)))
    | false =>
      have hend := place_of_not_isFinite hfy hy
      rw [(h.infinite hfy hy).2]
      omega
  | false =>
    have hend := place_of_not_isFinite hfx hx
    rw [(h.infinite hfx hx).2]
    cases hfy : y.isFinite with
    | true =>
      have hnear := (h.finite hfy).place_bounds
      have hbounds := Double.place_bounds hfy
      omega
    | false =>
      rw [(h.infinite hfy hy).2]
      exact hplace

theorem unpack_hundred : (100.0 : Float).toModel.unpack =
    .finite .positive 7036874417766400 (-46) (by decide) := rfl

theorem isFinite_hundred : (100.0 : Float).isFinite = true := rfl

theorem toRat_hundred : toRat 100.0 = 100 := by
  decide +kernel

theorem infinite_of_unpack {u : UnpackedFloat} {s : Sign} (hx : x.toModel.unpack = .infinity s)
    (hu : u = .infinity s) :
    (Float.ofModel (.pack u)).isNaN = false ∧ place (.ofModel (.pack u)) = place x := by
  subst hu
  have hregular : Regular (.infinity s) := trivial
  refine ⟨isNaN_ofModel_pack hregular (by simp), (place_ofModel_pack hregular (by simp)).trans ?_⟩
  rw [place, hx]
  cases s <;> rfl

theorem computes_mul_hundred : Computes (· * 100.0) (· * 100) where
  finite hx := by
    have := nearest_mul hx isFinite_hundred
    rwa [toRat_hundred] at this
  infinite {x} hx hnan := by
    have hunpack := unpack_of_not_isFinite hx hnan
    refine infinite_of_unpack hunpack ?_
    rw [hunpack, unpack_hundred]
    cases sign x <;> rfl

theorem computes_div_hundred : Computes (· / 100.0) (· / 100) where
  finite hx := by
    have := nearest_div hx isFinite_hundred (by rw [toRat_hundred]; norm_num)
    rwa [toRat_hundred] at this
  infinite {x} hx hnan := by
    have hunpack := unpack_of_not_isFinite hx hnan
    refine infinite_of_unpack hunpack ?_
    rw [hunpack, unpack_hundred]
    cases sign x <;> rfl

def roundAway (q : ℚ) : ℤ :=
  if q < 0 then -round (-q) else round q

theorem round_mono : Monotone (round : ℚ → ℤ) := by
  intro q r h
  rw [round_eq, round_eq]
  exact Int.floor_le_floor (by linarith)

theorem roundAway_mono : Monotone roundAway := by
  intro q r h
  unfold roundAway
  split_ifs with hq hr
  · exact neg_le_neg (round_mono (by linarith))
  · have := round_mono (show (0 : ℚ) ≤ -q by linarith)
    have := round_mono (not_lt.mp hr)
    rw [round_zero] at *
    omega
  · exact absurd (h.trans_lt (by assumption)) hq
  · exact round_mono h

theorem roundAway_signed {q : ℚ} (s : Sign) (h : 0 ≤ q) :
    roundAway (signed s q) = s.apply (round q) := by
  cases s with
  | positive => exact if_neg (not_lt.mpr h)
  | negative =>
    obtain hpos | rfl := h.lt_or_eq'
    · rw [signed, roundAway, if_pos (neg_neg_of_pos hpos), neg_neg]
      rfl
    · simp [signed, roundAway, Sign.apply]

theorem roundedQuotient_eq (m k : ℕ) : (roundedQuotient m k : ℤ) = round (m / 2 ^ k : ℚ) := by
  have hhalf : (m / 2 ^ k + 1 / 2 : ℚ) = ((2 * m + 2 ^ k : ℕ) : ℚ) / ((2 ^ (k + 1) : ℕ) : ℚ) := by
    push_cast
    field_simp
    ring
  rw [round_eq, hhalf, Int.floor_div_natCast, Int.floor_natCast]
  rfl

theorem roundedQuotient_lt (x : Float) (k : ℕ) : roundedQuotient (significand x) k < 2 ^ 64 := by
  have := significand_lt x
  have hpow : 1 ≤ 2 ^ k := Nat.one_le_two_pow
  have hle : roundedQuotient (significand x) k ≤ significand x + 1 := by
    refine Nat.div_le_of_le_mul ?_
    show _ ≤ 2 ^ (k + 1) * _
    rw [pow_succ]
    show 2 * _ + 2 ^ k ≤ _
    nlinarith
  omega

theorem computes_roundHalfAway : Computes roundHalfAway (fun q => roundAway q) where
  finite {x} hx := by
    have hsigned := roundAway_signed (sign x) (scaled_nonneg x)
    rw [← toRat_eq] at hsigned
    by_cases he : 0 ≤ exponent x
    · -- a double without digits behind the point is already whole
      have hwhole : (roundAway (toRat x) : ℚ) = toRat x := by
        obtain ⟨k, hk⟩ := Int.eq_ofNat_of_zero_le he
        have hround : round (significand x * 2 ^ exponent x : ℚ) = significand x * 2 ^ k := by
          rw [hk, zpow_natCast]
          exact_mod_cast round_natCast (significand x * 2 ^ k)
        rw [hsigned, hround, toRat_eq, hk]
        cases sign x <;> simp [Sign.apply, signed]
      rw [hwhole, roundHalfAway, if_pos (by simp [he])]
      exact nearest_toRat hx
    · obtain ⟨k, hk⟩ : ∃ k : ℕ, (-exponent x).toNat = k := ⟨_, rfl⟩
      have hscale : (significand x * 2 ^ exponent x : ℚ) = significand x / 2 ^ k := by
        have he : exponent x = -k := by omega
        rw [he, zpow_neg, zpow_natCast, div_eq_mul_inv]
      have hnear := nearest_toFloat (UInt64.ofNat (roundedQuotient (significand x) k))
      rw [UInt64.toNat_ofNat_of_lt' (roundedQuotient_lt x k)] at hnear
      rw [hsigned, hscale, ← roundedQuotient_eq, roundHalfAway, if_neg (by simp [he, hx]), hk]
      unfold sign
      dsimp only
      split
      · simpa [Sign.apply] using hnear.neg
      · simpa [Sign.apply] using hnear
  infinite hx hnan := by
    rw [roundHalfAway, hx]
    exact ⟨hnan, rfl⟩

end SignalBroker.Double
