import SignalBroker.Proofs.Decimal.Machine

namespace SignalBroker.Double

open Float.Model (UnpackedFloat Format)
open Float.Model.UnpackedFloat

def settled : UnpackedFloat → UnpackedFloat
  | .finite s m e h => if e ≤ 971 then .finite s m e h else .infinity s
  | u => u

def clamp (r : ℤ) : ℤ :=
  max (-top) (min r top)

variable {u : UnpackedFloat} {s : Sign} {m : ℕ} {e : ℤ} {x : Float}

theorem clamp_mono {r r' : ℤ} (h : r ≤ r') : clamp r ≤ clamp r' := by
  unfold clamp
  omega

theorem settled_ne (h : u ≠ .notANumber) : settled u ≠ .notANumber := by
  cases u with
  | notANumber => exact absurd rfl h
  | finite s m e hm =>
    show (if e ≤ 971 then UnpackedFloat.finite s m e hm else .infinity s) ≠ _
    split <;> simp
  | _ => simp [settled]

theorem machineRank_settled (h : Regular u) : machineRank (settled u) = clamp (machineRank u) := by
  cases u with
  | finite s m e hm =>
    have hm' := h.magnitude_eq
    have := h.small
    have := h.least
    have := h.full
    simp only [settled]
    split <;> cases s <;> simp only [machineRank, Sign.apply, hm', clamp, top] <;> omega
  | infinity s => cases s <;> rfl
  | zero s => rfl
  | notANumber => rfl

theorem toNat_append_one (f : BitVec 52) : (1#1 ++ f).toNat = f.toNat + 2 ^ 52 := by
  have := f.isLt
  rw [BitVec.toNat_append, ← Nat.shiftLeft_add_eq_or_of_lt f.isLt, Nat.shiftLeft_eq]
  simp
  omega

variable {b : BitVec Format.binary64.numBits}

/-- The significand that is stored, of which the first digit is left out unless the exponent is the
smallest one. -/
def storedSignificand (b : BitVec Format.binary64.numBits) : ℕ :=
  if (unpackExponent b).toNat = 0 then (unpackMantissa b).toNat
  else (unpackMantissa b).toNat + 2 ^ 52

def storedExponent (b : BitVec Format.binary64.numBits) : ℤ :=
  (max (unpackExponent b).toNat 1 : ℕ) - 1075

theorem unpack_of_pos (he : (unpackExponent b).toNat < 2047) (hpos : 0 < storedSignificand b) :
    UnpackedFloat.unpack Format.binary64 b =
      .finite (Sign.ofBitVec (unpackSign b)) (storedSignificand b) (storedExponent b) hpos := by
  have hones : unpackExponent b ≠ -1#_ := by
    intro h
    rw [h] at he
    exact absurd he (by decide)
  have hbias : (Format.binary64.exponentBias : ℤ) = 1023 := rfl
  unfold storedSignificand at hpos
  simp only [UnpackedFloat.unpack, if_neg hones, storedSignificand, storedExponent]
  by_cases hzero : unpackExponent b = 0#_
  · have hf : unpackMantissa b ≠ 0#_ := by
      intro h
      rw [hzero, h] at hpos
      exact absurd hpos (by decide)
    rw [if_pos hzero, dif_neg hf]
    simp [hzero, hbias]
  · have he : (unpackExponent b).toNat ≠ 0 := fun h => hzero (BitVec.toNat_inj.mp h)
    rw [if_neg hzero]
    simp only [toNat_append_one, if_neg he, hbias, UnpackedFloat.finite.injEq, true_and]
    push_cast
    omega

theorem unpack_of_zero (hzero : storedSignificand b = 0) :
    UnpackedFloat.unpack Format.binary64 b = .zero (Sign.ofBitVec (unpackSign b)) := by
  unfold storedSignificand at hzero
  split at hzero
  · next hexp =>
    have hexp : unpackExponent b = 0#_ := BitVec.toNat_inj.mp hexp
    have hf : unpackMantissa b = 0#_ := BitVec.toNat_inj.mp hzero
    simp [UnpackedFloat.unpack, hexp, hf]
  · omega

theorem unpack_packedInfinity (s : Sign) :
    UnpackedFloat.unpack Format.binary64 (packedInfinity Format.binary64 s) = .infinity s := by
  simp [UnpackedFloat.unpack, packedInfinity]

theorem storedSignificand_packComponents (s : Sign) (e : BitVec 11) (f : BitVec 52) :
    storedSignificand (packComponents Format.binary64 s e f) =
      if e.toNat = 0 then f.toNat else f.toNat + 2 ^ 52 := by
  simp [storedSignificand]

theorem storedExponent_packComponents (s : Sign) (e : BitVec 11) (f : BitVec 52) :
    storedExponent (packComponents Format.binary64 s e f) = (max e.toNat 1 : ℕ) - 1075 := by
  simp [storedExponent]

theorem unpack_packComponents {f : BitVec 52} {k : BitVec 11} (hm : 0 < m) (hk : k.toNat < 2047)
    (hsignificand : (if k.toNat = 0 then f.toNat else f.toNat + 2 ^ 52) = m)
    (hexponent : ((max k.toNat 1 : ℕ) - 1075 : ℤ) = e) :
    UnpackedFloat.unpack Format.binary64 (packComponents Format.binary64 s k f) = .finite s m e hm := by
  rw [← storedSignificand_packComponents s] at hsignificand
  rw [← storedExponent_packComponents s k f] at hexponent
  subst hsignificand hexponent
  rw [unpack_of_pos (by simpa using hk) hm]
  simp

theorem pack_finite (s : Sign) (e : ℤ) (hm : 0 < m) :
    UnpackedFloat.pack Format.binary64 (.finite s m e hm) =
      if 2047 ≤ (e + 1075).toNat then packedInfinity Format.binary64 s
      else if m.log2 = 52 then
        packComponents Format.binary64 s (BitVec.ofNat 11 (e + 1075).toNat) (BitVec.ofNat 52 m)
      else packComponents Format.binary64 s 0#11 (BitVec.ofNat 52 m) := by
  have hbias : (Format.binary64.exponentBias : ℤ) = 1023 := rfl
  have hbits : Format.binary64.mantissaBits = 53 := rfl
  have hsum : e + 1023 + ((52 : ℕ) : ℤ) = e + 1075 := by omega
  simp only [UnpackedFloat.pack, hbias, hbits, hsum, Nat.reducePow, Nat.reduceLeDiff,
    Nat.reduceEqDiff]

theorem unpack_pack_finite (h : Canonical m e) (hm : 0 < m) (he : e ≤ 971) :
    UnpackedFloat.unpack Format.binary64 (UnpackedFloat.pack Format.binary64 (.finite s m e hm)) =
      .finite s m e hm := by
  have hleast := h.least
  have hsmall := h.small
  rw [pack_finite, if_neg (by omega)]
  split
  · next hlog =>
    have hfull : 2 ^ 52 ≤ m := (Nat.le_log2 hm.ne').mp hlog.ge
    have hexp : (BitVec.ofNat 11 (e + 1075).toNat).toNat = (e + 1075).toNat := by
      rw [BitVec.toNat_ofNat, Nat.mod_eq_of_lt (by omega)]
    refine unpack_packComponents hm ?_ ?_ ?_
    · omega
    · rw [hexp, if_neg (by omega), BitVec.toNat_ofNat]
      omega
    · rw [hexp]
      omega
  · next hlog =>
    have hlt : m < 2 ^ 52 := by
      by_contra hge
      have := (Nat.le_log2 hm.ne').mpr (not_lt.mp hge)
      have := (Nat.log2_lt hm.ne').mpr hsmall
      omega
    have hexp : (0#11).toNat = 0 := rfl
    refine unpack_packComponents hm (by decide) ?_ ?_
    · rw [if_pos hexp, BitVec.toNat_ofNat, Nat.mod_eq_of_lt hlt]
    · rw [hexp]
      have := h.full
      omega

/-- What is stored and read again is the same, unless it is beyond all doubles. -/
theorem unpack_pack (h : Regular u) (hnan : u ≠ .notANumber) :
    (Float.Model.pack u).unpack = settled u := by
  show UnpackedFloat.unpack Format.binary64 (UnpackedFloat.pack Format.binary64 u) = _
  cases u with
  | notANumber => exact absurd rfl hnan
  | infinity s => exact unpack_packedInfinity s
  | zero s => simp [UnpackedFloat.pack, UnpackedFloat.unpack, packedZero, settled]
  | finite s m e hm =>
    by_cases he : e ≤ 971
    · exact (unpack_pack_finite h hm he).trans (if_pos he).symm
    · rw [pack_finite, if_pos (by omega), unpack_packedInfinity]
      exact (if_neg he).symm

end SignalBroker.Double
