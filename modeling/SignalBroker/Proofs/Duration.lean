import Mathlib

namespace SignalBroker

/-- Whole seconds, and nanoseconds that do not make another one. -/
structure Duration where
  seconds : UInt64
  nanos : UInt32
  nanos_lt : nanos.toNat < 1000000000
  deriving DecidableEq

namespace Duration

def toNanos (d : Duration) : Nat := d.seconds.toNat * 1000000000 + d.nanos.toNat

instance : LE Duration where
  le d e := d.seconds < e.seconds ∨ d.seconds = e.seconds ∧ d.nanos ≤ e.nanos

instance (d e : Duration) : Decidable (d ≤ e) :=
  inferInstanceAs (Decidable (d.seconds < e.seconds ∨ d.seconds = e.seconds ∧ d.nanos ≤ e.nanos))

instance : Min Duration := minOfLe

instance : Max Duration := maxOfLe

theorem toNat_subsecond (ms : UInt64) :
    ((ms % 1000).toUInt32 * 1000000).toNat = ms.toNat % 1000 * 1000000 := by
  have hms : ms.toNat % 1000 < 1000 := Nat.mod_lt _ (by decide)
  simp only [UInt32.toNat_mul, UInt64.toNat_toUInt32, UInt64.toNat_mod, UInt64.reduceToNat,
    UInt32.reduceToNat]
  omega

def ofMillis (ms : UInt64) : Duration where
  seconds := ms / 1000
  nanos := (ms % 1000).toUInt32 * 1000000
  nanos_lt := by
    rw [toNat_subsecond]
    have hms : ms.toNat % 1000 < 1000 := Nat.mod_lt _ (by decide)
    omega

def product? (a b : UInt64) : Option UInt64 :=
  if a.toNat * b.toNat < 2 ^ 64 then some (a * b) else none

def sum? (a b : UInt64) : Option UInt64 :=
  if a.toNat + b.toNat < 2 ^ 64 then some (a + b) else none

/-- A multiple of a duration. There is none if its seconds do not fit, with those that the nanoseconds
make or without them. -/
def times? (d : Duration) (k : UInt32) : Option Duration := do
  let nanos := d.nanos.toUInt64 * k.toUInt64
  let seconds ← product? d.seconds k.toUInt64
  let seconds ← sum? seconds (nanos / 1000000000)
  return {
    seconds
    nanos := (nanos % 1000000000).toUInt32
    nanos_lt := by
      simp only [UInt64.toNat_toUInt32, UInt64.toNat_mod, UInt64.reduceToNat]
      omega }

variable {d e : Duration} {a b : UInt64} {k : UInt32}

theorem exists_product? (h : a.toNat * b.toNat < 2 ^ 64) :
    ∃ c, product? a b = some c ∧ c.toNat = a.toNat * b.toNat :=
  ⟨a * b, if_pos h, by rw [UInt64.toNat_mul, Nat.mod_eq_of_lt h]⟩

theorem exists_sum? (h : a.toNat + b.toNat < 2 ^ 64) :
    ∃ c, sum? a b = some c ∧ c.toNat = a.toNat + b.toNat :=
  ⟨a + b, if_pos h, by rw [UInt64.toNat_add, Nat.mod_eq_of_lt h]⟩

/-- The nanoseconds are multiplied in 64 bits, which their product never leaves. -/
theorem toNat_nanos_mul (d : Duration) (k : UInt32) :
    (d.nanos.toUInt64 * k.toUInt64).toNat = d.nanos.toNat * k.toNat := by
  rw [UInt64.toNat_mul, UInt32.toNat_toUInt64, UInt32.toNat_toUInt64]
  apply Nat.mod_eq_of_lt
  calc d.nanos.toNat * k.toNat
      < 2 ^ 32 * 2 ^ 32 := Nat.mul_lt_mul'' d.nanos.toNat_lt k.toNat_lt
    _ = 2 ^ 64 := by decide

theorem exists_times? (h : d.toNanos * k.toNat < 2 ^ 64 * 1000000000) :
    ∃ e, d.times? k = some e ∧ e.toNanos = d.toNanos * k.toNat := by
  have hnanos := toNat_nanos_mul d k
  have hwhole : d.toNanos * k.toNat =
      d.seconds.toNat * k.toNat * 1000000000 + d.nanos.toNat * k.toNat := by
    rw [toNanos, Nat.add_mul, Nat.mul_right_comm]
  have hcarry : (d.nanos.toUInt64 * k.toUInt64 / 1000000000).toNat =
      d.nanos.toNat * k.toNat / 1000000000 := by
    rw [UInt64.toNat_div, hnanos]
    rfl
  obtain ⟨whole, hwhole?, hwholeNat⟩ := exists_product? (a := d.seconds) (b := k.toUInt64)
    (by rw [UInt32.toNat_toUInt64]; omega)
  rw [UInt32.toNat_toUInt64] at hwholeNat
  obtain ⟨seconds, hseconds?, hseconds⟩ := exists_sum? (a := whole)
    (b := d.nanos.toUInt64 * k.toUInt64 / 1000000000) (by rw [hcarry]; omega)
  refine ⟨_, by rw [times?, hwhole?, Option.bind_eq_bind, Option.bind_some, hseconds?]; rfl, ?_⟩
  rw [toNanos]
  dsimp only
  rw [hseconds, hcarry, hwholeNat, UInt64.toNat_toUInt32, UInt64.toNat_mod, hnanos, hwhole]
  simp only [UInt64.reduceToNat]
  omega

theorem le_iff_toNanos : d ≤ e ↔ d.toNanos ≤ e.toNanos := by
  have hd := d.nanos_lt
  have he := e.nanos_lt
  have hle : d ≤ e ↔ d.seconds.toNat < e.seconds.toNat ∨
      d.seconds.toNat = e.seconds.toNat ∧ d.nanos.toNat ≤ e.nanos.toNat := by
    rw [UInt64.toNat_inj, ← UInt64.lt_iff_toNat_lt, ← UInt32.le_iff_toNat_le]
    rfl
  rw [hle, toNanos, toNanos]
  omega

theorem toNanos_min (d e : Duration) : (min d e).toNanos = min d.toNanos e.toNanos := by
  by_cases h : d ≤ e
  · rw [Nat.min_eq_left (le_iff_toNanos.mp h)]
    exact congrArg toNanos (if_pos h)
  · rw [Nat.min_eq_right (Nat.le_of_not_le (mt le_iff_toNanos.mpr h))]
    exact congrArg toNanos (if_neg h)

theorem toNanos_max (d e : Duration) : (max d e).toNanos = max d.toNanos e.toNanos := by
  by_cases h : d ≤ e
  · rw [Nat.max_eq_right (le_iff_toNanos.mp h)]
    exact congrArg toNanos (if_pos h)
  · rw [Nat.max_eq_left (Nat.le_of_not_le (mt le_iff_toNanos.mpr h))]
    exact congrArg toNanos (if_neg h)

theorem toNanos_ofMillis (ms : UInt64) : (ofMillis ms).toNanos = ms.toNat * 1000000 := by
  rw [toNanos, ofMillis, toNat_subsecond, UInt64.toNat_div]
  simp only [UInt64.reduceToNat]
  omega

end Duration

end SignalBroker
