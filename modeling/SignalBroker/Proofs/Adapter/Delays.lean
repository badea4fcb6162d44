import SignalBroker.Proofs.Adapter.Polling
import SignalBroker.Proofs.Duration

namespace SignalBroker

namespace Backoff

inductive Call where
  | fail
  | succeed
  deriving DecidableEq

def call (b : Backoff) : Call → Backoff
  | .fail => b.fail
  | .succeed => b.succeed

def after (b : Backoff) (calls : List Call) : Backoff := calls.foldl call b

/-- The failures since the last success, or all of them where nothing has succeeded. -/
def failures (calls : List Call) : Nat := (calls.rtakeWhile (· = .fail)).length

structure Bounded (b : Backoff) : Prop where
  base_le : b.base ≤ b.current
  le_max : b.current ≤ b.max

variable {b : Backoff} {base limit : Nat} {calls : List Call}

theorem after_snoc (b : Backoff) (calls : List Call) (c : Call) :
    b.after (calls ++ [c]) = (b.after calls).call c := by
  rw [after, List.foldl_append]
  rfl

theorem failures_snoc_fail (calls : List Call) :
    failures (calls ++ [.fail]) = failures calls + 1 := by
  rw [failures, List.rtakeWhile_concat_pos _ _ _ (by decide), List.length_append]
  rfl

theorem failures_snoc_succeed (calls : List Call) : failures (calls ++ [.succeed]) = 0 := by
  rw [failures, List.rtakeWhile_concat_neg _ _ _ (by decide)]
  rfl

theorem call_ends (b : Backoff) (c : Call) :
    (b.call c).base = b.base ∧ (b.call c).max = b.max := by
  cases c with
  | fail => exact ⟨rfl, rfl⟩
  | succeed => exact ⟨rfl, rfl⟩

theorem after_ends (b : Backoff) (calls : List Call) :
    (b.after calls).base = b.base ∧ (b.after calls).max = b.max := by
  induction calls generalizing b with
  | nil => exact ⟨rfl, rfl⟩
  | cons c calls ih =>
    obtain ⟨hbase, hmax⟩ := b.call_ends c
    exact ⟨(ih (b.call c)).1.trans hbase, (ih (b.call c)).2.trans hmax⟩

theorem bounded_between (base limit : Nat) : (between base limit).Bounded where
  base_le := Nat.le_refl base
  le_max := Nat.le_max_right limit base

theorem Bounded.le_fail (h : b.Bounded) : b.current ≤ b.fail.current :=
  Nat.le_min.mpr ⟨Nat.le_mul_of_pos_right _ (by decide), h.le_max⟩

theorem Bounded.call (h : b.Bounded) (c : Call) : (b.call c).Bounded := by
  cases c with
  | fail => exact ⟨h.base_le.trans h.le_fail, Nat.min_le_right _ _⟩
  | succeed => exact ⟨Nat.le_refl _, h.base_le.trans h.le_max⟩

theorem Bounded.after (h : b.Bounded) (calls : List Call) : (b.after calls).Bounded := by
  induction calls generalizing b with
  | nil => exact h
  | cons c calls ih => exact ih (h.call c)

theorem Bounded.le_after (h : b.Bounded) (hfails : Call.succeed ∉ calls) :
    b.current ≤ (b.after calls).current := by
  induction calls generalizing b with
  | nil => exact Nat.le_refl _
  | cons c calls ih =>
    obtain ⟨hc, hcalls⟩ := not_or.mp (mt List.mem_cons.mpr hfails)
    cases c with
    | fail => exact h.le_fail.trans (ih (h.call .fail) hcalls)
    | succeed => exact absurd rfl hc

theorem min_double (p limit : Nat) : min (min p limit * 2) limit = min (p * 2) limit := by
  omega

theorem current_after (base limit : Nat) (calls : List Call) :
    ((between base limit).after calls).current =
      min (base * 2 ^ failures calls) (Nat.max limit base) := by
  have hbase : min base (Nat.max limit base) = base := Nat.min_eq_left (Nat.le_max_right _ _)
  -- failures are counted from the end, so the last call is taken off first
  induction calls using List.reverseRecOn with
  | nil =>
    have hnone : base * 2 ^ failures [] = base := Nat.mul_one base
    rw [hnone, hbase]
    rfl
  | append_singleton calls c ih =>
    rw [after_snoc]
    cases c with
    | fail =>
      rw [failures_snoc_fail, Nat.pow_succ, ← Nat.mul_assoc, ← min_double, ← ih]
      exact congrArg (min _) (after_ends _ calls).2
    | succeed =>
      rw [failures_snoc_succeed, Nat.pow_zero, Nat.mul_one, hbase]
      exact (after_ends _ calls).1

end Backoff

structure TimedBackoff where
  base : Duration
  limit : Duration
  current : Duration

namespace TimedBackoff

def between (base limit : Duration) : TimedBackoff := ⟨base, max limit base, base⟩

/-- Nothing comes of a failure where the delay has no double. -/
def fail? (t : TimedBackoff) : Option TimedBackoff := do
  let doubled ← t.current.times? 2
  return { t with current := min doubled t.limit }

def succeed (t : TimedBackoff) : TimedBackoff := { t with current := t.base }

def call? (t : TimedBackoff) : Backoff.Call → Option TimedBackoff
  | .fail => t.fail?
  | .succeed => some t.succeed

def after? (t : TimedBackoff) (calls : List Backoff.Call) : Option TimedBackoff :=
  calls.foldlM call? t

/-- The durations are as long as the delays of a backoff in milliseconds. -/
structure Keeps (t : TimedBackoff) (b : Backoff) : Prop where
  base : t.base.toNanos = b.base * 1000000
  limit : t.limit.toNanos = b.max * 1000000
  current : t.current.toNanos = b.current * 1000000

variable {t : TimedBackoff} {b : Backoff}

theorem keeps_between (base limit : UInt64) :
    (between (.ofMillis base) (.ofMillis limit)).Keeps (.between base.toNat limit.toNat) where
  base := Duration.toNanos_ofMillis base
  limit := by
    rw [between, Duration.toNanos_max, Duration.toNanos_ofMillis, Duration.toNanos_ofMillis]
    exact Nat.mul_max_mul_right _ _ _
  current := Duration.toNanos_ofMillis base

namespace Keeps

theorem exists_double (h : t.Keeps b) (hlt : b.current < 2 ^ 64) :
    ∃ doubled, t.current.times? 2 = some doubled ∧
      doubled.toNanos = b.current * 2 * 1000000 := by
  have hdouble : t.current.toNanos * (2 : UInt32).toNat = b.current * 2 * 1000000 := by
    rw [h.current, Nat.mul_right_comm]
    rfl
  rw [← hdouble]
  exact Duration.exists_times? (by omega)

theorem call? (h : t.Keeps b) (hlt : b.current < 2 ^ 64) (c : Backoff.Call) :
    ∃ t', t.call? c = some t' ∧ t'.Keeps (b.call c) := by
  cases c with
  | fail =>
    obtain ⟨doubled, hdoubled, hnanos⟩ := h.exists_double hlt
    refine ⟨{ t with current := min doubled t.limit }, ?_, h.base, h.limit, ?_⟩
    · rw [TimedBackoff.call?, fail?, hdoubled]
      rfl
    · rw [Duration.toNanos_min, hnanos, h.limit]
      exact Nat.mul_min_mul_right _ _ _
  | succeed => exact ⟨t.succeed, rfl, h.base, h.limit, h.base⟩

theorem after? (h : t.Keeps b) (hb : b.Bounded) (hlt : b.max < 2 ^ 64) (calls : List Backoff.Call) :
    ∃ t', t.after? calls = some t' ∧ t'.Keeps (b.after calls) := by
  induction calls generalizing t b with
  | nil => exact ⟨t, rfl, h⟩
  | cons c calls ih =>
    obtain ⟨next, hnext, hkeeps⟩ := h.call? (Nat.lt_of_le_of_lt hb.le_max hlt) c
    obtain ⟨t', hafter, h'⟩ := ih hkeeps (hb.call c) (by rwa [(b.call_ends c).2])
    refine ⟨t', ?_, h'⟩
    rw [TimedBackoff.after?, List.foldlM_cons, hnext]
    exact hafter

end Keeps

/-- Whatever fails and succeeds, a delay is the first one doubled for each failure since the last
success, up to the larger of the first and the largest. So it lies between these two, and does not get
shorter as long as nothing succeeds. In machine words each delay is as long, and has a double. -/
theorem delay_closed (base limit : UInt64) (calls : List Backoff.Call) :
    let b := (Backoff.between base.toNat limit.toNat).after calls
    b.current = min (base.toNat * 2 ^ Backoff.failures calls) (max base.toNat limit.toNat) ∧
    base.toNat ≤ b.current ∧ b.current ≤ max base.toNat limit.toNat ∧
    (∀ more, Backoff.Call.succeed ∉ more → b.current ≤ (b.after more).current) ∧
    ∃ t, (between (.ofMillis base) (.ofMillis limit)).after? calls = some t ∧
      t.current.toNanos = b.current * 1000000 ∧
      ∃ doubled, t.current.times? 2 = some doubled ∧
        doubled.toNanos = t.current.toNanos * 2 := by
  intro b
  have hstart := Backoff.bounded_between base.toNat limit.toNat
  have hb : b.Bounded := hstart.after calls
  obtain ⟨hbase, hmax⟩ : b.base = base.toNat ∧ b.max = max limit.toNat base.toNat :=
    Backoff.after_ends _ calls
  have hlt : max limit.toNat base.toNat < 2 ^ 64 := Nat.max_lt.mpr ⟨limit.toNat_lt, base.toNat_lt⟩
  have hcurrent : b.current < 2 ^ 64 := Nat.lt_of_le_of_lt (hmax ▸ hb.le_max) hlt
  rw [Nat.max_comm base.toNat]
  refine ⟨Backoff.current_after _ _ calls, hbase ▸ hb.base_le, hmax ▸ hb.le_max,
    fun more => hb.le_after, ?_⟩
  obtain ⟨t, ht, hkeeps⟩ := (keeps_between base limit).after? hstart hlt calls
  obtain ⟨doubled, hdoubled, hnanos⟩ := hkeeps.exists_double hcurrent
  refine ⟨t, ht, hkeeps.current, doubled, hdoubled, ?_⟩
  rw [hnanos, hkeeps.current, Nat.mul_right_comm]

/-- Delays from 100 to 350, and the longest first delay there is, which a failure leaves as it is. -/
theorem delay_closed_longest :
    ((Backoff.between 100 350).after [.fail, .fail, .fail]).current = 350 ∧
    ((Backoff.between 100 350).after [.fail, .fail]).current ≤
      ((Backoff.between 100 350).after [.fail, .fail, .fail]).current ∧
    ∃ t, (between (.ofMillis 18446744073709551615) (.ofMillis 0)).after? [.succeed, .fail] = some t ∧
      t.current.toNanos = 18446744073709551615 * 1000000 := by
  obtain ⟨hcurrent, -⟩ := delay_closed 100 350 [.fail, .fail, .fail]
  obtain ⟨-, -, -, hgrows, -⟩ := delay_closed 100 350 [.fail, .fail]
  obtain ⟨hlongest, -, -, -, t, ht, hnanos, -⟩ :=
    delay_closed 18446744073709551615 0 [.succeed, .fail]
  refine ⟨hcurrent, hgrows [.fail] (by decide), t, ht, hnanos.trans ?_⟩
  rw [hlongest]
  rfl

end TimedBackoff

namespace PollSource

def callOf : PollOutcome → Backoff.Call
  | .ok _ => .succeed
  | .error _ => .fail

variable {name : String} {settings : PollSettings} {bodies : List (Table String Json)}
  {source : PollSource} {s : Store} {outcomes : List PollOutcome}

theorem backoff_round (h : Folds source.settings bodies s) (outcome : PollOutcome) :
    (source.round s outcome).1.backoff = source.backoff.call (callOf outcome) := by
  cases outcome with
  | error text => rfl
  | ok body =>
    obtain ⟨s', d, hpoll, -⟩ := h.exists_poll_eq_ok body
    rw [round, hpoll]
    rfl

theorem backoff_of_run (h : Run name settings outcomes source s) :
    source.backoff = (Backoff.between settings.period settings.maxBackoff).after
      (outcomes.map callOf) := by
  induction h with
  | built hbuild =>
    unfold build at hbuild
    split at hbuild
    · cases hbuild
    · cases hbuild
      rfl
  | polled h outcome ih =>
    obtain ⟨rfl, hfolds⟩ := folds_of_run h
    rw [backoff_round hfolds, ih, List.map_append, ← Backoff.after_snoc]
    rfl
  | asked _ _ ih => exact ih
  | aside _ _ ih => exact ih

/-- After a request that succeeds a polled adapter waits for its period, and after one that fails it
waits for twice as long as before, up to the largest delay. -/
theorem delay_of_run (h : Run name settings outcomes source s) :
    source.backoff.current =
      min (settings.period * 2 ^ Backoff.failures (outcomes.map callOf))
        (max settings.maxBackoff settings.period) := by
  rw [backoff_of_run h]
  exact Backoff.current_after _ _ _

end PollSource

end SignalBroker
