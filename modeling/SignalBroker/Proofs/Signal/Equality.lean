import Mathlib
import SignalBroker.Signal.Value

namespace SignalBroker

theorem Double.beq_self (x : Double) : (x == x) = true := by
  have hnumber : x.toFloat ≠ .nan := by
    intro h
    have hfinite := x.isFinite
    rw [h] at hfinite
    revert hfinite
    decide
  exact Float.beq_self_iff.mpr hnumber

instance : EquivBEq Double where
  rfl {x} := x.beq_self
  symm h := BEq.symm (α := Float) h
  trans hab hbc := BEq.trans (α := Float) hab hbc

instance : EquivBEq Number where
  rfl {a} := by
    cases a with
    | natural n => exact beq_self_eq_true n
    | negative n => exact beq_self_eq_true n
    | double x => exact x.beq_self
  symm {a b} h := by
    cases a <;> cases b <;> first | cases h | skip
    · exact BEq.symm (α := UInt64) h
    · exact BEq.symm (α := Int64) h
    · exact BEq.symm (α := Double) h
  trans {a b c} hab hbc := by
    cases a <;> cases b <;> first | cases hab | skip
    all_goals cases c <;> first | cases hbc | skip
    · exact PartialEquivBEq.trans (α := UInt64) hab hbc
    · exact PartialEquivBEq.trans (α := Int64) hab hbc
    · exact PartialEquivBEq.trans (α := Double) hab hbc

namespace SignalValue

mutual

theorem beq_self : ∀ v : SignalValue, beq v v = true
  | .null => rfl
  | .bool b => beq_self_eq_true b
  | .number n => beq_self_eq_true n
  | .text s => beq_self_eq_true s
  | .list items => beqItems_self items

theorem beqItems_self : ∀ items : List SignalValue, beqItems items items = true
  | [] => rfl
  | v :: vs => by
    rw [beqItems, beq_self v, beqItems_self vs]
    rfl

end

mutual

theorem beq_symm : ∀ a b : SignalValue, beq a b = true → beq b a = true
  | .null, b, h => by cases b <;> first | rfl | cases h
  | .bool _, b, h => by cases b <;> first | cases h | exact BEq.symm (α := Bool) h
  | .number _, b, h => by cases b <;> first | cases h | exact BEq.symm (α := Number) h
  | .text _, b, h => by cases b <;> first | cases h | exact BEq.symm (α := String) h
  | .list as, b, h => by
    cases b with
    | list bs => exact beqItems_symm as bs h
    | _ => cases h

theorem beqItems_symm : ∀ as bs : List SignalValue, beqItems as bs = true → beqItems bs as = true
  | [], bs, h => by cases bs <;> first | rfl | cases h
  | a :: as, bs, h => by
    cases bs with
    | nil => cases h
    | cons b bs =>
      simp only [beqItems, Bool.and_eq_true] at h ⊢
      exact ⟨beq_symm a b h.1, beqItems_symm as bs h.2⟩

end

mutual

theorem beq_trans : ∀ a b c : SignalValue, beq a b = true → beq b c = true → beq a c = true
  | .null, b, c, hab, hbc => by cases b <;> first | exact hbc | cases hab
  | .bool _, b, c, hab, hbc => by
    cases b <;> first | cases hab | skip
    cases c <;> first | cases hbc | exact PartialEquivBEq.trans (α := Bool) hab hbc
  | .number _, b, c, hab, hbc => by
    cases b <;> first | cases hab | skip
    cases c <;> first | cases hbc | exact PartialEquivBEq.trans (α := Number) hab hbc
  | .text _, b, c, hab, hbc => by
    cases b <;> first | cases hab | skip
    cases c <;> first | cases hbc | exact PartialEquivBEq.trans (α := String) hab hbc
  | .list as, b, c, hab, hbc => by
    cases b <;> first | cases hab | skip
    cases c <;> first | cases hbc | exact beqItems_trans as _ _ hab hbc

theorem beqItems_trans : ∀ as bs cs : List SignalValue,
    beqItems as bs = true → beqItems bs cs = true → beqItems as cs = true
  | [], bs, cs, hab, hbc => by cases bs <;> first | exact hbc | cases hab
  | a :: as, bs, cs, hab, hbc => by
    cases bs with
    | nil => cases hab
    | cons b bs =>
      cases cs with
      | nil => cases hbc
      | cons c cs =>
        simp only [beqItems, Bool.and_eq_true] at hab hbc ⊢
        exact ⟨beq_trans a b c hab.1 hbc.1, beqItems_trans as bs cs hab.2 hbc.2⟩

end

instance : EquivBEq SignalValue where
  rfl {a} := beq_self a
  symm {a b} h := beq_symm a b h
  trans {a b c} hab hbc := beq_trans a b c hab hbc

end SignalValue

end SignalBroker
