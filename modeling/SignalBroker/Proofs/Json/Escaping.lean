import Mathlib.Tactic.IntervalCases
import SignalBroker.Json.Parser
import SignalBroker.Json.Printer

namespace SignalBroker.Json

variable {rest : List Char} {o : Nat}

theorem hexFour?_control {n : Nat} (h : n < 0x20) (rest : List Char) :
    hexFour? ('0' :: '0' :: hexDigit (n / 16) :: hexDigit (n % 16) :: rest) = some n := by
  interval_cases n <;> rfl

theorem readChars_plain {c : Char} (acc : List Char) (hquote : c ≠ '"') (hescape : c ≠ '\\')
    (hcontrol : ¬c.toNat < 0x20) :
    readChars none acc (c :: rest) o = readChars none (c :: acc) rest (o + c.utf8Size) := by
  rw [readChars.eq_def]
  split
  · next h => cases h
  · next h => exact absurd (List.cons.inj h).1 hquote
  · next h => exact absurd (List.cons.inj h).1 hescape
  · next h => exact absurd (List.cons.inj h).1 hescape
  · next h => exact absurd (List.cons.inj h).1 hescape
  · next h =>
    cases h
    rw [if_neg hcontrol]

theorem readChars_simple {c d : Char} (acc : List Char) (h : simpleEscape? d = some c) :
    readChars none acc ('\\' :: d :: rest) o = readChars none (c :: acc) rest (o + 2) := by
  have hu : d ≠ 'u' := by
    rintro rfl
    cases h
  rw [readChars.eq_def]
  split
  · next heq => cases heq
  · next heq => cases heq
  · next heq => cases heq
  · next heq => exact absurd (List.cons.inj (List.cons.inj heq).2).1 hu
  · next heq =>
    cases heq
    simp only [h]
  · next hne heq =>
    cases heq
    exact (hne d rest rfl rfl).elim

theorem readChars_control {n : Nat} (acc rest : List Char) (o : Nat) (h : n < 0x20) :
    readChars none acc
      ('\\' :: 'u' :: '0' :: '0' :: hexDigit (n / 16) :: hexDigit (n % 16) :: rest) o =
      readChars none (Char.ofNat n :: acc) rest (o + 6) := by
  have htrailing : isTrailing n = false := by
    simp only [isTrailing, Bool.and_eq_false_iff, decide_eq_false_iff_not]
    omega
  have hleading : isLeading n = false := by
    simp only [isLeading, Bool.and_eq_false_iff, decide_eq_false_iff_not]
    omega
  rw [readChars.eq_def]
  simp [hexFour?_control h, htrailing, hleading]

theorem readChars_escapeChar (acc : List Char) (c : Char) (rest : List Char) (o : Nat) : ∃ o',
    readChars none acc (escapeChar c ++ rest) o = readChars none (c :: acc) rest o' := by
  unfold escapeChar
  split
  · exact ⟨_, readChars_simple acc rfl⟩
  · exact ⟨_, readChars_simple acc rfl⟩
  · exact ⟨_, readChars_simple acc rfl⟩
  · exact ⟨_, readChars_simple acc rfl⟩
  · exact ⟨_, readChars_simple acc rfl⟩
  · exact ⟨_, readChars_simple acc rfl⟩
  · exact ⟨_, readChars_simple acc rfl⟩
  · next hquote hescape _ _ _ _ _ =>
    split
    · next hcontrol =>
      have h := readChars_control acc rest o hcontrol
      rw [Char.ofNat_toNat] at h
      exact ⟨_, h⟩
    · next hcontrol => exact ⟨_, readChars_plain acc hquote hescape hcontrol⟩

theorem readChars_escape (acc cs rest : List Char) (o : Nat) : ∃ o',
    readChars none acc (cs.flatMap escapeChar ++ '"' :: rest) o =
      ⟨.ok (String.ofList (acc.reverse ++ cs)), .ok ⟨rest, o'⟩⟩ := by
  induction cs generalizing acc o with
  | nil =>
    refine ⟨o + 1, ?_⟩
    rw [List.append_nil, List.flatMap_nil, List.nil_append, readChars]
  | cons c cs ih =>
    obtain ⟨o₁, hc⟩ := readChars_escapeChar acc c (cs.flatMap escapeChar ++ '"' :: rest) o
    obtain ⟨o₂, hcs⟩ := ih (c :: acc) o₁
    refine ⟨o₂, ?_⟩
    rw [List.flatMap_cons, List.append_assoc, hc, hcs, List.reverse_cons, List.append_assoc]
    rfl

theorem readText_textChars (s : String) (rest : List Char) (o : Nat) : ∃ o',
    readText ⟨s.toList.flatMap escapeChar ++ '"' :: rest, o⟩ = ⟨.ok s, .ok ⟨rest, o'⟩⟩ := by
  obtain ⟨o', h⟩ := readChars_escape [] s.toList rest o
  refine ⟨o', h.trans ?_⟩
  rw [List.reverse_nil, List.nil_append, String.ofList_toList]

end SignalBroker.Json
