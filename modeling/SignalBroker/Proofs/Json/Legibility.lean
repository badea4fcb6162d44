import Mathlib.Tactic.IntervalCases
import SignalBroker.Json.Printer
import SignalBroker.Proofs.Except
import SignalBroker.Proofs.Json.Numerals

namespace SignalBroker

theorem Decimal.le_ofDigitChars (read : Nat) (cs : List Char) :
    read ≤ Nat.ofDigitChars 10 cs read := by
  induction cs generalizing read with
  | nil => exact Nat.le_of_eq Nat.ofDigitChars_nil.symm
  | cons c cs ih =>
    rw [Nat.ofDigitChars_cons]
    exact Nat.le_trans (by omega) (ih _)

namespace Json

variable {cs tail rest : List Char} {v : Number} {o : Nat}

theorem isNumeralChar_of_isDigit {c : Char} (h : c.isDigit = true) : isNumeralChar c = true := by
  have hd : isDigit c = true := h
  simp [isNumeralChar, hd]

theorem isNumeralChar_digitChars {k : Nat} {c : Char} (h : c ∈ Decimal.digitChars k) :
    isNumeralChar c = true :=
  isNumeralChar_of_isDigit (Nat.isDigit_of_mem_toDigits (by decide) (by decide) h)

theorem isNumeralChar_positional {digits : List Char} (first : Int)
    (hd : ∀ c ∈ digits, isNumeralChar c = true) :
    ∀ c ∈ Decimal.positional digits first, isNumeralChar c = true := by
  have hzeros : ∀ k, ∀ c ∈ List.replicate k '0', isNumeralChar c = true := by
    intro k c hc
    rw [List.eq_of_mem_replicate hc]
    rfl
  unfold Decimal.positional
  dsimp only
  split
  · simp only [List.forall_mem_append]
    exact ⟨⟨by simp [isNumeralChar, isDigit], hzeros _⟩, hd⟩
  · split
    · simp only [List.forall_mem_append]
      exact ⟨⟨hd, hzeros _⟩, by simp [isNumeralChar, isDigit]⟩
    · simp only [List.forall_mem_append]
      exact ⟨⟨fun c hc => hd c (List.mem_of_mem_take hc), by simp [isNumeralChar]⟩,
        fun c hc => hd c (List.mem_of_mem_drop hc)⟩

theorem isNumeralChar_scientificText {digits : List Char} (first : Int)
    (hd : ∀ c ∈ digits, isNumeralChar c = true) :
    ∀ c ∈ Decimal.scientificText digits first, isNumeralChar c = true := by
  unfold Decimal.scientificText
  simp only [List.forall_mem_append]
  refine ⟨⟨?_, ?_⟩, fun c hc => isNumeralChar_digitChars hc⟩
  · split
    · exact fun c hc => absurd hc List.not_mem_nil
    · exact hd
    · rw [List.forall_mem_cons] at hd
      exact List.forall_mem_cons.mpr ⟨hd.1, List.forall_mem_cons.mpr ⟨rfl, hd.2⟩⟩
  · split <;> simp [isNumeralChar]

theorem isNumeralChar_floatChars (style : Decimal.FloatFormat) (x : Float) :
    ∀ c ∈ Decimal.floatChars style x, isNumeralChar c = true := by
  have hsign : ∀ c ∈ (if Double.isNegative x then ['-'] else []), isNumeralChar c = true := by
    split <;> simp [isNumeralChar]
  have hdigits : ∀ c ∈ (Decimal.shortest x).scientific.1, isNumeralChar c = true := by
    intro c hc
    have hsub := (List.dropWhile_suffix (· == '0')).subset (List.mem_reverse.mp hc)
    exact isNumeralChar_digitChars (List.mem_reverse.mp hsub)
  unfold Decimal.floatChars
  dsimp only
  split
  · exact List.forall_mem_append.mpr ⟨hsign, by simp [isNumeralChar, isDigit]⟩
  · split
    · exact List.forall_mem_append.mpr ⟨hsign, isNumeralChar_positional _ hdigits⟩
    · exact List.forall_mem_append.mpr ⟨hsign, isNumeralChar_scientificText _ hdigits⟩

theorem toList_negative (k : Nat) :
    (toString (Int.negSucc k)).toList = '-' :: Nat.toDigits 10 (k + 1) := by
  show ("-" ++ (k + 1).repr).toList = _
  rw [String.toList_append, Nat.toList_repr]
  rfl

theorem isNumeralChar_numberChars (n : Number) : ∀ c ∈ numberChars n, isNumeralChar c = true := by
  cases n with
  | natural n =>
    intro c hc
    have hlist : numberChars (.natural n) = Nat.toDigits 10 n.toNat := Nat.toList_repr
    rw [hlist] at hc
    exact isNumeralChar_digitChars hc
  | negative n =>
    intro c hc
    rw [numberChars] at hc
    cases hn : n.toInt with
    | ofNat k =>
      have hlist : (toString (Int.ofNat k)).toList = Nat.toDigits 10 k := Nat.toList_repr
      rw [hn, hlist] at hc
      exact isNumeralChar_digitChars hc
    | negSucc k =>
      rw [hn, toList_negative] at hc
      obtain rfl | hc := List.mem_cons.mp hc
      · rfl
      · exact isNumeralChar_digitChars hc
  | double x => exact isNumeralChar_floatChars _ _

/-- A number whose text is read back as that number. Only for a double can it be another one. -/
def LegibleNumber (n : Number) : Prop :=
  ofText (indented (.number n)) = .ok (.number n)

theorem isGap_of_isNumeralChar {c : Char} (h : isNumeralChar c = true) : isGap c = false := by
  by_contra hgap
  simp only [isGap, Bool.not_eq_false, Bool.or_eq_true, decide_eq_true_eq] at hgap
  obtain ((rfl | rfl) | rfl) | rfl := hgap <;> cases h

theorem skipGaps_cons {c : Char} (h : isGap c = false) :
    Cursor.skipGaps ⟨c :: cs, o⟩ = ⟨c :: cs, o⟩ := by
  simp [Cursor.skipGaps, h]

theorem readValue_numeral {c : Char} (fuel depth : Nat) (hc : isNumeralChar c = true) :
    readValue (fuel + 1) depth ⟨c :: cs, o⟩ = Parsed.placed o
      (if c = '-' ∨ isDigit c = true then readNumber ⟨c :: cs, o⟩
      else .fail .expectedValue (o + 1)) := by
  rw [readValue, skipGaps_cons (isGap_of_isNumeralChar hc)]
  dsimp only
  congr 1
  split
  · next heq => cases heq
  · next heq => cases heq; cases hc
  · next heq => cases heq; cases hc
  · next heq => cases heq; cases hc
  · next heq => cases heq; cases hc
  · next heq => cases heq; cases hc
  · next heq => cases heq; cases hc
  · next heq => cases heq; rfl
  · next hminus heq =>
    cases heq
    have hne : c ≠ '-' := fun h => hminus h
    simp only [hne, false_or, readNumber_positive hne]

def whole (source : String) : Parsed Reading :=
  readValue (4 * source.toList.length + 4) 0 ⟨source.toList, 0⟩

theorem read_ofText_eq_ok_iff {α : Type} {source : String} {consume : Reading → Except Error α}
    {a : α} : (Document.ofText source).read consume = .ok a ↔
      consume (whole source).value = .ok a ∧
        ∃ c, (whole source).next = .ok c ∧ ∀ d ∈ c.rest, isGap d = true := by
  have hreading : (Document.ofText source).reading = (whole source).value := by
    unfold Document.ofText whole
    dsimp only
    split <;> rfl
  have hsurplus : (Document.ofText source).surplus = none ↔
      ∃ c, (whole source).next = .ok c ∧ ∀ d ∈ c.rest, isGap d = true := by
    unfold Document.ofText
    dsimp only
    rw [← whole]
    cases (whole source).next with
    | error e => simp
    | ok c => simp [Cursor.skipGaps]
  rw [Document.read, bind_eq_ok_iff, hreading, ← hsurplus]
  constructor
  · rintro ⟨a', ha, h⟩
    split at h
    · next hnone =>
      cases h
      exact ⟨ha, hnone⟩
    · cases h
  · rintro ⟨ha, hnone⟩
    refine ⟨a, ha, ?_⟩
    rw [hnone]
    rfl

theorem readNumber_of_legible (h : LegibleNumber v) : ∃ c cs, numberChars v = c :: cs ∧
    (c = '-' ∨ isDigit c = true) ∧ (readNumber ⟨c :: cs, 0⟩).Reads v [] := by
  have hsource : (indented (.number v)).toList = numberChars v := by
    rw [indented, indentBefore, List.append_nil, String.toList_ofList]
  obtain ⟨hvalue, ⟨rest, o⟩, hnext, hgaps⟩ := read_ofText_eq_ok_iff.mp h
  rw [whole, hsource] at hvalue hnext
  have hall := isNumeralChar_numberChars v
  cases hcs : numberChars v with
  | nil =>
    rw [hcs, readValue] at hvalue
    cases hvalue
  | cons c cs =>
    rw [hcs] at hvalue hnext hall
    rw [readValue_numeral _ _ (hall c List.mem_cons_self)] at hvalue hnext
    refine ⟨c, cs, rfl, ?_⟩
    split at hvalue
    · next hhead =>
      rw [if_pos hhead] at hnext
      have hreads : (readNumber ⟨c :: cs, 0⟩).Reads v rest := ⟨hvalue, o, hnext⟩
      have hrest : rest = [] := by
        refine List.eq_nil_iff_forall_not_mem.mpr fun d hd => ?_
        have hgap := isGap_of_isNumeralChar (hall d ((local_readNumber hreads).1.subset hd))
        rw [hgaps d hd] at hgap
        cases hgap
      exact ⟨hhead, hrest ▸ hreads⟩
    · cases hvalue

theorem readValue_number (fuel depth : Nat) (h : LegibleNumber v) (ht : EndsNumeral tail) :
    (readValue (fuel + 1) depth ⟨numberChars v ++ tail, o⟩).value.shape = .number v ∧
      ∃ offset, (readValue (fuel + 1) depth ⟨numberChars v ++ tail, o⟩).next = .ok ⟨tail, offset⟩ := by
  obtain ⟨c, cs, hcs, hhead, hreads⟩ := readNumber_of_legible h
  have hc : isNumeralChar c = true := isNumeralChar_numberChars v c (hcs ▸ List.mem_cons_self)
  have hlater := (local_readNumber hreads).2 tail o ht
  rw [hcs, List.cons_append, readValue_numeral fuel depth hc, if_pos hhead]
  exact ⟨value_of_reads (plain_readNumber _) hlater, hlater.2⟩

theorem takeDigits_eq {start : Nat} (h : Nat.ofDigitChars 10 cs start ≤ maxSignificand) :
    takeDigits start cs = (Nat.ofDigitChars 10 cs start, 0) := by
  induction cs generalizing start with
  | nil => rw [takeDigits, Nat.ofDigitChars_nil]
  | cons c cs ih =>
    rw [Nat.ofDigitChars_cons, Nat.mul_comm 10] at h ⊢
    have hfits := Nat.le_trans (Decimal.le_ofDigitChars _ cs) h
    rw [takeDigits]
    exact (if_pos hfits).trans (ih h)

theorem takeDigits_toDigits {k : Nat} (h : k ≤ maxSignificand) :
    takeDigits 0 (Nat.toDigits 10 k) = (k, 0) := by
  have hvalue := Nat.ofDigitChars_ten_toDigits (n := k)
  rw [takeDigits_eq (hvalue.symm ▸ h), hvalue]

theorem head_toDigits (k : Nat) (h : 0 < k) : (Nat.toDigits 10 k).head? ≠ some '0' := by
  induction k using Nat.strong_induction_on with
  | _ k ih =>
    by_cases hk : k < 10
    · rw [Nat.toDigits_of_lt_base hk]
      interval_cases k <;> decide
    · have hne : Nat.toDigits 10 (k / 10) ≠ [] := Nat.toDigits_ne_nil
      rw [Nat.toDigits_of_base_le (by decide) (by omega), List.head?_append_of_ne_nil _ hne]
      exact ih (k / 10) (by omega) (by omega)

theorem readNumeral_toDigits {negative : Bool} {k : Nat}
    (hv : Numeral.value ⟨negative, Nat.toDigits 10 k, [], none, true⟩ = .ok v) :
    (readNumeral negative ⟨Nat.toDigits 10 k, o⟩).Reads v [] := by
  obtain rfl | hk := Nat.eq_zero_or_pos k
  · exact parsed_reads_iff.mpr ⟨hv, rfl⟩
  · have hd : ∀ d ∈ Nat.toDigits 10 k, isDigit d = true := fun d hd =>
      Nat.isDigit_of_mem_toDigits (by decide) (by decide) hd
    have hhead := head_toDigits k hk
    cases hcs : Nat.toDigits 10 k with
    | nil => exact absurd hcs Nat.toDigits_ne_nil
    | cons d cs =>
      rw [hcs] at hd hhead hv
      rw [readNumeral_digits (hd d List.mem_cons_self) (by simpa using hhead),
        List.takeWhile_eq_self_iff.mpr hd, List.dropWhile_eq_nil_iff.mpr hd]
      exact parsed_reads_iff.mpr ⟨hv, rfl⟩

theorem legibleNumber_of_reads {c : Char} (hcs : numberChars v = c :: cs)
    (hhead : c = '-' ∨ isDigit c = true) (h : (readNumber ⟨c :: cs, 0⟩).Reads v []) :
    LegibleNumber v := by
  have hsource : (indented (.number v)).toList = c :: cs := by
    rw [indented, indentBefore, List.append_nil, String.toList_ofList, hcs]
  have hc : isNumeralChar c = true := isNumeralChar_numberChars v c (hcs ▸ List.mem_cons_self)
  obtain ⟨hvalue, o, hnext⟩ := h
  refine read_ofText_eq_ok_iff.mpr ?_
  rw [whole, hsource, readValue_numeral _ _ hc, if_pos hhead]
  exact ⟨hvalue, ⟨[], o⟩, hnext, nofun⟩

theorem legibleNumber_natural (k : UInt64) : LegibleNumber (.natural k) := by
  have hlist : numberChars (.natural k) = Nat.toDigits 10 k.toNat := Nat.toList_repr
  have hvalue : Numeral.value ⟨false, Nat.toDigits 10 k.toNat, [], none, true⟩ =
      .ok (.natural k) := by
    have hk : k.toNat ≤ maxSignificand := Nat.le_of_lt_succ k.toNat_lt
    simp [Numeral.value, takeDigits_toDigits hk]
  have hreads := readNumeral_toDigits (o := 0) hvalue
  cases hcs : Nat.toDigits 10 k.toNat with
  | nil => exact absurd hcs Nat.toDigits_ne_nil
  | cons d cs =>
    have hd : isDigit d = true :=
      Nat.isDigit_of_mem_toDigits (by decide) (by decide) (hcs ▸ List.mem_cons_self)
    have hne : d ≠ '-' := by
      rintro rfl
      cases hd
    rw [hcs] at hreads hlist
    exact legibleNumber_of_reads hlist (.inr hd) (readNumber_positive hne ▸ hreads)

mutual

def Legible : Json → Prop
  | .number n => LegibleNumber n
  | .array items => LegibleItems items
  | .object members => LegibleMembers members
  | _ => True

def LegibleItems : List Json → Prop
  | [] => True
  | j :: js => Legible j ∧ LegibleItems js

def LegibleMembers : List (String × Json) → Prop
  | [] => True
  | (_, j) :: js => Legible j ∧ LegibleMembers js

end

theorem legibleItems_iff {items : List Json} : LegibleItems items ↔ ∀ j ∈ items, j.Legible := by
  induction items with
  | nil => simp [LegibleItems]
  | cons j items ih => simp [LegibleItems, ih]

theorem legibleMembers_iff {members : List (String × Json)} :
    LegibleMembers members ↔ ∀ m ∈ members, m.2.Legible := by
  induction members with
  | nil => simp [LegibleMembers]
  | cons m members ih => simp [LegibleMembers, ih]

end Json

end SignalBroker
