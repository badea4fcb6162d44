import Mathlib.Data.List.TakeWhile
import SignalBroker.Json.Parser

namespace SignalBroker

namespace Json

def isNumeralChar (c : Char) : Bool :=
  isDigit c || c = '-' || c = '+' || c = '.' || c = 'e' || c = 'E'

def EndsNumeral (tail : List Char) : Prop :=
  ∀ c ∈ tail.head?, isNumeralChar c = false

def Parsed.Reads (p : Parsed Reading) (n : Number) (rest : List Char) : Prop :=
  p.value.toJson = .ok (.number n) ∧ ∃ offset, p.next = .ok ⟨rest, offset⟩

/-- What is read of a numeral is what is read of it in front of anything that ends it. -/
def Local (read : Cursor → Parsed Reading) : Prop :=
  ∀ ⦃cs : List Char⦄ ⦃offset : Nat⦄ ⦃n : Number⦄ ⦃rest : List Char⦄,
    (read ⟨cs, offset⟩).Reads n rest → rest <:+ cs ∧ ∀ tail later, EndsNumeral tail →
      (read ⟨cs ++ tail, later⟩).Reads n (rest ++ tail)

variable {cs tail rest : List Char} {v : Number} {n : Numeral} {o o' : Nat}

theorem endsNumeral_nil : EndsNumeral [] := nofun

theorem endsNumeral_cons {c : Char} (h : isNumeralChar c = false) : EndsNumeral (c :: tail) := by
  rintro d ⟨⟩
  exact h

theorem Local.after {read : Cursor → Parsed Reading} (hl : Local read) (c : Char)
    (h : (read ⟨cs, o⟩).Reads v rest) : rest <:+ c :: cs ∧ ∀ tail later, EndsNumeral tail →
      (read ⟨cs ++ tail, later + 1⟩).Reads v (rest ++ tail) := by
  obtain ⟨hsuffix, htail⟩ := hl h
  exact ⟨hsuffix.trans (List.suffix_cons _ _), fun tail later => htail tail (later + 1)⟩

theorem isDigit_of_endsNumeral {c : Char} (h : EndsNumeral (c :: tail)) : isDigit c = false := by
  have hc := h c rfl
  simp only [isNumeralChar, Bool.or_eq_false_iff] at hc
  exact hc.1.1.1.1.1

theorem EndsNumeral.head?_ne {c : Char} (h : EndsNumeral tail) (hc : isNumeralChar c = true) :
    tail.head? ≠ some c := by
  intro hhead
  rw [h c hhead] at hc
  cases hc

theorem takeWhile_of_endsNumeral (h : EndsNumeral tail) : tail.takeWhile isDigit = [] := by
  cases tail with
  | nil => rfl
  | cons c tail => simp [isDigit_of_endsNumeral h]

theorem dropWhile_of_endsNumeral (h : EndsNumeral tail) : tail.dropWhile isDigit = tail := by
  cases tail with
  | nil => rfl
  | cons c tail => simp [isDigit_of_endsNumeral h]

theorem takeWhile_append (h : EndsNumeral tail) :
    (cs ++ tail).takeWhile isDigit = cs.takeWhile isDigit := by
  rw [List.takeWhile_append, takeWhile_of_endsNumeral h]
  split
  · next hall =>
    have := List.takeWhile_prefix (l := cs) isDigit
    rw [List.append_nil, this.eq_of_length hall]
  · rfl

theorem dropWhile_append (h : EndsNumeral tail) :
    (cs ++ tail).dropWhile isDigit = cs.dropWhile isDigit ++ tail := by
  rw [List.dropWhile_append, dropWhile_of_endsNumeral h]
  split
  · next hnone => rw [List.isEmpty_iff.mp hnone, List.nil_append]
  · rfl

theorem parsed_reads_iff {start : Nat} {next : Cursor} :
    (n.parsed start next).Reads v rest ↔ n.value = .ok v ∧ rest = next.rest := by
  unfold Numeral.parsed
  cases hv : n.value with
  | error seen => simp [Parsed.Reads, Reading.toJson]
  | ok w =>
    obtain ⟨cs, o⟩ := next
    simp [Parsed.Reads, Reading.toJson, eq_comm]

theorem not_reads_fail {flaw : Flaw} : ¬(Parsed.fail flaw o).Reads v rest := by
  rintro ⟨h, -⟩
  cases h

theorem not_reads_failAtEnd : ¬(Parsed.failAtEnd o).Reads v rest := by
  rintro ⟨h, -⟩
  cases h

def readPowerDigits (n : Numeral) (down : Bool) (c : Cursor) : Parsed Reading :=
  match c.rest with
  | [] => .failAtEnd c.offset
  | d :: _ =>
    if !isDigit d then .fail .invalidNumber (c.offset + 1)
    else
      { n with power := some (down, c.rest.takeWhile isDigit), isWhole := false : Numeral }.parsed
        c.offset ⟨c.rest.dropWhile isDigit, c.offset + (c.rest.takeWhile isDigit).length⟩

theorem readPower_unsigned {c : Char} (hminus : c ≠ '-') (hplus : c ≠ '+') :
    readPower n ⟨c :: cs, o⟩ = readPowerDigits n false ⟨c :: cs, o⟩ := by
  unfold readPower
  split
  next heq =>
    split at heq
    · next h => exact absurd (List.cons.inj h).1 hminus
    · next h => exact absurd (List.cons.inj h).1 hplus
    · cases heq
      rfl

theorem local_readPowerDigits (n : Numeral) (down : Bool) : Local (readPowerDigits n down) := by
  intro cs o v rest h
  cases cs with
  | nil => exact absurd h not_reads_failAtEnd
  | cons d cs =>
    unfold readPowerDigits at h ⊢
    dsimp only [List.cons_append] at h ⊢
    by_cases hd : isDigit d = true
    · simp only [hd, Bool.not_true, Bool.false_eq_true, if_false] at h ⊢
      obtain ⟨hv, rfl⟩ := parsed_reads_iff.mp h
      refine ⟨List.dropWhile_suffix _, fun tail later ht => parsed_reads_iff.mpr ⟨?_, ?_⟩⟩
      · rw [← List.cons_append, takeWhile_append ht]
        exact hv
      · rw [← List.cons_append, dropWhile_append ht]
    · simp only [hd, Bool.not_false, if_true] at h
      exact absurd h not_reads_fail

theorem local_readPower (n : Numeral) : Local (readPower n) := by
  intro cs o v rest h
  cases cs with
  | nil => exact absurd h not_reads_failAtEnd
  | cons c cs =>
    by_cases hminus : c = '-'
    · subst hminus
      exact (local_readPowerDigits n true).after _ h
    · by_cases hplus : c = '+'
      · subst hplus
        exact (local_readPowerDigits n false).after _ h
      · rw [readPower_unsigned hminus hplus] at h
        obtain ⟨hsuffix, htail⟩ := local_readPowerDigits n false h
        refine ⟨hsuffix, fun tail later ht => ?_⟩
        rw [List.cons_append, readPower_unsigned hminus hplus]
        exact htail tail later ht

def readExponent (n : Numeral) (c : Cursor) : Parsed Reading :=
  match c.rest with
  | 'e' :: rest | 'E' :: rest => readPower n ⟨rest, c.offset + 1⟩
  | _ => n.parsed c.offset c

theorem readExponent_other (hlower : cs.head? ≠ some 'e') (hupper : cs.head? ≠ some 'E') :
    readExponent n ⟨cs, o⟩ = n.parsed o ⟨cs, o⟩ := by
  unfold readExponent
  dsimp only
  split
  · exact absurd rfl hlower
  · exact absurd rfl hupper
  · rfl

theorem local_readExponent (n : Numeral) : Local (readExponent n) := by
  intro cs o v rest h
  cases cs with
  | nil =>
    obtain ⟨hv, rfl⟩ := parsed_reads_iff.mp h
    refine ⟨List.suffix_refl _, fun tail later ht => ?_⟩
    rw [List.nil_append, readExponent_other (ht.head?_ne rfl) (ht.head?_ne rfl)]
    exact parsed_reads_iff.mpr ⟨hv, rfl⟩
  | cons c cs =>
    by_cases hlower : c = 'e'
    · subst hlower
      exact (local_readPower n).after _ h
    · by_cases hupper : c = 'E'
      · subst hupper
        exact (local_readPower n).after _ h
      · rw [readExponent_other (by simpa using hlower) (by simpa using hupper)] at h
        obtain ⟨hv, rfl⟩ := parsed_reads_iff.mp h
        refine ⟨List.suffix_refl _, fun tail later ht => ?_⟩
        rw [readExponent_other (by simpa using hlower) (by simpa using hupper)]
        exact parsed_reads_iff.mpr ⟨hv, rfl⟩

theorem readFraction_point : readFraction n ⟨'.' :: cs, o⟩ =
    if (cs.takeWhile isDigit).isEmpty then
      if cs.isEmpty then .failAtEnd (o + 1) else .fail .invalidNumber (o + 2)
    else readExponent { n with fraction := cs.takeWhile isDigit, isWhole := false }
      ⟨cs.dropWhile isDigit, o + 1 + (cs.takeWhile isDigit).length⟩ := rfl

theorem readFraction_other (h : cs.head? ≠ some '.') :
    readFraction n ⟨cs, o⟩ = readExponent n ⟨cs, o⟩ := by
  unfold readFraction
  dsimp only
  split
  · exact absurd rfl h
  · rfl
  · rfl
  · next hlower hupper =>
    refine (readExponent_other ?_ ?_).symm <;> rw [ne_eq, List.head?_eq_some_iff]
    · exact fun ⟨rest, hrest⟩ => hlower rest hrest
    · exact fun ⟨rest, hrest⟩ => hupper rest hrest

theorem local_readFraction (n : Numeral) : Local (readFraction n) := by
  intro cs o v rest h
  by_cases hpoint : cs.head? = some '.'
  · obtain ⟨cs, rfl⟩ := List.head?_eq_some_iff.mp hpoint
    rw [readFraction_point] at h
    split at h
    · split at h
      · exact absurd h not_reads_failAtEnd
      · exact absurd h not_reads_fail
    · next hsome =>
      obtain ⟨hsuffix, htail⟩ := local_readExponent _ h
      refine ⟨hsuffix.trans ((List.dropWhile_suffix _).trans (List.suffix_cons _ _)), ?_⟩
      intro tail later ht
      rw [List.cons_append, readFraction_point, takeWhile_append ht, dropWhile_append ht,
        if_neg hsome]
      exact htail tail _ ht
  · rw [readFraction_other hpoint] at h
    obtain ⟨hsuffix, htail⟩ := local_readExponent n h
    refine ⟨hsuffix, fun tail later ht => ?_⟩
    have hpoint' : (cs ++ tail).head? ≠ some '.' := by
      cases cs with
      | nil => exact ht.head?_ne rfl
      | cons c cs => exact hpoint
    rw [readFraction_other hpoint']
    exact htail tail later ht

theorem readNumeral_digits {negative : Bool} {d : Char} (hd : isDigit d = true) (hzero : d ≠ '0') :
    readNumeral negative ⟨d :: cs, o⟩ =
      readFraction ⟨negative, (d :: cs).takeWhile isDigit, [], none, true⟩
        ⟨(d :: cs).dropWhile isDigit, o + ((d :: cs).takeWhile isDigit).length⟩ := by
  unfold readNumeral
  dsimp only
  split
  · next h => cases h
  · next h => exact absurd (List.cons.inj h).1 hzero
  · next h =>
    cases h
    simp [hd]

theorem readNumeral_zero {negative : Bool} (h : cs.head?.any isDigit = false) :
    readNumeral negative ⟨'0' :: cs, o⟩ =
      readFraction ⟨negative, ['0'], [], none, true⟩ ⟨cs, o + 1⟩ := by
  cases cs with
  | nil => rfl
  | cons d cs =>
    have hd : isDigit d = false := h
    show (if isDigit d then _ else _) = _
    rw [hd]
    rfl

theorem digits_of_reads {negative : Bool} {d : Char}
    (h : (readNumeral negative ⟨d :: cs, o⟩).Reads v rest) :
    isDigit d = true ∧ (d = '0' → cs.head?.any isDigit = false) := by
  by_cases hzero : d = '0'
  · subst hzero
    refine ⟨rfl, fun _ => ?_⟩
    cases cs with
    | nil => rfl
    | cons e cs =>
      by_contra he
      have h' : (if isDigit e then Parsed.fail .invalidNumber (o + 2) else _).Reads v rest := h
      rw [if_pos (by simpa using he)] at h'
      exact not_reads_fail h'
  · refine ⟨?_, fun hd => absurd hd hzero⟩
    by_contra hd
    unfold readNumeral at h
    dsimp only at h
    split at h
    · next heq => cases heq
    · next heq => exact hzero (List.cons.inj heq).1
    · next heq =>
      cases heq
      rw [if_pos (by simpa using hd)] at h
      exact not_reads_fail h

-- A zero in front is the whole part by itself, which only the character behind it can tell.
theorem local_readNumeral (negative : Bool) : Local (readNumeral negative) := by
  intro cs o v rest h
  cases cs with
  | nil => exact absurd h not_reads_failAtEnd
  | cons d cs =>
    obtain ⟨hd, hsingle⟩ := digits_of_reads h
    by_cases hzero : d = '0'
    · subst hzero
      rw [readNumeral_zero (hsingle rfl)] at h
      obtain ⟨hsuffix, htail⟩ := local_readFraction _ h
      refine ⟨hsuffix.trans (List.suffix_cons _ _), fun tail later ht => ?_⟩
      have hnext : (cs ++ tail).head?.any isDigit = false := by
        cases cs with
        | cons e cs => exact hsingle rfl
        | nil =>
          cases tail with
          | nil => rfl
          | cons e tail => exact isDigit_of_endsNumeral ht
      rw [List.cons_append, readNumeral_zero hnext]
      exact htail tail _ ht
    · rw [readNumeral_digits hd hzero] at h
      obtain ⟨hsuffix, htail⟩ := local_readFraction _ h
      refine ⟨hsuffix.trans (List.dropWhile_suffix _), fun tail later ht => ?_⟩
      rw [List.cons_append, readNumeral_digits hd hzero, ← List.cons_append, takeWhile_append ht,
        dropWhile_append ht]
      exact htail tail _ ht

def readNumber (c : Cursor) : Parsed Reading :=
  match c.rest with
  | '-' :: rest => readNumeral true ⟨rest, c.offset + 1⟩
  | _ => readNumeral false c

theorem readNumber_positive {c : Char} (h : c ≠ '-') :
    readNumber ⟨c :: cs, o⟩ = readNumeral false ⟨c :: cs, o⟩ := by
  unfold readNumber
  dsimp only
  split
  · next heq => exact absurd (List.cons.inj heq).1 h
  · rfl

theorem local_readNumber : Local readNumber := by
  intro cs o v rest h
  cases cs with
  | nil => exact absurd h not_reads_failAtEnd
  | cons c cs =>
    by_cases hminus : c = '-'
    · subst hminus
      exact (local_readNumeral true).after _ h
    · rw [readNumber_positive hminus] at h
      obtain ⟨hsuffix, htail⟩ := local_readNumeral false h
      refine ⟨hsuffix, fun tail later ht => ?_⟩
      rw [List.cons_append, readNumber_positive hminus]
      exact htail tail later ht

def Parsed.Plain (p : Parsed Reading) : Prop :=
  (∃ n, p.value = .number n) ∨ ∃ e, p.value = .unreadable e

theorem plain_parsed (n : Numeral) (start : Nat) (next : Cursor) : (n.parsed start next).Plain := by
  unfold Numeral.parsed
  split
  · exact .inl ⟨_, rfl⟩
  · exact .inr ⟨_, rfl⟩

theorem plain_readPower (n : Numeral) (c : Cursor) : (readPower n c).Plain := by
  unfold readPower
  split
  dsimp only
  split
  · exact .inr ⟨_, rfl⟩
  · split
    · exact .inr ⟨_, rfl⟩
    · exact plain_parsed ..

theorem plain_readFraction (n : Numeral) (c : Cursor) : (readFraction n c).Plain := by
  unfold readFraction
  split
  · dsimp only
    split
    · split <;> exact .inr ⟨_, rfl⟩
    · split
      · exact plain_readPower ..
      · exact plain_readPower ..
      · exact plain_parsed ..
  · exact plain_readPower ..
  · exact plain_readPower ..
  · exact plain_parsed ..

theorem plain_readNumeral (negative : Bool) (c : Cursor) : (readNumeral negative c).Plain := by
  unfold readNumeral
  split
  · exact .inr ⟨_, rfl⟩
  · split
    · split
      · exact .inr ⟨_, rfl⟩
      · exact plain_readFraction ..
    · exact plain_readFraction ..
  · split
    · exact .inr ⟨_, rfl⟩
    · exact plain_readFraction ..

theorem plain_readNumber (c : Cursor) : (readNumber c).Plain := by
  unfold readNumber
  split <;> exact plain_readNumeral ..

theorem value_of_reads {p : Parsed Reading} (hp : p.Plain) (h : p.Reads v rest) :
    p.value = .number v := by
  obtain ⟨hvalue, -⟩ := h
  obtain ⟨w, hw⟩ | ⟨e, he⟩ := hp
  · rw [hw] at hvalue ⊢
    cases hvalue
    rfl
  · rw [he] at hvalue
    cases hvalue

end Json

end SignalBroker
