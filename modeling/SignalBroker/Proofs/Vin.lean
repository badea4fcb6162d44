import Mathlib
import SignalBroker.Vin

namespace SignalBroker

namespace Random

/-- A source of random numbers. Asked for a number below a positive bound it gives one. -/
structure Source (σ : Type) where
  below : Nat → σ → Nat × σ
  below_lt {bound : Nat} (h : 0 < bound) (s : σ) : (below bound s).1 < bound

namespace Source

def draws : Source Draws := ⟨Draws.below, Draws.below_lt⟩

/-- The numbers of a list, by their remainders. Zeros follow the last one. -/
def list : Source (List Nat) where
  below bound numbers := (numbers.headD 0 % bound, numbers.tail)
  below_lt h _ := Nat.mod_lt _ h

end Source

end Random

namespace Vin

section CheckDigit

variable {c : Char} {bytes bytes' : List UInt8} {r : Nat}

theorem mem_alphabet_iff :
    c ∈ alphabet ↔ (c.isUpper = true ∨ c.isDigit = true) ∧ c ∉ ['I', 'O', 'Q'] := by
  have hascii : ∀ n < 91, (Char.ofNat n ∈ alphabet ↔
      ((Char.ofNat n).isUpper = true ∨ (Char.ofNat n).isDigit = true) ∧
        Char.ofNat n ∉ ['I', 'O', 'Q']) := by
    decide +kernel
  have hmem : ∀ c ∈ alphabet, c.toNat < 91 := by
    have hall : alphabet.all (·.toNat < 91) = true := by decide
    simpa only [List.all_eq_true, decide_eq_true_eq] using hall
  have hletter : c.isUpper = true ∨ c.isDigit = true → c.toNat < 91 := by
    simp only [Char.isUpper, Char.isDigit, Bool.and_eq_true, decide_eq_true_eq, ge_iff_le,
      UInt32.le_iff_toNat_le, ← Char.toNat_val]
    rintro (⟨-, h⟩ | ⟨-, h⟩)
    · exact Nat.lt_succ_of_le h
    · exact Nat.lt_of_le_of_lt h (by decide)
  by_cases h : c.toNat < 91
  · simpa only [Char.ofNat_toNat] using hascii c.toNat h
  · exact ⟨fun hc => absurd (hmem c hc) h, fun hc => absurd (hletter hc.1) h⟩

theorem transliterate_le (b : UInt8) : transliterate b ≤ 9 := by
  unfold transliterate
  dsimp only
  split
  · next h =>
    simp only [Bool.and_eq_true, decide_eq_true_eq] at h
    exact Nat.sub_le_of_le_add h.2
  · split <;> decide

def worthAt (bytes : List UInt8) (i : Nat) : Nat := (bytes[i]?.map transliterate).getD 0

theorem worthAt_le (bytes : List UInt8) (i : Nat) : worthAt bytes i ≤ 9 := by
  unfold worthAt
  cases bytes[i]? with
  | none => exact Nat.zero_le 9
  | some b => exact transliterate_le b

theorem sum_zipWith (bytes : List UInt8) (weights : List Nat) :
    (List.zipWith (fun c w => transliterate c * w) bytes weights).sum =
      ∑ i ∈ Finset.range weights.length, worthAt bytes i * weights.getD i 0 := by
  induction weights generalizing bytes with
  | nil => rw [List.zipWith_nil_right]; rfl
  | cons w weights ih =>
    rw [List.length_cons, Finset.sum_range_succ']
    cases bytes with
    | nil => simp [worthAt]
    | cons b bytes =>
      rw [List.zipWith_cons_cons, List.sum_cons, ih, Nat.add_comm]
      rfl

theorem weightedSum_eq (bytes : List UInt8) :
    weightedSum bytes = ∑ i ∈ Finset.range 17, worthAt bytes i * weights.getD i 0 := by
  rw [weightedSum, ← List.sum_eq_foldl, sum_zipWith]
  rfl

theorem weightedSum_le (bytes : List UInt8) : weightedSum bytes ≤ 801 := by
  rw [weightedSum_eq]
  calc ∑ i ∈ Finset.range 17, worthAt bytes i * weights.getD i 0
      ≤ ∑ i ∈ Finset.range 17, 9 * weights.getD i 0 :=
        Finset.sum_le_sum fun i _ => Nat.mul_le_mul_right _ (worthAt_le bytes i)
    _ = 801 := by decide

/-- The ninth byte has no weight, and the bytes after the seventeenth are not weighted. -/
theorem checkDigit_congr (h : ∀ i < 17, i ≠ 8 → bytes[i]? = bytes'[i]?) :
    checkDigit bytes = checkDigit bytes' := by
  have hsum : weightedSum bytes = weightedSum bytes' := by
    rw [weightedSum_eq, weightedSum_eq]
    refine Finset.sum_congr rfl fun i hi => ?_
    by_cases hcheck : i = 8
    · subst hcheck
      rfl
    · rw [worthAt, worthAt, h i (Finset.mem_range.mp hi) hcheck]
  rw [checkDigit, checkDigit, hsum]

theorem checkDigit_set (bytes : List UInt8) (b : UInt8) :
    checkDigit (bytes.set checkPosition b) = checkDigit bytes :=
  checkDigit_congr fun _ _ hi => List.getElem?_set_ne (Ne.symm hi)

theorem digitOf_cases (h : r < 11) : digitOf r = 'X' ∨ (digitOf r).isDigit = true := by
  have hall : ∀ r < 11, digitOf r = 'X' ∨ (digitOf r).isDigit = true := by decide
  exact hall r h

theorem checkDigit_cases (bytes : List UInt8) :
    checkDigit bytes = 'X' ∨ (checkDigit bytes).isDigit = true :=
  digitOf_cases (Nat.mod_lt _ (by decide))

theorem checkDigit_mem_alphabet (bytes : List UInt8) : checkDigit bytes ∈ alphabet := by
  have hall : ∀ r < 11, digitOf r ∈ alphabet := by decide
  exact hall _ (Nat.mod_lt _ (by decide))

end CheckDigit

/-- Seventeen letters of the alphabet, of which the ninth is the check digit of the number itself. -/
structure Valid (vin : String) : Prop where
  length : vin.length = 17
  letters : ∀ c ∈ vin.toList, c ∈ alphabet
  check : vin.toList[8]? = some (checkDigit vin.toUTF8.data.toList)

section Letters

variable {letters : List Char}

theorem utf8EncodeChar_letter {c : Char} (h : c ∈ alphabet) :
    String.utf8EncodeChar c = [byteOf c] := by
  have hall : alphabet.all (fun c => String.utf8EncodeChar c = [byteOf c]) = true := by decide
  simp only [List.all_eq_true, decide_eq_true_eq] at hall
  exact hall c h

theorem toUTF8_letters (h : ∀ c ∈ letters, c ∈ alphabet) :
    (String.ofList letters).toUTF8 = (letters.map byteOf).toByteArray := by
  rw [String.toUTF8_eq_toByteArray, String.toByteArray_ofList]
  induction letters with
  | nil => rfl
  | cons c letters ih =>
    obtain ⟨hc, hletters⟩ := List.forall_mem_cons.mp h
    rw [List.utf8Encode_cons, List.utf8Encode_singleton, utf8EncodeChar_letter hc, ih hletters,
      ← List.toByteArray_append]
    rfl

theorem bytes_letters (h : ∀ c ∈ letters, c ∈ alphabet) :
    (String.ofList letters).toUTF8.data.toList = letters.map byteOf := by
  rw [toUTF8_letters h, List.data_toByteArray]

theorem fromUTF8?_letters (h : ∀ c ∈ letters, c ∈ alphabet) :
    String.fromUTF8? (letters.map byteOf).toByteArray = some (String.ofList letters) := by
  have hvalid := (String.ofList letters).isValidUTF8
  rw [← toUTF8_letters h, String.fromUTF8?]
  exact dif_pos hvalid

theorem withCheckDigit_eq (letters : List Char) :
    withCheckDigit letters = letters.set checkPosition (checkDigit (letters.map byteOf)) := by
  rw [withCheckDigit, List.set_set, List.map_set, checkDigit_set]

theorem forall_mem_withCheckDigit (h : ∀ c ∈ letters, c ∈ alphabet) :
    ∀ c ∈ withCheckDigit letters, c ∈ alphabet := by
  intro c hc
  rw [withCheckDigit_eq] at hc
  obtain hc | rfl := List.mem_or_eq_of_mem_set hc
  · exact h c hc
  · exact checkDigit_mem_alphabet _

/-- Letters of the right number make a valid vehicle number once their check digit is in place. -/
theorem valid_withCheckDigit (hlength : letters.length = 17) (h : ∀ c ∈ letters, c ∈ alphabet) :
    Valid (String.ofList (withCheckDigit letters)) where
  length := by rw [String.length_ofList, withCheckDigit_eq, List.length_set, hlength]
  letters := by
    rw [String.toList_ofList]
    exact forall_mem_withCheckDigit h
  check := by
    rw [bytes_letters (forall_mem_withCheckDigit h), String.toList_ofList, withCheckDigit_eq,
      List.map_set, checkDigit_set]
    exact List.getElem?_set_self (by rw [hlength]; decide)

theorem Valid.withCheckDigit_eq_self {vin : String} (h : Valid vin) :
    withCheckDigit vin.toList = vin.toList := by
  have hbytes := bytes_letters h.letters
  rw [String.ofList_toList] at hbytes
  obtain ⟨hplace, hcheck⟩ := List.getElem?_eq_some_iff.mp h.check
  rw [withCheckDigit_eq, ← hbytes, ← hcheck]
  exact List.set_getElem_self hplace

end Letters

section Generating

variable {σ : Type}

def drawBytes? (source : Random.Source σ) (s : σ) : Nat → Option (List UInt8 × σ)
  | 0 => some ([], s)
  | n + 1 => do
    let (i, s) := source.below alphabet.length s
    let letter ← alphabet[i]?
    let (rest, s) ← drawBytes? source s n
    return (byteOf letter :: rest, s)

def overwrite? (bytes : List UInt8) (i : Nat) (b : UInt8) : Option (List UInt8) :=
  if i < bytes.length then some (bytes.set i b) else none

/-- A vehicle number made in a buffer of bytes, from any source of random numbers. Nothing comes of it
where an index is out of range or the bytes are not those of a text. -/
def generate? (source : Random.Source σ) (s : σ) : Option (String × σ) := do
  let (bytes, s) ← drawBytes? source s 17
  let bytes ← overwrite? bytes checkPosition (byteOf '0')
  let bytes ← overwrite? bytes checkPosition (byteOf (checkDigit bytes))
  let vin ← String.fromUTF8? bytes.toByteArray
  return (vin, s)

variable {letters : List Char} {s s' : σ} {source : Random.Source σ} {n : Nat}

theorem drawBytes?_succ {letter : Char} {rest : List UInt8}
    (hletter : alphabet[(source.below alphabet.length s).1]? = some letter)
    (hrest : drawBytes? source (source.below alphabet.length s).2 n = some (rest, s')) :
    drawBytes? source s (n + 1) = some (byteOf letter :: rest, s') := by
  rw [drawBytes?]
  dsimp only
  rw [hletter, hrest]
  rfl

theorem exists_drawBytes? (source : Random.Source σ) (s : σ) (n : Nat) :
    ∃ (letters : List Char) (s' : σ), drawBytes? source s n = some (letters.map byteOf, s') ∧
      letters.length = n ∧ ∀ c ∈ letters, c ∈ alphabet := by
  induction n generalizing s with
  | zero => exact ⟨[], s, rfl, rfl, nofun⟩
  | succ n ih =>
    have hindex := source.below_lt (by decide : 0 < alphabet.length) s
    obtain ⟨letters, s', hrest, hlength, hletters⟩ := ih (source.below alphabet.length s).2
    refine ⟨alphabet[(source.below alphabet.length s).1] :: letters, s', ?_, ?_, ?_⟩
    · exact drawBytes?_succ (List.getElem?_eq_getElem hindex) hrest
    · rw [List.length_cons, hlength]
    · exact List.forall_mem_cons.mpr ⟨List.getElem_mem hindex, hletters⟩

theorem generate?_of_drawBytes? (h : drawBytes? source s 17 = some (letters.map byteOf, s'))
    (hlength : letters.length = 17) (hletters : ∀ c ∈ letters, c ∈ alphabet) :
    generate? source s = some (String.ofList (withCheckDigit letters), s') := by
  have hplace : checkPosition < (letters.map byteOf).length := by
    rw [List.length_map, hlength]
    decide
  have hdigit : (letters.map byteOf).set checkPosition (byteOf (checkDigit (letters.map byteOf))) =
      (withCheckDigit letters).map byteOf := by
    rw [withCheckDigit_eq, List.map_set]
  -- the zero is overwritten, and has no weight until then
  rw [generate?, h, Option.bind_eq_bind, Option.bind_some]
  dsimp only
  rw [overwrite?, if_pos hplace, Option.bind_eq_bind, Option.bind_some, overwrite?,
    if_pos (by rw [List.length_set]; exact hplace), Option.bind_some, List.set_set, checkDigit_set,
    hdigit, fromUTF8?_letters (forall_mem_withCheckDigit hletters)]
  rfl

theorem getElem?_below (d : Random.Draws) : alphabet[(d.below alphabet.length).1]? =
    some (alphabet.getD (d.below alphabet.length).1 'A') := by
  have hindex : (d.below alphabet.length).1 < alphabet.length :=
    Random.Draws.below_lt (by decide) d
  rw [List.getD_eq_getElem?_getD, List.getElem?_eq_getElem hindex, Option.getD_some]

theorem mem_drawLetters (d : Random.Draws) (n : Nat) : ∀ c ∈ (drawLetters d n).1, c ∈ alphabet := by
  induction n generalizing d with
  | zero => exact nofun
  | succ n ih =>
    exact List.forall_mem_cons.mpr ⟨List.mem_of_getElem? (getElem?_below d), ih _⟩

theorem drawBytes?_draws (d : Random.Draws) (n : Nat) :
    drawBytes? .draws d n = some ((drawLetters d n).1.map byteOf, (drawLetters d n).2) := by
  induction n generalizing d with
  | zero => rfl
  | succ n ih => exact drawBytes?_succ (getElem?_below d) (ih _)

theorem generate?_draws (d : Random.Draws) : generate? .draws d = some (draw d) := by
  rw [generate?_of_drawBytes? (drawBytes?_draws d 17) (length_drawLetters d 17)
    (mem_drawLetters d 17), draw]

theorem drawBytes?_list (h : ∀ c ∈ letters, c ∈ alphabet) :
    drawBytes? .list (letters.map alphabet.idxOf) letters.length = some (letters.map byteOf, []) := by
  induction letters with
  | nil => rfl
  | cons c letters ih =>
    obtain ⟨hc, hletters⟩ := List.forall_mem_cons.mp h
    have hindex := List.idxOf_lt_length_iff.mpr hc
    have hbelow : Random.Source.list.below alphabet.length ((c :: letters).map alphabet.idxOf) =
        (alphabet.idxOf c, letters.map alphabet.idxOf) :=
      Prod.ext (Nat.mod_eq_of_lt hindex) rfl
    refine drawBytes?_succ ?_ ?_
    · rw [hbelow, List.getElem?_eq_getElem hindex, List.getElem_idxOf hindex]
    · rw [hbelow]
      exact ih hletters

end Generating

/-- Whatever the random numbers are, a vehicle number comes of them and is valid, and every valid one
comes of some. Check digits are digits or `X`, of whatever bytes, and no sum leaves 32 bits on the way.
The ninth byte and those after the seventeenth do not matter to them. -/
theorem generated_valid :
    (alphabet.length = 33 ∧ alphabet.Nodup ∧
      ∀ c, c ∈ alphabet ↔ (c.isUpper = true ∨ c.isDigit = true) ∧ c ∉ ['I', 'O', 'Q']) ∧
    (∀ (σ : Type) (source : Random.Source σ) (s : σ),
      ∃ vin s', generate? source s = some (vin, s') ∧ Valid vin) ∧
    (∀ vin, Valid vin → ∃ numbers, generate? .list numbers = some (vin, [])) ∧
    (∀ d, generate? .draws d = some (draw d)) ∧
    (∀ bytes, weightedSum bytes < 2 ^ 32 ∧
      (checkDigit bytes = 'X' ∨ (checkDigit bytes).isDigit = true)) ∧
    ∀ bytes bytes', (∀ i < 17, i ≠ 8 → bytes[i]? = bytes'[i]?) →
      checkDigit bytes = checkDigit bytes' := by
  refine ⟨⟨by decide, by decide, fun _ => mem_alphabet_iff⟩, ?_, ?_, generate?_draws, ?_, ?_⟩
  · intro σ source s
    obtain ⟨letters, s', hdrawn, hlength, hletters⟩ := exists_drawBytes? source s 17
    exact ⟨_, s', generate?_of_drawBytes? hdrawn hlength hletters,
      valid_withCheckDigit hlength hletters⟩
  · intro vin hvin
    have hdrawn := drawBytes?_list hvin.letters
    rw [String.length_toList, hvin.length] at hdrawn
    refine ⟨_, (generate?_of_drawBytes? hdrawn ?_ hvin.letters).trans ?_⟩
    · rw [String.length_toList, hvin.length]
    · rw [hvin.withCheckDigit_eq_self, String.ofList_toList]
  · exact fun bytes =>
      ⟨Nat.lt_of_le_of_lt (weightedSum_le bytes) (by decide), checkDigit_cases bytes⟩
  · exact fun _ _ => checkDigit_congr

/-- A number that is drawn, one that is given, and the latter with a stain on its check digit and a word
after it. -/
theorem generated_valid_stained :
    (∃ vin d, generate? .draws (.ofSeed 7) = some (vin, d) ∧ Valid vin) ∧
    (∃ numbers, generate? .list numbers = some ("1M8GDM9AXKP042788", [])) ∧
    checkDigit ("1M8GDM9A?KP042788 copied".toList.map byteOf) = 'X' := by
  obtain ⟨-, hvalid, hall, -, -, hcongr⟩ := generated_valid
  have hletters : "1M8GDM9AXKP042788".toList.all (· ∈ alphabet) = true := by decide
  simp only [List.all_eq_true, decide_eq_true_eq] at hletters
  refine ⟨hvalid _ .draws (.ofSeed 7), hall _ ⟨by decide, hletters, by decide⟩, ?_⟩
  rw [hcongr _ ("1M8GDM9AXKP042788".toList.map byteOf) (by decide)]
  decide

end Vin

end SignalBroker
