import SignalBroker.Proofs.Json.Escaping
import SignalBroker.Proofs.Json.Finding
import SignalBroker.Proofs.Json.Legibility

namespace SignalBroker.Json

variable {tail cs rest : List Char} {o : Nat}

/-- What comes of something that goes a number of levels deeper than where it stands: one thing where
it fits, another where it is too deep. -/
structure Fits (good bad : Prop) (depth inner : Nat) : Prop where
  value : depth + inner ≤ maxDepth → good
  fault : depth ≤ maxDepth → maxDepth < depth + inner → bad

namespace Fits

variable {good bad good' bad' : Prop} {depth m n : Nat}

theorem flat (h : good) : Fits good bad depth 0 :=
  ⟨fun _ => h, fun hle hlt => absurd hlt (Nat.not_lt_of_le hle)⟩

theorem imp (h : Fits good bad depth m) (hgood : good → good') (hbad : bad → bad') :
    Fits good' bad' depth m :=
  ⟨fun hle => hgood (h.value hle), fun hle hlt => hbad (h.fault hle hlt)⟩

theorem both (h : Fits good bad depth m) (h' : Fits good' bad' depth n) :
    Fits (good ∧ good') (bad ∨ bad') depth (max m n) where
  value hle := ⟨h.value (by omega), h'.value (by omega)⟩
  fault hle hlt := by
    by_cases hm : maxDepth < depth + m
    · exact .inl (h.fault hle hm)
    · exact .inr (h'.fault hle (by omega))

theorem raise (hlt : depth < maxDepth) (h : Fits good bad (depth + 1) m) :
    Fits good bad depth (m + 1) where
  value hle := h.value (by omega)
  fault _ hdeep := h.fault hlt (by omega)

end Fits

structure Parsed.Yields (p : Parsed Reading) (j : Json) (depth : Nat) (tail : List Char) : Prop where
  next : ∃ offset, p.next = .ok ⟨tail, offset⟩
  fits : Fits (p.value.Tells j) (∃ e, p.value.toJson = .error e) depth j.depth

def YieldsItems (p : Parsed (List Reading × Closing)) (items : List Json) (depth : Nat)
    (tail : List Char) : Prop :=
  ∃ rs offset, p = ⟨(rs, .closed), .ok ⟨tail, offset⟩⟩ ∧
    Fits (Reading.TellItems rs items) (∃ e, Reading.toJsonItems rs = .error e) depth (depthItems items)

def YieldsMembers (p : Parsed (List (String × Reading) × Closing)) (members : List (String × Json))
    (depth : Nat) (tail : List Char) : Prop :=
  ∃ rs offset, p = ⟨(rs, .closed), .ok ⟨tail, offset⟩⟩ ∧
    Fits (Reading.TellMembers rs members) (∃ e, Reading.toJsonMembers rs = .error e) depth
      (depthMembers members)

def Gaps (g : List Char) : Prop := ∀ c ∈ g, isGap c = true

theorem gaps_nil : Gaps [] := nofun

def separator (first : Bool) : List Char :=
  if first then [] else [',']

mutual

/-- A text of a value, in front of the characters given. -/
def Spelled (tail cs : List Char) : Json → Prop
  | .null => cs = 'n' :: 'u' :: 'l' :: 'l' :: tail
  | .bool b => cs = boolChars b ++ tail
  | .number n => cs = numberChars n ++ tail
  | .text s => cs = textChars s ++ tail
  | .array items => ∃ rest, cs = '[' :: rest ∧ SpelledItems true tail rest items
  | .object members => ∃ rest, cs = '\x7b' :: rest ∧ SpelledMembers true tail rest members

def SpelledItems (first : Bool) (tail cs : List Char) : List Json → Prop
  | [] => ∃ g, Gaps g ∧ cs = g ++ ']' :: tail
  | j :: js => ∃ g mid rest, Gaps g ∧ cs = separator first ++ (g ++ mid) ∧ Spelled rest mid j ∧
      SpelledItems false tail rest js

def SpelledMembers (first : Bool) (tail cs : List Char) : List (String × Json) → Prop
  | [] => ∃ g, Gaps g ∧ cs = g ++ '\x7d' :: tail
  | (k, j) :: ms => ∃ g g' mid rest, Gaps g ∧ Gaps g' ∧
      cs = separator first ++ (g ++ (textChars k ++ ':' :: (g' ++ mid))) ∧ Spelled rest mid j ∧
      SpelledMembers false tail rest ms

end

mutual

theorem length_lt_of_spelled : ∀ {j : Json} {tail cs : List Char}, j.Legible → Spelled tail cs j →
    tail.length < cs.length
  | .null, _, _, _, h => by
    subst h
    simp only [List.length_cons]
    omega
  | .bool b, _, _, _, h => by
    subst h
    cases b <;> simp only [boolChars, List.length_append] <;> exact Nat.lt_add_of_pos_left (by decide)
  | .number n, _, _, hl, h => by
    subst h
    obtain ⟨c, cs, hcs, -, -⟩ := readNumber_of_legible hl
    simp only [hcs, List.length_append, List.length_cons]
    omega
  | .text s, _, _, _, h => by
    subst h
    simp only [textChars, List.length_append, List.length_cons]
    omega
  | .array items, _, _, hl, h => by
    obtain ⟨rest, rfl, h⟩ := h
    exact Nat.lt_succ_of_lt (length_lt_of_spelledItems hl h)
  | .object members, _, _, hl, h => by
    obtain ⟨rest, rfl, h⟩ := h
    exact Nat.lt_succ_of_lt (length_lt_of_spelledMembers hl h)

theorem length_lt_of_spelledItems : ∀ {items : List Json} {first : Bool} {tail cs : List Char},
    LegibleItems items → SpelledItems first tail cs items → tail.length < cs.length
  | [], _, _, _, _, h => by
    obtain ⟨g, -, rfl⟩ := h
    simp only [List.length_append, List.length_cons]
    omega
  | j :: js, _, _, _, hl, h => by
    obtain ⟨g, mid, rest, -, rfl, hj, h⟩ := h
    have hrest := length_lt_of_spelledItems hl.2 h
    have hmid := length_lt_of_spelled hl.1 hj
    simp only [List.length_append]
    omega

theorem length_lt_of_spelledMembers : ∀ {ms : List (String × Json)} {first : Bool}
    {tail cs : List Char}, LegibleMembers ms → SpelledMembers first tail cs ms →
      tail.length < cs.length
  | [], _, _, _, _, h => by
    obtain ⟨g, -, rfl⟩ := h
    simp only [List.length_append, List.length_cons]
    omega
  | (k, j) :: ms, _, _, _, hl, h => by
    obtain ⟨g, g', mid, rest, -, -, rfl, hj, h⟩ := h
    have hrest := length_lt_of_spelledMembers hl.2 h
    have hmid := length_lt_of_spelled hl.1 hj
    simp only [List.length_append, List.length_cons]
    omega

end

theorem isNumeralChar_of_isGap {c : Char} (h : isGap c = true) : isNumeralChar c = false := by
  by_contra hc
  rw [isGap_of_isNumeralChar (by simpa using hc)] at h
  cases h

theorem endsNumeral_gaps {g : List Char} (hg : Gaps g) (ht : EndsNumeral tail) :
    EndsNumeral (g ++ tail) := by
  cases g with
  | nil => exact ht
  | cons c g => exact endsNumeral_cons (isNumeralChar_of_isGap (hg c List.mem_cons_self))

/-- Behind a value, the other parts of its container end a numeral. -/
theorem endsNumeral_of_spelledItems {items : List Json} (h : SpelledItems false tail cs items) :
    EndsNumeral cs := by
  cases items with
  | nil =>
    obtain ⟨g, hg, rfl⟩ := h
    exact endsNumeral_gaps hg (endsNumeral_cons rfl)
  | cons j js =>
    obtain ⟨g, mid, rest, -, rfl, -, -⟩ := h
    exact endsNumeral_cons rfl

theorem endsNumeral_of_spelledMembers {ms : List (String × Json)}
    (h : SpelledMembers false tail cs ms) : EndsNumeral cs := by
  cases ms with
  | nil =>
    obtain ⟨g, hg, rfl⟩ := h
    exact endsNumeral_gaps hg (endsNumeral_cons rfl)
  | cons m ms =>
    obtain ⟨g, g', mid, rest, -, -, rfl, -, -⟩ := h
    exact endsNumeral_cons rfl

theorem head_of_spelled {j : Json} (hl : j.Legible) (h : Spelled tail cs j) : ∃ c rest,
    cs = c :: rest ∧ isGap c = false ∧ c ≠ ']' := by
  cases j with
  | null => exact ⟨_, _, h, rfl, by decide⟩
  | bool b => cases b <;> exact ⟨_, _, h, rfl, by decide⟩
  | number n =>
    obtain ⟨c, rest, hcs, -, -⟩ := readNumber_of_legible hl
    have hc := isNumeralChar_numberChars n c (hcs ▸ List.mem_cons_self)
    have h : cs = numberChars n ++ tail := h
    refine ⟨c, rest ++ tail, by rw [h, hcs, List.cons_append], isGap_of_isNumeralChar hc, ?_⟩
    rintro rfl
    cases hc
  | text s => exact ⟨_, _, h, rfl, by decide⟩
  | array items =>
    obtain ⟨rest, rfl, -⟩ := h
    exact ⟨_, _, rfl, rfl, by decide⟩
  | object members =>
    obtain ⟨rest, rfl, -⟩ := h
    exact ⟨_, _, rfl, rfl, by decide⟩

theorem skipGaps_append {g : List Char} {c : Char} (hg : Gaps g) (hc : isGap c = false) :
    Cursor.skipGaps ⟨g ++ c :: rest, o⟩ = ⟨c :: rest, o + g.length⟩ := by
  rw [Cursor.skipGaps, List.dropWhile_append_of_pos hg, List.takeWhile_append_of_pos hg,
    List.dropWhile_cons_of_neg (by simp [hc]), List.takeWhile_cons_of_neg (by simp [hc]),
    List.append_nil]

section Items

variable {g : List Char} {c : Char} {fuel depth : Nat}

theorem readValue_gaps (fuel depth : Nat) (hg : Gaps g) (hc : isGap c = false) :
    readValue (fuel + 1) depth ⟨g ++ c :: rest, o⟩ =
      readValue (fuel + 1) depth ⟨c :: rest, o + g.length⟩ := by
  rw [readValue, readValue, skipGaps_append hg hc, skipGaps_cons hc]

theorem readItems_close (first : Bool) (hg : Gaps g) :
    readItems (fuel + 1) depth first ⟨g ++ ']' :: rest, o⟩ =
      ⟨([], .closed), .ok ⟨rest, o + g.length + 1⟩⟩ := by
  rw [readItems, skipGaps_append hg rfl]
  rfl

theorem readItems_item (first : Bool) (hg : Gaps g) (hc : isGap c = false) (hne : c ≠ ']') : ∃ o',
    readItems (fuel + 1) depth first ⟨separator first ++ (g ++ c :: rest), o⟩ =
      readItem fuel depth ⟨c :: rest, o'⟩ := by
  cases first with
  | true =>
    refine ⟨o + g.length, ?_⟩
    rw [separator, if_pos rfl, List.nil_append, readItems, skipGaps_append hg hc]
    dsimp only
    split
    · next heq => cases heq
    · next heq => exact absurd (List.cons.inj heq).1 hne
    · rfl
  | false =>
    refine ⟨o + 1 + g.length, ?_⟩
    rw [separator, if_neg Bool.false_ne_true, List.singleton_append, readItems, skipGaps_cons rfl]
    dsimp only
    split
    · next heq => cases heq
    · next heq => cases heq
    · next heq =>
      cases heq
      rw [if_neg Bool.false_ne_true, if_pos rfl, skipGaps_append hg hc]
      dsimp only
      split
      · next heq => cases heq
      · next heq => exact absurd (List.cons.inj heq).1 hne
      · rfl

theorem readMembers_close (first : Bool) (hg : Gaps g) :
    readMembers (fuel + 1) depth first ⟨g ++ '\x7d' :: rest, o⟩ =
      ⟨([], .closed), .ok ⟨rest, o + g.length + 1⟩⟩ := by
  rw [readMembers, skipGaps_append hg rfl]
  rfl

theorem readMembers_member (first : Bool) (hg : Gaps g) : ∃ o',
    readMembers (fuel + 1) depth first ⟨separator first ++ (g ++ '"' :: rest), o⟩ =
      readMember fuel depth ⟨rest, o'⟩ := by
  cases first with
  | true =>
    refine ⟨o + g.length + 1, ?_⟩
    rw [separator, if_pos rfl, List.nil_append, readMembers, skipGaps_append hg rfl]
    rfl
  | false =>
    refine ⟨o + 1 + g.length + 1, ?_⟩
    rw [separator, if_neg Bool.false_ne_true, List.singleton_append, readMembers, skipGaps_cons rfl]
    dsimp only
    split
    · next heq => cases heq
    · next heq => cases heq
    · next heq =>
      cases heq
      rw [if_neg Bool.false_ne_true, if_pos rfl, skipGaps_append hg rfl]
      rfl

end Items

variable {j : Json} {items : List Json} {members : List (String × Json)} {fuel depth : Nat}

theorem toJson_between (before after : Nat) (r : Reading) :
    (r.between before after).toJson = r.toJson := by
  cases r <;> rfl

theorem tells_between (before after : Nat) {r : Reading} (h : r.Tells j) :
    (r.between before after).Tells j := by
  cases r <;> cases j <;> exact h

theorem yieldsItems_nil (tail : List Char) : YieldsItems ⟨([], .closed), .ok ⟨tail, o⟩⟩ [] depth tail :=
  ⟨[], o, rfl, .flat rfl⟩

theorem yieldsMembers_nil (tail : List Char) :
    YieldsMembers ⟨([], .closed), .ok ⟨tail, o⟩⟩ [] depth tail :=
  ⟨[], o, rfl, .flat rfl⟩

theorem exists_error_of_either {α β γ : Type} {x : Except Error α} {y : Except Error β}
    (f : α → β → γ) (h : (∃ e, x = .error e) ∨ ∃ e, y = .error e) :
    ∃ e, (do return f (← x) (← y)) = (.error e : Except Error γ) := by
  cases x with
  | error e => exact ⟨e, rfl⟩
  | ok a =>
    obtain ⟨e, he⟩ := h.resolve_left (by rintro ⟨e, he⟩; cases he)
    exact ⟨e, by rw [he]; rfl⟩

theorem yieldsItems_cons {c : Cursor} (hj : (readValue fuel depth c).Yields j depth rest)
    (hs : ∀ o, YieldsItems (readItems fuel depth false ⟨rest, o⟩) items depth tail) :
    YieldsItems (readItem (fuel + 1) depth c) (j :: items) depth tail := by
  obtain ⟨⟨o, hnext⟩, hfits⟩ := hj
  obtain ⟨rs, o', hp, hrest⟩ := hs o
  refine ⟨(readValue fuel depth c).value.between c.offset (Cursor.stopInArray ⟨rest, o⟩) :: rs, o', ?_,
    (hfits.both hrest).imp ?_ ?_⟩
  · rw [readItem]
    simp only [hnext, hp]
    rfl
  · rintro ⟨htells, hrs⟩
    exact ⟨_, rs, rfl, tells_between _ _ htells, hrs⟩
  · rw [← toJson_between c.offset (Cursor.stopInArray ⟨rest, o⟩)]
    exact exists_error_of_either List.cons

theorem readMember_eq (fuel depth : Nat) (k : String) (cs : List Char) (o : Nat) : ∃ o',
    readMember (fuel + 1) depth ⟨k.toList.flatMap escapeChar ++ '"' :: cs, o⟩ =
      readNamed fuel depth k ⟨cs, o'⟩ := by
  obtain ⟨o', hname⟩ := readText_textChars k cs o
  refine ⟨o', ?_⟩
  rw [readMember]
  simp only [hname]

theorem readNamed_eq {k : String} {cs : List Char} {c : Cursor}
    (h : (readValue fuel depth ⟨cs, o + 1⟩).next = .ok c) :
    ∃ before after, readNamed (fuel + 1) depth k ⟨':' :: cs, o⟩ =
      (readMembers fuel depth false c).push
        (k, (readValue fuel depth ⟨cs, o + 1⟩).value.between before after) := by
  refine ⟨Cursor.stopInObject ⟨':' :: cs, o⟩, c.stopInObject, ?_⟩
  rw [readNamed, skipGaps_cons rfl]
  simp only [h]

theorem yieldsMembers_cons {k : String} {cs : List Char}
    (hj : ∀ o, (readValue fuel depth ⟨cs, o⟩).Yields j depth rest)
    (hs : ∀ o, YieldsMembers (readMembers fuel depth false ⟨rest, o⟩) members depth tail) :
    YieldsMembers
      (readMember (fuel + 2) depth ⟨k.toList.flatMap escapeChar ++ '"' :: ':' :: cs, o⟩)
      ((k, j) :: members) depth tail := by
  obtain ⟨o₁, hmember⟩ := readMember_eq (fuel + 1) depth k (':' :: cs) o
  obtain ⟨⟨o₂, hnext⟩, hfits⟩ := hj (o₁ + 1)
  obtain ⟨before, after, hnamed⟩ := readNamed_eq (k := k) hnext
  obtain ⟨rs, o₃, hp, hrest⟩ := hs o₂
  refine ⟨(k, (readValue fuel depth ⟨cs, o₁ + 1⟩).value.between before after) :: rs, o₃, ?_,
    (hfits.both hrest).imp ?_ ?_⟩
  · rw [hmember, hnamed, hp]
    rfl
  · rintro ⟨htells, hrs⟩
    exact ⟨_, rs, rfl, tells_between before after htells, hrs⟩
  · rw [← toJson_between before after]
    exact exists_error_of_either fun j members => (k, j) :: members

/-- A container is refused if it is itself too deep, or if anything in it is. -/
theorem yields_container {good bad : Prop} {inner : Nat} {r : Reading} (start offset : Nat)
    (hgood : ∀ span, good → (Reading.placed span r).Tells j)
    (hbad : bad → ∃ e, r.toJson = .error e) (hdepth : j.depth = inner + 1)
    (h : Fits good bad (depth + 1) inner) :
    (Parsed.placed start (Parsed.bounded ⟨r, .ok ⟨tail, offset⟩⟩ depth start)).Yields j depth tail := by
  unfold Parsed.bounded
  split
  · next hlt =>
    refine ⟨⟨offset, rfl⟩, ?_⟩
    rw [hdepth]
    exact (h.raise hlt).imp (hgood _) hbad
  · next hge => exact ⟨⟨offset, rfl⟩, fun hle => absurd hle (by omega), fun _ _ => ⟨_, rfl⟩⟩

theorem yields_array {p : Parsed (List Reading × Closing)} (start : Nat)
    (h : YieldsItems p items (depth + 1) tail) :
    (Parsed.placed start (Parsed.bounded ⟨.array p.value.1 p.value.2, p.next⟩ depth start)).Yields
      (.array items) depth tail := by
  obtain ⟨rs, o, rfl, hfits⟩ := h
  refine yields_container start o (fun _ h => ⟨rs, rfl, h⟩) ?_ rfl hfits
  rintro ⟨e, he⟩
  exact ⟨e, by rw [Reading.toJson, he]; rfl⟩

theorem yields_object {p : Parsed (List (String × Reading) × Closing)} (start : Nat)
    (h : YieldsMembers p members (depth + 1) tail) :
    (Parsed.placed start (Parsed.bounded ⟨.object p.value.1 p.value.2, p.next⟩ depth start)).Yields
      (.object members) depth tail := by
  obtain ⟨rs, o, rfl, hfits⟩ := h
  refine yields_container start o (fun _ h => ⟨rs, rs, rfl, .refl _, h⟩) ?_ rfl hfits
  rintro ⟨e, he⟩
  exact ⟨e, by rw [Reading.toJson, he]; rfl⟩

theorem readValue_text (cs : List Char) (s : String) (c : Cursor)
    (h : readText ⟨cs, o + 1⟩ = ⟨.ok s, .ok c⟩) :
    readValue (fuel + 1) depth ⟨'"' :: cs, o⟩ = Parsed.placed o ⟨.text s, .ok c⟩ := by
  rw [readValue, skipGaps_cons rfl]
  dsimp only
  congr 1
  split
  · next heq => cases heq
  · next heq =>
    cases heq
    rw [h]
  · next heq => cases heq
  · next heq => cases heq
  · next heq => cases heq
  · next heq => cases heq
  · next heq => cases heq
  · next heq => cases heq
  · next hquote _ _ _ _ _ _ heq => exact (hquote (List.cons.inj heq).1.symm).elim

theorem readValue_array (cs : List Char) :
    readValue (fuel + 1) depth ⟨'[' :: cs, o⟩ = Parsed.placed o (Parsed.bounded
      ⟨.array (readItems fuel (depth + 1) true ⟨cs, o + 1⟩).value.1
        (readItems fuel (depth + 1) true ⟨cs, o + 1⟩).value.2,
        (readItems fuel (depth + 1) true ⟨cs, o + 1⟩).next⟩ depth o) := by
  rw [readValue, skipGaps_cons rfl]
  rfl

theorem readValue_object (cs : List Char) :
    readValue (fuel + 1) depth ⟨'\x7b' :: cs, o⟩ = Parsed.placed o (Parsed.bounded
      ⟨.object (readMembers fuel (depth + 1) true ⟨cs, o + 1⟩).value.1
        (readMembers fuel (depth + 1) true ⟨cs, o + 1⟩).value.2,
        (readMembers fuel (depth + 1) true ⟨cs, o + 1⟩).next⟩ depth o) := by
  rw [readValue, skipGaps_cons rfl]
  rfl

theorem yields_null :
    (readValue (fuel + 1) depth ⟨'n' :: 'u' :: 'l' :: 'l' :: tail, o⟩).Yields .null depth tail := by
  rw [readValue, skipGaps_cons rfl]
  exact ⟨⟨o + 4, rfl⟩, .flat rfl⟩

theorem yields_bool (b : Bool) :
    (readValue (fuel + 1) depth ⟨boolChars b ++ tail, o⟩).Yields (.bool b) depth tail := by
  cases b with
  | true =>
    rw [boolChars, if_pos rfl, readValue]
    exact ⟨⟨o + 4, rfl⟩, .flat rfl⟩
  | false =>
    rw [boolChars, if_neg Bool.false_ne_true, readValue]
    exact ⟨⟨o + 5, rfl⟩, .flat rfl⟩

theorem yields_number {n : Number} (o : Nat) (h : LegibleNumber n) (ht : EndsNumeral tail) :
    (readValue (fuel + 1) depth ⟨numberChars n ++ tail, o⟩).Yields (.number n) depth tail := by
  obtain ⟨hvalue, hnext⟩ := readValue_number (o := o) fuel depth h ht
  exact ⟨hnext, .flat hvalue⟩

theorem textChars_append (k : String) :
    textChars k ++ rest = '"' :: (k.toList.flatMap escapeChar ++ '"' :: rest) := by
  simp [textChars]

theorem yields_text (s : String) :
    (readValue (fuel + 1) depth ⟨textChars s ++ tail, o⟩).Yields (.text s) depth tail := by
  obtain ⟨o', h⟩ := readText_textChars s tail (o + 1)
  rw [textChars_append, readValue_text _ s _ h]
  exact ⟨⟨o', rfl⟩, .flat rfl⟩

-- By induction on the value. A reader takes at most three steps for a character, so with four for each
-- character left it never runs out; what a container leaves over lies behind a shorter text.
mutual

theorem yields_of_spelled : ∀ (j : Json), j.Legible → ∀ {fuel depth : Nat} {tail cs : List Char}
    (o : Nat), Spelled tail cs j → EndsNumeral tail → 4 * cs.length ≤ fuel + 4 →
      (readValue (fuel + 1) depth ⟨cs, o⟩).Yields j depth tail
  | .null, _, _, _, _, _, _, h, _, _ => by
    subst h
    exact yields_null
  | .bool b, _, _, _, _, _, _, h, _, _ => by
    subst h
    exact yields_bool b
  | .number n, hl, _, _, _, _, o, h, ht, _ => by
    subst h
    exact yields_number o hl ht
  | .text s, _, _, _, _, _, _, h, _, _ => by
    subst h
    exact yields_text s
  | .array items, hl, _, _, _, _, o, h, _, hf => by
    obtain ⟨rest, rfl, h⟩ := h
    rw [List.length_cons] at hf
    rw [readValue_array]
    exact yields_array o (yields_of_spelledItems items hl (o + 1) h (by omega))
  | .object members, hl, _, _, _, _, o, h, _, hf => by
    obtain ⟨rest, rfl, h⟩ := h
    rw [List.length_cons] at hf
    rw [readValue_object]
    exact yields_object o (yields_of_spelledMembers members hl (o + 1) h (by omega))

theorem yields_of_spelledItems : ∀ (items : List Json), LegibleItems items →
    ∀ {fuel depth : Nat} {first : Bool} {tail cs : List Char} (o : Nat),
      SpelledItems first tail cs items → 4 * cs.length ≤ fuel →
      YieldsItems (readItems fuel depth first ⟨cs, o⟩) items depth tail
  | [], _, fuel, _, first, tail, _, o, h, hf => by
    obtain ⟨g, hg, rfl⟩ := h
    simp only [List.length_append, List.length_cons] at hf
    obtain ⟨F, rfl⟩ : ∃ F, fuel = F + 1 := ⟨fuel - 1, by omega⟩
    rw [readItems_close first hg]
    exact yieldsItems_nil tail
  | j :: js, hl, fuel, _, first, _, _, o, h, hf => by
    obtain ⟨g, mid, rest, hg, rfl, hj, hjs⟩ := h
    have hlen := length_lt_of_spelled hl.1 hj
    simp only [List.length_append] at hf
    obtain ⟨c, cs, rfl, hc, hne⟩ := head_of_spelled hl.1 hj
    obtain ⟨F, rfl⟩ : ∃ F, fuel = F + 3 := ⟨fuel - 3, by simp only [List.length_cons] at hf; omega⟩
    obtain ⟨o', hitem⟩ := readItems_item first hg hc hne
    rw [hitem]
    exact yieldsItems_cons
      (yields_of_spelled j hl.1 o' hj (endsNumeral_of_spelledItems hjs) (by omega))
      fun o => yields_of_spelledItems js hl.2 o hjs (by omega)

theorem yields_of_spelledMembers : ∀ (ms : List (String × Json)), LegibleMembers ms →
    ∀ {fuel depth : Nat} {first : Bool} {tail cs : List Char} (o : Nat),
      SpelledMembers first tail cs ms → 4 * cs.length ≤ fuel →
      YieldsMembers (readMembers fuel depth first ⟨cs, o⟩) ms depth tail
  | [], _, fuel, _, first, tail, _, o, h, hf => by
    obtain ⟨g, hg, rfl⟩ := h
    simp only [List.length_append, List.length_cons] at hf
    obtain ⟨F, rfl⟩ : ∃ F, fuel = F + 1 := ⟨fuel - 1, by omega⟩
    rw [readMembers_close first hg]
    exact yieldsMembers_nil tail
  | (k, j) :: ms, hl, fuel, _, first, _, _, o, h, hf => by
    obtain ⟨g, g', mid, rest, hg, hg', rfl, hj, hms⟩ := h
    have hlen := length_lt_of_spelled hl.1 hj
    simp only [textChars, List.length_append, List.length_cons] at hf
    obtain ⟨F, rfl⟩ : ∃ F, fuel = F + 4 := ⟨fuel - 4, by omega⟩
    rw [textChars_append]
    obtain ⟨o', hmember⟩ := readMembers_member first hg
    rw [hmember]
    refine yieldsMembers_cons (fun o => ?_) fun o => yields_of_spelledMembers ms hl.2 o hms (by omega)
    obtain ⟨c, cs, rfl, hc, -⟩ := head_of_spelled hl.1 hj
    rw [readValue_gaps F _ hg' hc]
    exact yields_of_spelled j hl.1 _ hj (endsNumeral_of_spelledMembers hms) (by omega)

end

theorem yields_whole {text : String} (h : Spelled [] text.toList j) (hl : j.Legible) :
    (whole text).Yields j 0 [] :=
  yields_of_spelled j hl 0 h endsNumeral_nil (Nat.le_add_right _ 7)

theorem read_of_yields {α : Type} {text : String} {consume : Reading → Except Error α} {a : α}
    (h : (whole text).Yields j 0 []) :
    (Document.ofText text).read consume = .ok a ↔ consume (whole text).value = .ok a := by
  obtain ⟨⟨o, hnext⟩, -⟩ := h
  rw [read_ofText_eq_ok_iff]
  simp [hnext]

/-- What a reader finds in a value it finds in every text of that value that is not too deep, and where
it needs all of the value it refuses a text that is. -/
theorem fits_read {α : Type} {text : String} {k : Json} {consume : Reading → Except Error α} {a : α}
    (h : Spelled [] text.toList j) (hl : j.Legible) (hk : j.Alike k) (ha : Finds consume a k)
    (hall : ∀ r a, consume r = .ok a → ∃ j, r.toJson = .ok j) :
    Fits ((Document.ofText text).read consume = .ok a)
      (∃ e, (Document.ofText text).read consume = .error e) 0 j.depth := by
  have hyields := yields_whole h hl
  refine hyields.fits.imp (fun htells => (read_of_yields hyields).mpr (ha _ (htells.alike hk))) ?_
  rintro ⟨e, he⟩
  cases hread : (Document.ofText text).read consume with
  | error e => exact ⟨e, rfl⟩
  | ok a =>
    obtain ⟨j, hj⟩ := hall _ _ ((read_of_yields hyields).mp hread)
    rw [he] at hj
    cases hj

section Writers

theorem isGap_newLine (indent : Nat) : Gaps (newLine indent) := by
  rw [newLine, Gaps, List.forall_mem_cons]
  refine ⟨rfl, fun c hc => ?_⟩
  rw [List.eq_of_mem_replicate hc]
  rfl

theorem gaps_blank : Gaps [' '] :=
  List.forall_mem_singleton.mpr rfl

mutual

theorem spelled_writeBefore : ∀ (j : Json) (tail : List Char), Spelled tail (writeBefore tail j) j
  | .null, _ => rfl
  | .bool _, _ => rfl
  | .number _, _ => rfl
  | .text _, _ => rfl
  | .array [], _ => ⟨_, rfl, [], gaps_nil, rfl⟩
  | .array (j :: js), tail =>
    ⟨_, rfl, [], _, _, gaps_nil, rfl, spelled_writeBefore j _, spelled_writeItems js tail⟩
  | .object [], _ => ⟨_, rfl, [], gaps_nil, rfl⟩
  | .object ((_, j) :: ms), tail =>
    ⟨_, rfl, [], [], _, _, gaps_nil, gaps_nil, rfl, spelled_writeBefore j _,
      spelled_writeMembers ms tail⟩

theorem spelled_writeItems : ∀ (js : List Json) (tail : List Char),
    SpelledItems false tail (writeItems (']' :: tail) js) js
  | [], _ => ⟨[], gaps_nil, rfl⟩
  | j :: js, tail =>
    ⟨[], _, _, gaps_nil, rfl, spelled_writeBefore j _, spelled_writeItems js tail⟩

theorem spelled_writeMembers : ∀ (ms : List (String × Json)) (tail : List Char),
    SpelledMembers false tail (writeMembers ('\x7d' :: tail) ms) ms
  | [], _ => ⟨[], gaps_nil, rfl⟩
  | (_, j) :: ms, tail =>
    ⟨[], [], _, _, gaps_nil, gaps_nil, rfl, spelled_writeBefore j _, spelled_writeMembers ms tail⟩

end

mutual

theorem spelled_indentBefore : ∀ (j : Json) (indent : Nat) (tail : List Char),
    Spelled tail (indentBefore indent tail j) j
  | .null, _, _ => rfl
  | .bool _, _, _ => rfl
  | .number _, _, _ => rfl
  | .text _, _, _ => rfl
  | .array [], _, _ => ⟨_, rfl, [], gaps_nil, rfl⟩
  | .array (j :: js), indent, tail =>
    ⟨_, rfl, newLine (indent + 1), _, _, isGap_newLine _, rfl, spelled_indentBefore j _ _,
      spelled_indentItems js _ indent tail⟩
  | .object [], _, _ => ⟨_, rfl, [], gaps_nil, rfl⟩
  | .object ((_, j) :: ms), indent, tail =>
    ⟨_, rfl, newLine (indent + 1), [' '], _, _, isGap_newLine _, gaps_blank, List.append_assoc ..,
      spelled_indentBefore j (indent + 1) _, spelled_indentMembers ms (indent + 1) indent tail⟩

theorem spelled_indentItems : ∀ (js : List Json) (indent outer : Nat) (tail : List Char),
    SpelledItems false tail (indentItems indent (newLine outer ++ ']' :: tail) js) js
  | [], _, outer, _ => ⟨newLine outer, isGap_newLine outer, rfl⟩
  | j :: js, indent, outer, tail =>
    ⟨newLine indent, _, _, isGap_newLine indent, rfl, spelled_indentBefore j _ _,
      spelled_indentItems js indent outer tail⟩

theorem spelled_indentMembers : ∀ (ms : List (String × Json)) (indent outer : Nat) (tail : List Char),
    SpelledMembers false tail (indentMembers indent (newLine outer ++ '\x7d' :: tail) ms) ms
  | [], _, outer, _ => ⟨newLine outer, isGap_newLine outer, rfl⟩
  | (_, j) :: ms, indent, outer, tail =>
    ⟨newLine indent, [' '], _, _, isGap_newLine indent, gaps_blank,
      congrArg (',' :: ·) (List.append_assoc ..), spelled_indentBefore j indent _,
      spelled_indentMembers ms indent outer tail⟩

end

theorem spelled_compact (j : Json) : Spelled [] (compact j).toList j := by
  rw [compact, String.toList_ofList]
  exact spelled_writeBefore j []

theorem spelled_indented (j : Json) : Spelled [] (indented j).toList j := by
  rw [indented, String.toList_ofList]
  exact spelled_indentBefore j 0 []

end Writers

theorem readTable_indented (t : Table String Json) (hs : ∀ m ∈ t.rows, m.2.Sorted)
    (hl : ∀ m ∈ t.rows, m.2.Legible) :
    Fits ((Document.ofText (indented (.object t.rows))).read (readTable Reading.toJson) = .ok t)
      (∃ e, (Document.ofText (indented (.object t.rows))).read (readTable Reading.toJson) = .error e) 0
      (Json.object t.rows).depth := by
  have hfinds : Finds (readTable Reading.toJson) t (.object t.rows) := by
    have h := finds_table (t := t) (f := id) fun row hrow => finds_toJson (hs row hrow)
    simpa [ofTable] using h
  exact fits_read (spelled_indented _) (legibleMembers_iff.mpr hl) (.refl _) hfinds
    fun _ _ => exists_toJson_of_readTable

end SignalBroker.Json
