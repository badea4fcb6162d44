import SignalBroker.Proofs.Json.Finding

namespace SignalBroker.Json

namespace Reading

mutual

/-- How many arrays and objects enclose the innermost part of a reading, the reading itself included. -/
def depth : Reading → Nat
  | .array items _ => depthItems items + 1
  | .object members _ => depthMembers members + 1
  | .placed _ r => depth r
  | _ => 0

def depthItems : List Reading → Nat
  | [] => 0
  | r :: rs => max (depth r) (depthItems rs)

def depthMembers : List (String × Reading) → Nat
  | [] => 0
  | (_, r) :: rs => max (depth r) (depthMembers rs)

end

variable {r : Reading} {n : Nat}

theorem depth_shape (r : Reading) : r.shape.depth = r.depth := by
  cases r <;> rfl

theorem depth_between (before after : Nat) (r : Reading) : (r.between before after).depth = r.depth := by
  cases r <;> rfl

theorem depthItems_le_iff {rs : List Reading} : depthItems rs ≤ n ↔ ∀ r ∈ rs, r.depth ≤ n := by
  induction rs with
  | nil => simp [depthItems]
  | cons r rs ih => rw [depthItems, List.forall_mem_cons, Nat.max_le, ih]

theorem depthMembers_le_iff {rs : List (String × Reading)} :
    depthMembers rs ≤ n ↔ ∀ row ∈ rs, row.2.depth ≤ n := by
  induction rs with
  | nil => simp [depthMembers]
  | cons row rs ih =>
    obtain ⟨k, r⟩ := row
    rw [depthMembers, List.forall_mem_cons, Nat.max_le, ih]

theorem depth_of_plain {p : Parsed Reading} (h : p.Plain) : p.value.depth = 0 := by
  obtain ⟨v, hv⟩ | ⟨e, he⟩ := h
  · rw [hv]; rfl
  · rw [he]; rfl

mutual

theorem depth_le_of_toJson : ∀ {r : Reading} {j : Json}, r.toJson = .ok j → j.depth ≤ r.depth
  | .null, _, h => by cases h; exact le_rfl
  | .bool _, _, h => by cases h; exact le_rfl
  | .number _, _, h => by cases h; exact le_rfl
  | .text _, _, h => by cases h; exact le_rfl
  | .array items closing, _, h => by
    obtain ⟨js, hjs, h⟩ := bind_eq_ok_iff.mp h
    obtain ⟨_, -, h⟩ := bind_eq_ok_iff.mp h
    cases h
    exact Nat.succ_le_succ (depthItems_le_of_toJson hjs)
  | .object members closing, _, h => by
    obtain ⟨ms, hms, h⟩ := bind_eq_ok_iff.mp h
    obtain ⟨_, -, h⟩ := bind_eq_ok_iff.mp h
    cases h
    have hdeep := Json.depthMembers_le_iff.mp (depthMembers_le_of_toJson hms)
    refine Nat.succ_le_succ (Json.depthMembers_le_iff.mpr fun m hm => ?_)
    exact hdeep m (Table.mem_of_mem_ofList hm)
  | .unreadable _, _, h => by cases h
  | .placed _ r, _, h => depth_le_of_toJson (r := r) h

theorem depthItems_le_of_toJson : ∀ {rs : List Reading} {js : List Json},
    toJsonItems rs = .ok js → Json.depthItems js ≤ depthItems rs
  | [], _, h => by cases h; exact le_rfl
  | r :: rs, _, h => by
    obtain ⟨j, hj, h⟩ := bind_eq_ok_iff.mp h
    obtain ⟨js, hjs, h⟩ := bind_eq_ok_iff.mp h
    cases h
    exact max_le_max (depth_le_of_toJson hj) (depthItems_le_of_toJson hjs)

theorem depthMembers_le_of_toJson : ∀ {rs : List (String × Reading)} {ms : List (String × Json)},
    toJsonMembers rs = .ok ms → Json.depthMembers ms ≤ depthMembers rs
  | [], _, h => by cases h; exact le_rfl
  | (_, r) :: rs, _, h => by
    obtain ⟨j, hj, h⟩ := bind_eq_ok_iff.mp h
    obtain ⟨ms, hms, h⟩ := bind_eq_ok_iff.mp h
    cases h
    exact max_le_max (depth_le_of_toJson hj) (depthMembers_le_of_toJson hms)

end

theorem depth_placed (start : Nat) (p : Parsed Reading) : (p.placed start).value.depth = p.value.depth :=
  rfl

theorem depth_readWord {r : Reading} (hr : r.depth = 0) (ws : List Char) (c : Cursor) :
    (readWord r ws c).value.depth = 0 := by
  induction ws generalizing c with
  | nil => exact hr
  | cons w ws ih =>
    rw [readWord]
    split
    · rfl
    · split
      · exact ih _
      · rfl

theorem depth_bounded {r : Reading} {next : Except Error Cursor} {depth : Nat} (start : Nat)
    (h : r.depth ≤ maxDepth - (depth + 1) + 1) :
    (Parsed.bounded ⟨r, next⟩ depth start).value.depth ≤ maxDepth - depth := by
  unfold Parsed.bounded
  split
  · next hlt => exact h.trans (by omega)
  · exact Nat.zero_le _

-- By induction on the steps: a container counts its own level, and what is in it is one level further
-- from the outside.
mutual

/-- Behind some containers, a reader goes as many levels deep as are left. -/
theorem depth_readValue : ∀ (fuel depth : Nat) (c : Cursor),
    (readValue fuel depth c).value.depth ≤ maxDepth - depth
  | 0, _, _ => by
    rw [readValue]
    exact Nat.zero_le _
  | fuel + 1, depth, c => by
    rw [readValue]
    dsimp only
    rw [depth_placed]
    split
    · exact Nat.zero_le _
    · split <;> exact Nat.zero_le _
    · exact depth_bounded _ (Nat.succ_le_succ (depth_readItems fuel (depth + 1) true _))
    · exact depth_bounded _ (Nat.succ_le_succ (depth_readMembers fuel (depth + 1) true _))
    · exact (depth_readWord rfl _ _).trans_le (Nat.zero_le _)
    · exact (depth_readWord rfl _ _).trans_le (Nat.zero_le _)
    · exact (depth_readWord rfl _ _).trans_le (Nat.zero_le _)
    · exact (depth_of_plain (plain_readNumeral ..)).trans_le (Nat.zero_le _)
    · split
      · exact (depth_of_plain (plain_readNumeral ..)).trans_le (Nat.zero_le _)
      · exact Nat.zero_le _

theorem depth_readItems : ∀ (fuel depth : Nat) (first : Bool) (c : Cursor),
    depthItems (readItems fuel depth first c).value.1 ≤ maxDepth - depth
  | 0, _, _, _ => by
    rw [readItems]
    exact Nat.zero_le _
  | fuel + 1, depth, first, c => by
    rw [readItems]
    dsimp only
    split
    · exact Nat.zero_le _
    · exact Nat.zero_le _
    · split
      · exact depth_readItem fuel depth _
      · split
        · split
          · exact Nat.zero_le _
          · exact Nat.zero_le _
          · exact depth_readItem fuel depth _
        · exact Nat.zero_le _

theorem depth_readItem : ∀ (fuel depth : Nat) (c : Cursor),
    depthItems (readItem fuel depth c).value.1 ≤ maxDepth - depth
  | 0, _, _ => by
    rw [readItem]
    exact Nat.zero_le _
  | fuel + 1, depth, c => by
    have hvalue := depth_readValue fuel depth c
    rw [readItem]
    split
    · next next _ =>
      refine max_le ?_ (depth_readItems fuel depth false next)
      rw [depth_between]
      exact hvalue
    · exact max_le hvalue (Nat.zero_le _)

theorem depth_readMembers : ∀ (fuel depth : Nat) (first : Bool) (c : Cursor),
    depthMembers (readMembers fuel depth first c).value.1 ≤ maxDepth - depth
  | 0, _, _, _ => by
    rw [readMembers]
    exact Nat.zero_le _
  | fuel + 1, depth, first, c => by
    rw [readMembers]
    dsimp only
    split
    · exact Nat.zero_le _
    · exact Nat.zero_le _
    · split
      · split
        · exact depth_readMember fuel depth _
        · exact Nat.zero_le _
      · split
        · split
          · exact Nat.zero_le _
          · exact depth_readMember fuel depth _
          · exact Nat.zero_le _
          · exact Nat.zero_le _
        · exact Nat.zero_le _

theorem depth_readMember : ∀ (fuel depth : Nat) (c : Cursor),
    depthMembers (readMember fuel depth c).value.1 ≤ maxDepth - depth
  | 0, _, _ => by
    rw [readMember]
    exact Nat.zero_le _
  | fuel + 1, depth, c => by
    rw [readMember]
    split
    · exact Nat.zero_le _
    · exact Nat.zero_le _
    · exact Nat.zero_le _
    · exact depth_readNamed fuel depth _ _

theorem depth_readNamed : ∀ (fuel depth : Nat) (k : String) (c : Cursor),
    depthMembers (readNamed fuel depth k c).value.1 ≤ maxDepth - depth
  | 0, _, _, _ => by
    rw [readNamed]
    exact Nat.zero_le _
  | fuel + 1, depth, k, c => by
    rw [readNamed]
    dsimp only
    split
    · exact Nat.zero_le _
    · next rest _ =>
      have hvalue := depth_readValue fuel depth ⟨rest, c.skipGaps.offset + 1⟩
      split
      · next next _ =>
        refine max_le ?_ (depth_readMembers fuel depth false next)
        rw [depth_between]
        exact hvalue
      · refine max_le ?_ (Nat.zero_le _)
        rw [depth_between]
        exact hvalue
    · exact Nat.zero_le _

end

/-- No value in a text goes deeper than a reader goes. -/
theorem depth_whole (text : String) : (whole text).value.depth ≤ maxDepth :=
  depth_readValue _ 0 _

end Reading

open Reading

namespace Record

variable {s : Record} {origin : Origin} {r : Reading} {seen fields : Fields}

theorem mem_of_takeMembers {rs : List (String × Reading)} (h : s.takeMembers seen rs = .ok fields) :
    ∀ row ∈ fields, row ∈ seen ∨ row ∈ rs := by
  induction rs generalizing seen with
  | nil =>
    cases h
    exact fun _ hrow => .inl hrow
  | cons m rs ih =>
    intro row hrow
    rw [takeMembers] at h
    split at h
    · exact (ih h row hrow).imp_right (List.mem_cons_of_mem _)
    · split at h
      · cases h
      · obtain ⟨_, -, h⟩ := bind_eq_ok_iff.mp h
        obtain hseen | hlater := ih h row hrow
        · obtain hseen | hm := List.mem_append.mp hseen
          · exact .inl hseen
          · exact .inr (List.mem_cons.mpr (.inl (List.mem_singleton.mp hm)))
        · exact .inr (List.mem_cons_of_mem _ hlater)

theorem mem_of_takeItems {closing : Closing} {taken : Nat} {expected : List Field} {rs : List Reading}
    (h : s.takeItems closing taken seen expected rs = .ok fields) :
    ∀ row ∈ fields, row ∈ seen ∨ row.2 ∈ rs := by
  induction expected generalizing taken seen rs with
  | nil =>
    rw [takeItems] at h
    cases h
    exact fun _ hrow => .inl hrow
  | cons field expected ih =>
    intro row hrow
    cases rs with
    | nil =>
      obtain ⟨_, -, h⟩ := bind_eq_ok_iff.mp h
      split at h
      · cases h
      · exact ih h row hrow
    | cons r rs =>
      obtain ⟨_, -, h⟩ := bind_eq_ok_iff.mp h
      obtain hseen | hlater := ih h row hrow
      · obtain hseen | hr := List.mem_append.mp hseen
        · exact .inl hseen
        · rw [List.mem_singleton.mp hr]
          exact .inr List.mem_cons_self
      · exact .inr (List.mem_cons_of_mem _ hlater)

theorem depth_lt_of_fieldsOf (h : s.fieldsOf origin r = .ok fields) :
    ∀ row ∈ fields, row.2.depth < r.depth := by
  rw [← depth_shape]
  unfold fieldsOf at h
  dsimp only at h
  split at h
  · next members closing hshape =>
    obtain ⟨seen, hseen, h⟩ := bind_eq_ok_iff.mp h
    obtain ⟨_, -, h⟩ := bind_eq_ok_iff.mp h
    split at h
    · cases h
    · cases h
      intro row hrow
      have hmem := (mem_of_takeMembers hseen row hrow).resolve_left List.not_mem_nil
      rw [hshape]
      exact Nat.lt_succ_of_le (Reading.depthMembers_le_iff.mp le_rfl row hmem)
  · next items closing hshape =>
    obtain ⟨seen, hseen, h⟩ := bind_eq_ok_iff.mp h
    obtain ⟨_, -, h⟩ := bind_eq_ok_iff.mp h
    cases h
    intro row hrow
    have hmem := (mem_of_takeItems (mapError_eq_ok_iff.mp hseen) row hrow).resolve_left
      List.not_mem_nil
    rw [hshape]
    exact Nat.lt_succ_of_le (Reading.depthItems_le_iff.mp le_rfl row.2 hmem)
  · obtain ⟨_, -, h⟩ := bind_eq_ok_iff.mp h
    cases h

end Record

namespace Fields

variable {α : Type} {fields : Fields} {name : String} {read : Reading → Except Error α} {a default : α}

theorem exists_of_getD (h : fields.getD name read default = .ok a) :
    a = default ∨ ∃ row ∈ fields, read row.2 = .ok a := by
  unfold getD at h
  split at h
  · next r hr =>
    obtain ⟨before, after, rfl, -⟩ := List.lookup_eq_some_iff.mp hr
    exact .inr ⟨(name, r), by simp, h⟩
  · cases h
    exact .inl rfl

end Fields

theorem exists_of_mem_readList {α : Type} {read : Reading → Except Error α} {r : Reading} {as : List α}
    (h : readList read r = .ok as) : ∀ a ∈ as, ∃ item : Reading, item.depth < r.depth ∧
      read item = .ok a := by
  rw [← depth_shape]
  unfold readList at h
  split at h
  · next items closing hshape =>
    obtain ⟨found, hfound, h⟩ := bind_eq_ok_iff.mp h
    obtain ⟨_, -, h⟩ := bind_eq_ok_iff.mp h
    cases h
    intro a ha
    obtain ⟨item, hitem, hread⟩ := exists_of_mem_mapM hfound ha
    rw [hshape]
    exact ⟨item, Nat.lt_succ_of_le (Reading.depthItems_le_iff.mp le_rfl item hitem), inside_eq_ok_iff.mp hread⟩
  · obtain ⟨_, -, h⟩ := bind_eq_ok_iff.mp h
    cases h

theorem le_of_readNatural {largest n : Nat} {wanted : String} {r : Reading}
    (h : readNatural largest wanted r = .ok n) : n ≤ largest := by
  unfold readNatural at h
  split at h
  · split at h
    · next hle =>
      cases h
      exact hle
    · cases h
  · cases h
  · obtain ⟨_, -, h⟩ := bind_eq_ok_iff.mp h
    cases h

end SignalBroker.Json
