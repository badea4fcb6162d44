import Mathlib.Data.List.Perm.Basic
import SignalBroker.Proofs.Json.Legibility
import SignalBroker.Proofs.Json.Sorted

namespace SignalBroker

/-- What relates to the items of one list in their order also does after these have changed places, in
another order. -/
theorem exists_perm_of_forall₂ {α β : Type} {R : α → β → Prop} {as : List α} {bs bs' : List β}
    (h : List.Forall₂ R as bs) (hp : bs.Perm bs') : ∃ as', as.Perm as' ∧ List.Forall₂ R as' bs' := by
  have hcomp : Relation.Comp (List.Forall₂ R) List.Perm as bs' := ⟨bs, h, hp⟩
  rwa [List.forall₂_comp_perm_eq_perm_comp_forall₂] at hcomp

theorem forall₂_imp_of_mem {α β : Type} {R S : α → β → Prop} {as : List α} {bs : List β}
    (h : List.Forall₂ R as bs) (himp : ∀ b ∈ bs, ∀ a, R a b → S a b) : List.Forall₂ S as bs := by
  have hall : List.Forall₂ (fun b a => (∀ a, R a b → S a b) ∧ R a b) bs as :=
    (List.forall₂_and_left bs as).mpr ⟨himp, h.flip⟩
  exact hall.flip.imp fun a b hab => hab.1 a hab.2

namespace Json

mutual

/-- The same value, but for the order of the members in its objects. -/
def Alike (j : Json) : Json → Prop
  | .array items => ∃ js, j = .array js ∧ AlikeItems js items
  | .object members => ∃ ms ms', j = .object ms ∧ ms.Perm ms' ∧ AlikeMembers ms' members
  | k => j = k

def AlikeItems (js : List Json) : List Json → Prop
  | [] => js = []
  | k :: ks => ∃ j rest, js = j :: rest ∧ Alike j k ∧ AlikeItems rest ks

def AlikeMembers (ms : List (String × Json)) : List (String × Json) → Prop
  | [] => ms = []
  | (name, k) :: ns => ∃ j rest, ms = (name, j) :: rest ∧ Alike j k ∧ AlikeMembers rest ns

end

mutual

theorem Alike.refl : ∀ j : Json, j.Alike j
  | .null => rfl
  | .bool _ => rfl
  | .number _ => rfl
  | .text _ => rfl
  | .array items => ⟨items, rfl, alikeItems_refl items⟩
  | .object members => ⟨members, members, rfl, .refl _, alikeMembers_refl members⟩

theorem alikeItems_refl : ∀ js : List Json, AlikeItems js js
  | [] => rfl
  | j :: js => ⟨j, js, rfl, .refl j, alikeItems_refl js⟩

theorem alikeMembers_refl : ∀ ms : List (String × Json), AlikeMembers ms ms
  | [] => rfl
  | (_, j) :: ms => ⟨j, ms, rfl, .refl j, alikeMembers_refl ms⟩

end

theorem depthItems_le_iff {items : List Json} {n : Nat} :
    depthItems items ≤ n ↔ ∀ j ∈ items, j.depth ≤ n := by
  induction items with
  | nil => simp [depthItems]
  | cons j items ih => rw [depthItems, List.forall_mem_cons, Nat.max_le, ih]

theorem depthMembers_le_iff {members : List (String × Json)} {n : Nat} :
    depthMembers members ≤ n ↔ ∀ m ∈ members, m.2.depth ≤ n := by
  induction members with
  | nil => simp [depthMembers]
  | cons m members ih =>
    obtain ⟨k, j⟩ := m
    rw [depthMembers, List.forall_mem_cons, Nat.max_le, ih]

theorem depthMembers_perm {ms ms' : List (String × Json)} (h : ms.Perm ms') :
    depthMembers ms = depthMembers ms' := by
  have hle : ∀ {ms ms' : List (String × Json)}, ms.Perm ms' → depthMembers ms ≤ depthMembers ms' :=
    fun h => depthMembers_le_iff.mpr fun m hm => depthMembers_le_iff.mp le_rfl m (h.mem_iff.mp hm)
  exact le_antisymm (hle h) (hle h.symm)

-- What does not depend on the order of members is the same for values that are alike.
mutual

theorem depth_of_alike : ∀ {j k : Json}, j.Alike k → j.depth = k.depth
  | _, .null, h => congrArg depth h
  | _, .bool _, h => congrArg depth h
  | _, .number _, h => congrArg depth h
  | _, .text _, h => congrArg depth h
  | _, .array _, h => by
    obtain ⟨js, rfl, h⟩ := h
    exact congrArg (· + 1) (depthItems_of_alike h)
  | _, .object _, h => by
    obtain ⟨ms, ms', rfl, hp, h⟩ := h
    exact congrArg (· + 1) ((depthMembers_perm hp).trans (depthMembers_of_alike h))

theorem depthItems_of_alike : ∀ {js ks : List Json}, AlikeItems js ks → depthItems js = depthItems ks
  | _, [], h => congrArg depthItems h
  | _, k :: ks, h => by
    obtain ⟨j, js, rfl, hj, h⟩ := h
    exact congrArg₂ max (depth_of_alike hj) (depthItems_of_alike h)

theorem depthMembers_of_alike : ∀ {ms ns : List (String × Json)}, AlikeMembers ms ns →
    depthMembers ms = depthMembers ns
  | _, [], h => congrArg depthMembers h
  | _, (_, k) :: ns, h => by
    obtain ⟨j, ms, rfl, hj, h⟩ := h
    exact congrArg₂ max (depth_of_alike hj) (depthMembers_of_alike h)

end

mutual

theorem legible_of_alike : ∀ {j k : Json}, j.Alike k → k.Legible → j.Legible
  | _, .null, h, hk => h ▸ hk
  | _, .bool _, h, hk => h ▸ hk
  | _, .number _, h, hk => h ▸ hk
  | _, .text _, h, hk => h ▸ hk
  | _, .array _, h, hk => by
    obtain ⟨js, rfl, h⟩ := h
    exact legibleItems_of_alike h hk
  | _, .object _, h, hk => by
    obtain ⟨ms, ms', rfl, hp, h⟩ := h
    have hms' := legibleMembers_iff.mp (legibleMembers_of_alike h hk)
    exact legibleMembers_iff.mpr fun m hm => hms' m (hp.mem_iff.mp hm)

theorem legibleItems_of_alike : ∀ {js ks : List Json}, AlikeItems js ks → LegibleItems ks →
    LegibleItems js
  | _, [], h, hk => h ▸ hk
  | _, k :: ks, h, hk => by
    obtain ⟨j, js, rfl, hj, h⟩ := h
    exact ⟨legible_of_alike hj hk.1, legibleItems_of_alike h hk.2⟩

theorem legibleMembers_of_alike : ∀ {ms ns : List (String × Json)}, AlikeMembers ms ns →
    LegibleMembers ns → LegibleMembers ms
  | _, [], h, hk => h ▸ hk
  | _, (_, k) :: ns, h, hk => by
    obtain ⟨j, ms, rfl, hj, h⟩ := h
    exact ⟨legible_of_alike hj hk.1, legibleMembers_of_alike h hk.2⟩

end

namespace Reading

mutual

/-- A reading of a value, in which nothing is cut off or unreadable and where the members of an object
may stand in any order. -/
def Tells (r : Reading) : Json → Prop
  | .array items => ∃ rs, r.shape = .array rs .closed ∧ TellItems rs items
  | .object members => ∃ rs rs', r.shape = .object rs .closed ∧ rs.Perm rs' ∧ TellMembers rs' members
  | j => r.shape = ofJson j

def TellItems (rs : List Reading) : List Json → Prop
  | [] => rs = []
  | j :: js => ∃ r rest, rs = r :: rest ∧ Tells r j ∧ TellItems rest js

def TellMembers (rs : List (String × Reading)) : List (String × Json) → Prop
  | [] => rs = []
  | (name, j) :: ms => ∃ r rest, rs = (name, r) :: rest ∧ Tells r j ∧ TellMembers rest ms

end

variable {r : Reading} {rs : List (String × Reading)} {members : List (String × Json)}

theorem tellItems_iff {rs : List Reading} {js : List Json} :
    TellItems rs js ↔ List.Forall₂ Tells rs js := by
  induction js generalizing rs with
  | nil => rw [TellItems, List.forall₂_nil_right_iff]
  | cons j js ih =>
    rw [TellItems, List.forall₂_cons_right_iff]
    constructor
    · rintro ⟨r, rest, rfl, hr, h⟩
      exact ⟨r, rest, hr, ih.mp h, rfl⟩
    · rintro ⟨r, rest, hr, h, rfl⟩
      exact ⟨r, rest, rfl, hr, ih.mpr h⟩

theorem tellMembers_iff : TellMembers rs members ↔
    List.Forall₂ (fun row m => row.1 = m.1 ∧ row.2.Tells m.2) rs members := by
  induction members generalizing rs with
  | nil => rw [TellMembers, List.forall₂_nil_right_iff]
  | cons m members ih =>
    rw [TellMembers, List.forall₂_cons_right_iff]
    constructor
    · rintro ⟨r, rest, rfl, hr, h⟩
      exact ⟨(m.1, r), rest, ⟨rfl, hr⟩, ih.mp h, rfl⟩
    · rintro ⟨⟨_, r⟩, rest, ⟨rfl, hr⟩, h, rfl⟩
      exact ⟨r, rest, rfl, hr, ih.mpr h⟩

-- By induction on the value that is wanted; what the reading tells has its members in some order of
-- their own, and its rows follow them into the order of the value.
mutual

theorem Tells.alike : ∀ {r : Reading} {j k : Json}, r.Tells j → j.Alike k → r.Tells k
  | _, _, .null, hr, h => h ▸ hr
  | _, _, .bool _, hr, h => h ▸ hr
  | _, _, .number _, hr, h => h ▸ hr
  | _, _, .text _, hr, h => h ▸ hr
  | _, _, .array _, hr, h => by
    obtain ⟨js, rfl, h⟩ := h
    obtain ⟨rs, hshape, hrs⟩ := hr
    exact ⟨rs, hshape, tellItems_alike hrs h⟩
  | _, _, .object _, hr, h => by
    obtain ⟨ms, ms', rfl, hp, h⟩ := h
    obtain ⟨rs, rs', hshape, hrs, htell⟩ := hr
    obtain ⟨rs₂, hrs₂, htell₂⟩ := exists_perm_of_forall₂ (tellMembers_iff.mp htell) hp
    exact ⟨rs, rs₂, hshape, hrs.trans hrs₂, tellMembers_alike (tellMembers_iff.mpr htell₂) h⟩

theorem tellItems_alike : ∀ {rs : List Reading} {js ks : List Json}, TellItems rs js →
    AlikeItems js ks → TellItems rs ks
  | _, _, [], hr, h => h ▸ hr
  | _, _, k :: ks, hr, h => by
    obtain ⟨j, js, rfl, hj, h⟩ := h
    obtain ⟨r, rs, rfl, hr, hrs⟩ := hr
    exact ⟨r, rs, rfl, hr.alike hj, tellItems_alike hrs h⟩

theorem tellMembers_alike : ∀ {rs : List (String × Reading)} {ms ns : List (String × Json)},
    TellMembers rs ms → AlikeMembers ms ns → TellMembers rs ns
  | _, _, [], hr, h => h ▸ hr
  | _, _, (_, k) :: ns, hr, h => by
    obtain ⟨j, ms, rfl, hj, h⟩ := h
    obtain ⟨r, rs, rfl, hr, hrs⟩ := hr
    exact ⟨r, rs, rfl, hr.alike hj, tellMembers_alike hrs h⟩

end

theorem toJson_shape (r : Reading) : r.shape.toJson = r.toJson := by
  cases r <;> rfl

theorem bare_shape (r : Reading) : r.shape.bare = r.bare := by
  cases r <;> rfl

theorem toJsonMembers_eq_ok_iff : toJsonMembers rs = .ok members ↔
    List.Forall₂ (fun row m => row.1 = m.1 ∧ row.2.toJson = .ok m.2) rs members := by
  induction rs generalizing members with
  | nil => simp [toJsonMembers, eq_comm]
  | cons row rs ih =>
    rw [toJsonMembers, List.forall₂_cons_left_iff]
    simp only [bind_eq_ok_iff, ih]
    constructor
    · rintro ⟨j, hj, js, hjs, h⟩
      cases h
      exact ⟨(row.1, j), js, ⟨rfl, hj⟩, hjs, rfl⟩
    · rintro ⟨⟨_, j⟩, js, ⟨rfl, hj⟩, hjs, rfl⟩
      exact ⟨j, hj, js, hjs, rfl⟩

end Reading

theorem ofMembers_of_perm {ms members : List (String × Json)} (hp : ms.Perm members)
    (h : members.Pairwise fun a b => a.1 < b.1) : ofMembers ms = .object members :=
  congrArg (fun t : Table String Json => object t.rows)
    (Table.ofList_of_perm (t := ⟨members, h⟩) hp)

namespace Reading

-- The members are read in the order of the text, and an object puts them into that of their names.
mutual

/-- A value whose members are in order is the value of each reading that tells it. -/
theorem toJson_of_tells : ∀ {r : Reading} {j : Json}, j.Sorted → r.Tells j → r.toJson = .ok j
  | r, .null, _, hr => by rw [← toJson_shape r, hr]; rfl
  | r, .bool _, _, hr => by rw [← toJson_shape r, hr]; rfl
  | r, .number _, _, hr => by rw [← toJson_shape r, hr]; rfl
  | r, .text _, _, hr => by rw [← toJson_shape r, hr]; rfl
  | r, .array items, hs, hr => by
    obtain ⟨rs, hshape, hrs⟩ := hr
    rw [← toJson_shape r, hshape, toJson, toJsonItems_of_tells hs hrs]
    rfl
  | r, .object members, hs, hr => by
    obtain ⟨rs, rs', hshape, hp, htell⟩ := hr
    have hall := toJsonMembers_eq_ok_iff.mp (toJsonMembers_of_tells hs.2 htell)
    obtain ⟨ms, hms, hread⟩ := exists_perm_of_forall₂ hall.flip hp.symm
    rw [← toJson_shape r, hshape, toJson, toJsonMembers_eq_ok_iff.mpr hread.flip]
    exact congrArg Except.ok (ofMembers_of_perm hms.symm hs.1)

theorem toJsonItems_of_tells : ∀ {rs : List Reading} {js : List Json}, SortedItems js →
    TellItems rs js → toJsonItems rs = .ok js
  | _, [], _, h => by rw [h]; rfl
  | _, j :: js, hs, h => by
    obtain ⟨r, rs, rfl, hr, h⟩ := h
    rw [toJsonItems, toJson_of_tells hs.1 hr, toJsonItems_of_tells hs.2 h]
    rfl

theorem toJsonMembers_of_tells : ∀ {rs : List (String × Reading)} {ms : List (String × Json)},
    SortedMembers ms → TellMembers rs ms → toJsonMembers rs = .ok ms
  | _, [], _, h => by rw [h]; rfl
  | _, (_, j) :: ms, hs, h => by
    obtain ⟨r, rs, rfl, hr, h⟩ := h
    rw [toJsonMembers, toJson_of_tells hs.1 hr, toJsonMembers_of_tells hs.2 h]
    rfl

end

theorem bareMembers_eq_map (rs : List (String × Reading)) :
    bareMembers rs = rs.map fun row => (row.1, row.2.bare) := by
  induction rs with
  | nil => rfl
  | cons row rs ih =>
    rw [bareMembers, ih]
    rfl

mutual

theorem Tells.bare : ∀ {r : Reading} {j : Json}, r.Tells j → r.bare.Tells j
  | r, .null, hr => by rw [← bare_shape r, hr]; rfl
  | r, .bool _, hr => by rw [← bare_shape r, hr]; rfl
  | r, .number _, hr => by rw [← bare_shape r, hr]; rfl
  | r, .text _, hr => by rw [← bare_shape r, hr]; rfl
  | r, .array items, hr => by
    obtain ⟨rs, hshape, hrs⟩ := hr
    rw [← bare_shape r, hshape]
    exact ⟨bareItems rs, rfl, bareItems_tell hrs⟩
  | r, .object members, hr => by
    obtain ⟨rs, rs', hshape, hp, htell⟩ := hr
    rw [← bare_shape r, hshape]
    refine ⟨bareMembers rs, bareMembers rs', rfl, ?_, bareMembers_tell htell⟩
    rw [bareMembers_eq_map, bareMembers_eq_map]
    exact hp.map _

theorem bareItems_tell : ∀ {rs : List Reading} {js : List Json}, TellItems rs js →
    TellItems (bareItems rs) js
  | _, [], h => by rw [h]; rfl
  | _, j :: js, h => by
    obtain ⟨r, rs, rfl, hr, h⟩ := h
    exact ⟨r.bare, bareItems rs, rfl, hr.bare, bareItems_tell h⟩

theorem bareMembers_tell : ∀ {rs : List (String × Reading)} {ms : List (String × Json)},
    TellMembers rs ms → TellMembers (bareMembers rs) ms
  | _, [], h => by rw [h]; rfl
  | _, (_, j) :: ms, h => by
    obtain ⟨r, rs, rfl, hr, h⟩ := h
    exact ⟨r.bare, bareMembers rs, rfl, hr.bare, bareMembers_tell h⟩

end

end Reading

end Json

end SignalBroker
