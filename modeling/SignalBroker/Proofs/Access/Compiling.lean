import Mathlib.Data.List.Dedup
import Mathlib.Data.List.Induction
import SignalBroker.Access.Grants
import SignalBroker.Proofs.Table

namespace SignalBroker

namespace Grants

variable {entries others : List (String × AccessLevel)} {entry : String × AccessLevel} {p : Pattern}
  {level : AccessLevel} {g : Grants} {path : String}

def Lists (entries : List (String × AccessLevel)) (p : Pattern) (level : AccessLevel) : Prop :=
  ∃ before after, entries = before ++ (p.text, level) :: after ∧ ∀ later ∈ after, later.1 ≠ p.text

def Unambiguous (entries : List (String × AccessLevel)) : Prop :=
  ∀ (p : Pattern) level level', (p.text, level) ∈ entries → (p.text, level') ∈ entries → level = level'

def fault? (entry : String × AccessLevel) : Option PatternError :=
  match Pattern.ofText entry.1 with
  | .ok _ => none
  | .error e => some e

/-- The grants are what the entries list. -/
structure Means (entries : List (String × AccessLevel)) (g : Grants) : Prop where
  kept : ∀ text grant, g.table.find? text = some grant ↔
    grant.pattern.text = text ∧ Lists entries grant.pattern grant.level
  shown : ∀ text level, g.toTable.find? text = some level ↔
    ∃ p, Pattern.ofText text = .ok p ∧ Lists entries p level
  size : g.size = g.toTable.size
  count : g.size = ((entries.filter fun entry => (fault? entry).isNone).map (·.1)).dedup.length
  reads : ∀ path, g.canRead path = true ↔
    ∃ p level, Lists entries p level ∧ level.canRead = true ∧ p.matches path = true
  writes : ∀ path, g.canWrite path = true ↔
    ∃ p level, Lists entries p level ∧ level.canWrite = true ∧ p.matches path = true

theorem lists_append_singleton : Lists (entries ++ [entry]) p level ↔
    entry = (p.text, level) ∨ entry.1 ≠ p.text ∧ Lists entries p level := by
  constructor
  · rintro ⟨before, after, hsplit, hafter⟩
    obtain rfl | ⟨after, last, rfl⟩ := List.eq_nil_or_concat after
    · exact .inl (List.singleton_inj.mp (List.append_inj' hsplit rfl).2)
    · have hsplit : entries ++ [entry] = (before ++ (p.text, level) :: after) ++ [last] := by
        simpa using hsplit
      obtain ⟨rfl, hlast⟩ := List.append_inj' hsplit rfl
      obtain rfl := List.singleton_inj.mp hlast
      exact .inr ⟨hafter entry (by simp), before, after, rfl, fun later h => hafter later (by simp [h])⟩
  · rintro (rfl | ⟨hne, before, after, rfl, hafter⟩)
    · exact ⟨entries, [], rfl, by simp⟩
    · refine ⟨before, after ++ [entry], by simp, ?_⟩
      intro later hlater
      obtain hlater | hlater := List.mem_append.mp hlater
      · exact hafter later hlater
      · rwa [List.mem_singleton.mp hlater]

theorem exists_lists_iff : (∃ level, Lists entries p level) ↔ p.text ∈ entries.map (·.1) := by
  induction entries using List.reverseRecOn with
  | nil => simp [Lists]
  | append_singleton entries entry ih =>
    rw [List.map_append, List.mem_append, ← ih]
    simp only [lists_append_singleton, List.map_cons, List.map_nil, List.mem_singleton]
    constructor
    · rintro ⟨level, rfl | ⟨-, h⟩⟩
      · exact .inr rfl
      · exact .inl ⟨level, h⟩
    · intro h
      by_cases he : entry.1 = p.text
      · exact ⟨entry.2, .inl (by rw [← he])⟩
      · obtain ⟨level, hl⟩ | he' := h
        · exact ⟨level, .inr ⟨he, hl⟩⟩
        · exact absurd he'.symm he

theorem Lists.mem (h : Lists entries p level) : (p.text, level) ∈ entries := by
  obtain ⟨before, after, rfl, -⟩ := h
  simp

theorem Unambiguous.lists_iff (h : Unambiguous entries) :
    Lists entries p level ↔ (p.text, level) ∈ entries := by
  refine ⟨Lists.mem, fun hm => ?_⟩
  obtain ⟨level', hl⟩ := exists_lists_iff.mpr (List.mem_map_of_mem (f := (·.1)) hm)
  rwa [h p level level' hm hl.mem]

theorem unambiguous_of_nodup (hd : (entries.map (·.1)).Nodup) : Unambiguous entries := by
  intro p level level' hm hm'
  exact congrArg Prod.snd (List.inj_on_of_nodup_map hd hm hm' rfl)

theorem compile_append_singleton (entries : List (String × AccessLevel)) (entry : String × AccessLevel) :
    compile (entries ++ [entry]) = compileStep (compile entries) entry :=
  List.foldl_append

theorem find?_compile (entries : List (String × AccessLevel)) (text : String) (grant : Grant) :
    (compile entries).1.table.find? text = some grant ↔
      grant.pattern.text = text ∧ Lists entries grant.pattern grant.level := by
  induction entries using List.reverseRecOn with
  | nil => simp [compile, empty, Lists]
  | append_singleton entries entry ih =>
    rw [compile_append_singleton, compileStep, lists_append_singleton]
    cases hp : Pattern.ofText entry.1 with
    | error e =>
      -- a text that is no pattern is the text of none
      have hne : entry.1 ≠ grant.pattern.text := by
        intro h
        rw [h, Pattern.ofText_text] at hp
        cases hp
      have hne' : entry ≠ (grant.pattern.text, grant.level) := fun h => hne (congrArg Prod.fst h)
      simpa [hne, hne'] using ih
    | ok p =>
      have htext := Pattern.text_of_ofText hp
      simp only [insert, Table.find?_insert]
      by_cases ht : text = p.text
      · rw [if_pos ht, ht, Option.some.injEq]
        constructor
        · rintro rfl
          exact ⟨rfl, .inl (Prod.ext htext.symm rfl)⟩
        · rintro ⟨hpattern, rfl | ⟨hne, -⟩⟩
          · obtain rfl := Pattern.eq_of_text_eq hpattern
            rfl
          · exact absurd (htext.symm.trans hpattern.symm) hne
      · rw [if_neg ht, ih]
        refine and_congr_right fun hpattern => ?_
        have hne : entry.1 ≠ grant.pattern.text := by
          rw [← htext, hpattern]
          exact fun h => ht h.symm
        have hne' : entry ≠ (grant.pattern.text, grant.level) := fun h => hne (congrArg Prod.fst h)
        simp [hne, hne']

theorem faults_compile (entries : List (String × AccessLevel)) :
    (compile entries).2 = entries.filterMap fault? := by
  induction entries using List.reverseRecOn with
  | nil => rfl
  | append_singleton entries entry ih =>
    rw [compile_append_singleton, compileStep, List.filterMap_append, ← ih, List.filterMap_cons, fault?]
    cases Pattern.ofText entry.1 with
    | ok p => simp
    | error e => simp

theorem compile_congr (h : ∀ p level, Lists entries p level ↔ Lists others p level) :
    (compile entries).1 = (compile others).1 := by
  have htable : (compile entries).1.table = (compile others).1.table := by
    ext text : 1
    apply Option.ext
    intro grant
    rw [find?_compile, find?_compile, h]
  exact congrArg Grants.mk htable

theorem any_values_iff {f : Grant → Bool} : g.table.values.any f = true ↔
    ∃ text grant, g.table.find? text = some grant ∧ f grant = true := by
  simp only [List.any_eq_true, Table.values, List.mem_map, Prod.exists, exists_eq_right]
  constructor
  · rintro ⟨grant, ⟨text, hrow⟩, hf⟩
    exact ⟨text, grant, (g.table.mem_toList_iff text grant).mp hrow, hf⟩
  · rintro ⟨text, grant, hfind, hf⟩
    exact ⟨grant, ⟨text, (g.table.mem_toList_iff text grant).mpr hfind⟩, hf⟩

theorem find?_toTable (g : Grants) (text : String) :
    g.toTable.find? text = (g.table.find? text).map (·.level) :=
  Table.find?_map _ _ _

theorem shown_compile (entries : List (String × AccessLevel)) (text : String) (level : AccessLevel) :
    (compile entries).1.toTable.find? text = some level ↔
      ∃ p, Pattern.ofText text = .ok p ∧ Lists entries p level := by
  rw [find?_toTable, Option.map_eq_some_iff]
  simp only [find?_compile]
  constructor
  · rintro ⟨grant, ⟨rfl, hl⟩, rfl⟩
    exact ⟨grant.pattern, grant.pattern.ofText_text, hl⟩
  · rintro ⟨p, hp, hl⟩
    exact ⟨⟨p, level⟩, ⟨Pattern.text_of_ofText hp, hl⟩, rfl⟩

theorem any_compile_iff {f : Grant → Bool} : (compile entries).1.table.values.any f = true ↔
    ∃ p level, Lists entries p level ∧ f ⟨p, level⟩ = true := by
  simp only [any_values_iff, find?_compile]
  constructor
  · rintro ⟨_, grant, ⟨rfl, hl⟩, hf⟩
    exact ⟨grant.pattern, grant.level, hl, hf⟩
  · rintro ⟨p, level, hl, hf⟩
    exact ⟨p.text, ⟨p, level⟩, ⟨rfl, hl⟩, hf⟩

theorem size_compile (entries : List (String × AccessLevel)) : (compile entries).1.size =
    ((entries.filter fun entry => (fault? entry).isNone).map (·.1)).dedup.length := by
  have hkeys : (compile entries).1.table.keys.Perm
      ((entries.filter fun entry => (fault? entry).isNone).map (·.1)).dedup := by
    refine (List.perm_ext_iff_of_nodup (Table.keys_nodup _) (List.nodup_dedup _)).mpr fun text => ?_
    rw [Table.mem_keys_iff, Option.isSome_iff_exists, List.mem_dedup]
    simp only [find?_compile, List.mem_map, List.mem_filter, Option.isNone_iff_eq_none]
    constructor
    · rintro ⟨grant, rfl, hl⟩
      obtain ⟨entry, hentry, htext⟩ := List.mem_map.mp (exists_lists_iff.mp ⟨_, hl⟩)
      exact ⟨entry, ⟨hentry, by rw [fault?, htext, Pattern.ofText_text]⟩, htext⟩
    · rintro ⟨entry, ⟨hentry, hvalid⟩, rfl⟩
      unfold fault? at hvalid
      split at hvalid
      · next p hp =>
        have htext := Pattern.text_of_ofText hp
        have hm : p.text ∈ entries.map (·.1) := by
          rw [htext]
          exact List.mem_map_of_mem hentry
        obtain ⟨level, hl⟩ := exists_lists_iff.mpr hm
        exact ⟨⟨p, level⟩, htext, hl⟩
      · cases hvalid
  exact (List.length_map _).symm.trans hkeys.length_eq

theorem means_compile (entries : List (String × AccessLevel)) :
    Means entries (compile entries).1 where
  kept := find?_compile entries
  shown := shown_compile entries
  size := (List.length_map _).symm
  count := size_compile entries
  reads path := by
    rw [canRead, any_compile_iff]
    simp only [Bool.and_eq_true]
  writes path := by
    rw [canWrite, any_compile_iff]
    simp only [Bool.and_eq_true]

theorem compile_toTable (entries : List (String × AccessLevel)) :
    compile (compile entries).1.toTable.toList = ((compile entries).1, []) := by
  have hd : ((compile entries).1.toTable.toList.map (·.1)).Nodup := Table.keys_nodup _
  refine Prod.ext (compile_congr fun p level => ?_) ?_
  · rw [(unambiguous_of_nodup hd).lists_iff, Table.mem_toList_iff, shown_compile]
    constructor
    · rintro ⟨q, hq, hl⟩
      cases p.ofText_text.symm.trans hq
      exact hl
    · exact fun hl => ⟨p, p.ofText_text, hl⟩
  · rw [faults_compile, List.filterMap_eq_nil_iff]
    intro entry hentry
    have hshown := ((compile entries).1.toTable.mem_toList_iff entry.1 entry.2).mp hentry
    obtain ⟨p, hp, -⟩ := (shown_compile entries entry.1 entry.2).mp hshown
    rw [fault?, hp]

theorem compile_perm (h : Unambiguous entries) (hp : others.Perm entries) :
    (compile others).1 = (compile entries).1 := by
  have hothers : Unambiguous others := fun p level level' hm hm' =>
    h p level level' (hp.mem_iff.mp hm) (hp.mem_iff.mp hm')
  refine compile_congr fun p level => ?_
  rw [h.lists_iff, hothers.lists_iff, hp.mem_iff]

theorem any_insert_of_any {f : Grant → Bool} (hnew : g.toTable.find? p.text = none)
    (h : g.table.values.any f = true) : (g.insert p level).table.values.any f = true := by
  obtain ⟨text, grant, hfind, hf⟩ := any_values_iff.mp h
  refine any_values_iff.mpr ⟨text, grant, ?_, hf⟩
  have hne : text ≠ p.text := by
    rintro rfl
    rw [find?_toTable, hfind] at hnew
    cases hnew
  rw [insert, Table.find?_insert, if_neg hne, hfind]

end Grants

end SignalBroker
