import SignalBroker.Proofs.Access.Compiling

namespace SignalBroker

/-- Grants in the order in which their patterns have first come. -/
abbrev GrantList := List Grant

namespace GrantList

def insert (pattern : Pattern) (level : AccessLevel) : GrantList → GrantList
  | [] => [⟨pattern, level⟩]
  | grant :: rest =>
    if grant.pattern.text = pattern.text then { grant with level } :: rest
    else grant :: insert pattern level rest

def compileStep (state : GrantList × List PatternError) (entry : String × AccessLevel) :
    GrantList × List PatternError :=
  match Pattern.ofText entry.1 with
  | .ok pattern => (insert pattern entry.2 state.1, state.2)
  | .error e => (state.1, state.2 ++ [e])

def compile (entries : List (String × AccessLevel)) : GrantList × List PatternError :=
  entries.foldl compileStep ([], [])

def canRead (grants : GrantList) (path : String) : Bool :=
  grants.any fun grant => grant.level.canRead && grant.pattern.matches path

def canWrite (grants : GrantList) (path : String) : Bool :=
  grants.any fun grant => grant.level.canWrite && grant.pattern.matches path

def toTable (grants : GrantList) : Table String AccessLevel :=
  .ofList (grants.map fun grant => (grant.pattern.text, grant.level))

variable {grants : GrantList} {g : Grants} {p : Pattern} {level : AccessLevel} {grant : Grant}

/-- A list has the grants of a table, each of them once. -/
def Holds (grants : GrantList) (g : Grants) : Prop :=
  (grants.map fun grant => (grant.pattern.text, grant)).Perm g.table.toList

theorem mem_rows_iff {text : String} :
    (text, grant) ∈ grants.map (fun grant => (grant.pattern.text, grant)) ↔
      grant ∈ grants ∧ grant.pattern.text = text := by
  simp only [List.mem_map, Prod.mk.injEq]
  constructor
  · rintro ⟨_, hm, htext, rfl⟩
    exact ⟨hm, htext⟩
  · rintro ⟨hm, htext⟩
    exact ⟨grant, hm, htext, rfl⟩

theorem Holds.nodup (h : grants.Holds g) : (grants.map (·.pattern.text)).Nodup := by
  have hkeys : (g.table.toList.map (·.1)).Nodup := g.table.keys_nodup
  have hnodup := (h.map (·.1)).nodup_iff.mpr hkeys
  rwa [List.map_map] at hnodup

theorem Holds.find?_iff (h : grants.Holds g) {text : String} :
    g.table.find? text = some grant ↔ grant ∈ grants ∧ grant.pattern.text = text := by
  rw [← Table.mem_toList_iff, ← h.mem_iff, mem_rows_iff]

theorem mem_insert (hd : (grants.map (·.pattern.text)).Nodup) : grant ∈ insert p level grants ↔
    grant = ⟨p, level⟩ ∨ grant ∈ grants ∧ grant.pattern.text ≠ p.text := by
  induction grants with
  | nil => simp [insert]
  | cons first rest ih =>
    obtain ⟨hfirst, hrest⟩ := List.nodup_cons.mp hd
    by_cases ht : first.pattern.text = p.text
    · obtain rfl := Pattern.eq_of_text_eq ht
      have hne : grant ∈ rest → grant.pattern.text ≠ first.pattern.text :=
        fun hm heq => hfirst (List.mem_map.mpr ⟨grant, hm, heq⟩)
      grind [insert]
    · have ih := ih hrest
      grind [insert]

theorem nodup_insert (hd : (grants.map (·.pattern.text)).Nodup) :
    ((insert p level grants).map (·.pattern.text)).Nodup := by
  induction grants with
  | nil => simp [insert]
  | cons first rest ih =>
    obtain ⟨hfirst, hrest⟩ := List.nodup_cons.mp hd
    by_cases ht : first.pattern.text = p.text
    · simpa [insert, ht] using hd
    · rw [insert, if_neg ht, List.map_cons, List.nodup_cons]
      refine ⟨?_, ih hrest⟩
      intro hm
      obtain ⟨grant, hgrant, htext⟩ := List.mem_map.mp hm
      obtain rfl | ⟨hgrant, -⟩ := (mem_insert hrest).mp hgrant
      · exact ht htext.symm
      · exact hfirst (List.mem_map.mpr ⟨grant, hgrant, htext⟩)

theorem Holds.insert (h : grants.Holds g) (p : Pattern) (level : AccessLevel) :
    Holds (GrantList.insert p level grants) (g.insert p level) := by
  have hkeys : ((g.insert p level).table.toList.map (·.1)).Nodup := Table.keys_nodup _
  have hpairs : ((GrantList.insert p level grants).map fun grant => (grant.pattern.text, grant)).Nodup := by
    refine List.Nodup.of_map (·.1) ?_
    rw [List.map_map]
    exact nodup_insert h.nodup
  refine (List.perm_ext_iff_of_nodup hpairs (hkeys.of_map _)).mpr fun row => ?_
  obtain ⟨text, grant⟩ := row
  rw [Table.mem_toList_iff, Grants.insert, Table.find?_insert, mem_rows_iff, mem_insert h.nodup]
  by_cases ht : text = p.text
  · rw [if_pos ht, ht, Option.some.injEq]
    constructor
    · rintro ⟨rfl | ⟨-, hne⟩, htext⟩
      · rfl
      · exact absurd htext hne
    · rintro rfl
      exact ⟨.inl rfl, rfl⟩
  · rw [if_neg ht, h.find?_iff]
    refine and_congr_left fun htext => ?_
    have hne : grant.pattern.text ≠ p.text := htext ▸ ht
    have hne' : grant ≠ ⟨p, level⟩ := fun heq => hne (heq ▸ rfl)
    simp [hne, hne']

theorem holds_compile (entries : List (String × AccessLevel)) :
    (compile entries).1.Holds (Grants.compile entries).1 ∧
      (compile entries).2 = (Grants.compile entries).2 := by
  induction entries using List.reverseRecOn with
  | nil => exact ⟨.nil, rfl⟩
  | append_singleton entries entry ih =>
    obtain ⟨hholds, hfaults⟩ := ih
    rw [Grants.compile_append_singleton, compile, List.foldl_append]
    change (compileStep (compile entries) entry).1.Holds _ ∧ (compileStep (compile entries) entry).2 = _
    rw [compileStep, Grants.compileStep]
    cases Pattern.ofText entry.1 with
    | ok p => exact ⟨hholds.insert p entry.2, hfaults⟩
    | error e => exact ⟨hholds, congrArg (· ++ [e]) hfaults⟩

theorem Holds.any (h : grants.Holds g) (f : Grant → Bool) : grants.any f = g.table.values.any f := by
  have hp := h.map (·.2)
  rw [List.map_map] at hp
  exact (List.map_id grants ▸ hp).any_eq

theorem Holds.toTable (h : grants.Holds g) : grants.toTable = g.toTable := by
  have hd : ((grants.map fun grant => (grant.pattern.text, grant.level)).map (·.1)).Nodup := by
    rw [List.map_map]
    exact h.nodup
  ext text : 1
  apply Option.ext
  intro level
  rw [GrantList.toTable, Table.find?_ofList_iff hd, Grants.find?_toTable, Option.map_eq_some_iff]
  simp only [h.find?_iff, List.mem_map, Prod.mk.injEq, and_assoc]

structure Agrees (grants : GrantList) (g : Grants) : Prop where
  once : (grants.map (·.pattern.text)).Nodup
  length : grants.length = g.size
  toTable : grants.toTable = g.toTable
  canRead : ∀ path, grants.canRead path = g.canRead path
  canWrite : ∀ path, grants.canWrite path = g.canWrite path

theorem Holds.agrees (h : grants.Holds g) : grants.Agrees g where
  once := h.nodup
  length := (List.length_map _).symm.trans h.length_eq
  toTable := h.toTable
  canRead _ := h.any _
  canWrite _ := h.any _

end GrantList

namespace Grants

/-- What a list of entries grants. Each pattern is kept once with its last level, and the faults of the
others in their order; the levels that are shown are the grants again; neither the order of unambiguous
entries nor, for what has been granted, a new pattern matters. Grants kept as a list answer the same. -/
theorem grants_exact (entries : List (String × AccessLevel)) :
    Means entries (compile entries).1 ∧
    (compile entries).2 = entries.filterMap fault? ∧
    compile (compile entries).1.toTable.toList = ((compile entries).1, []) ∧
    (∀ others, Unambiguous entries → others.Perm entries →
      (compile others).1 = (compile entries).1) ∧
    (∀ p level, (compile entries).1.toTable.find? p.text = none → ∀ path,
      ((compile entries).1.canRead path = true →
        ((compile entries).1.insert p level).canRead path = true) ∧
      ((compile entries).1.canWrite path = true →
        ((compile entries).1.insert p level).canWrite path = true)) ∧
    (GrantList.compile entries).1.Agrees (compile entries).1 ∧
    (GrantList.compile entries).2 = (compile entries).2 := by
  obtain ⟨hholds, hfaults⟩ := GrantList.holds_compile entries
  refine ⟨means_compile entries, faults_compile entries, compile_toTable entries,
    fun others h hp => compile_perm h hp, ?_, hholds.agrees, hfaults⟩
  exact fun p level hnew path => ⟨any_insert_of_any hnew, any_insert_of_any hnew⟩

def trunkEntries : List (String × AccessLevel) :=
  [("Trunk.*", .read), ("Trunk..Lid", .read), ("Trunk.*", .write), ("Trunk.Lid", .read)]

theorem grants_exact_trunk : ∃ lid hood : Pattern, lid.text = "Trunk.Lid" ∧ hood.text = "Hood" ∧
    (compile trunkEntries).1.size = 2 ∧
    (compile trunkEntries).2 = [.emptySegment "Trunk..Lid"] ∧
    (compile trunkEntries).1.canRead "Trunk.Light" = false ∧
    (compile trunkEntries).1.canWrite "Trunk.Light" = true ∧
    Lists trunkEntries lid .read ∧ (compile trunkEntries).1.canRead "Trunk.Lid" = true ∧
    (compile trunkEntries).1.toTable.find? hood.text = none ∧
    ((compile trunkEntries).1.insert hood .read).canRead "Trunk.Lid" = true ∧
    Unambiguous trunkEntries.tail ∧
    (compile trunkEntries.tail.reverse).1 = (compile trunkEntries.tail).1 := by
  let lid : Pattern := ⟨"Trunk.Lid", [.literal "Trunk", .literal "Lid"], rfl⟩
  let hood : Pattern := ⟨"Hood", [.literal "Hood"], rfl⟩
  obtain ⟨hmeans, hfaults, -, -, hnew, -⟩ := grants_exact trunkEntries
  obtain ⟨-, -, -, hperm, -⟩ := grants_exact trunkEntries.tail
  have hlid : Lists trunkEntries lid .read := ⟨trunkEntries.take 3, [], rfl, by simp⟩
  have hread : (compile trunkEntries).1.canRead "Trunk.Lid" = true :=
    (hmeans.reads _).mpr ⟨lid, .read, hlid, rfl, by decide⟩
  have hsame : Unambiguous trunkEntries.tail := unambiguous_of_nodup (by decide)
  refine ⟨lid, hood, rfl, rfl, by decide, hfaults.trans (by decide), by decide, by decide, hlid, hread,
    by decide, (hnew hood .read (by decide) _).1 hread, hsame, hperm _ hsame (List.reverse_perm _)⟩

end Grants

end SignalBroker
