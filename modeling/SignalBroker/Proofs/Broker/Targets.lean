import SignalBroker.Proofs.Broker.Reading

namespace SignalBroker

namespace WriteRequest

def suffixValue? (path : String) : List (String × SignalValue) → Option SignalValue
  | [] => none
  | (suffix, value) :: rest =>
    (suffixValue? path rest).or (if Path.endsWith path suffix then some value else none)

def valueFor? (path : String) : WriteRequest → Option SignalValue
  | .broadcast value => some value
  | .suffixes pairs => suffixValue? path pairs

def suffixNames : WriteRequest → List String
  | .broadcast _ => []
  | .suffixes pairs => pairs.map (·.1)

end WriteRequest

namespace Registry

variable {σ : Type} (r : Registry σ) (p : Pattern) (w : WriteRequest) (rights : Rights)

def Matched (path : String) : Prop :=
  ∃ e, r.entries.find? path = some e ∧ p.matches path = true

def Ended (suffix : String) : Prop :=
  ∃ path, r.Matched p path ∧ Path.endsWith path suffix = true

/-- The value that a write assigns to a path. Paths that are no targets have none. -/
def assigned? (path : String) : Option SignalValue :=
  if r.entries.contains path && p.matches path then w.valueFor? path else none

def Locked (path : String) : Prop :=
  ∃ e v, r.entries.find? path = some e ∧ r.assigned? p w path = some v ∧ e.isReadOnly = true

def Ungranted (path : String) : Prop :=
  ∃ v, r.assigned? p w path = some v ∧ rights.grants.canWrite path = false

structure Permits : Prop where
  matched : ∃ path, r.Matched p path
  ended : ∀ suffix ∈ w.suffixNames, r.Ended p suffix
  unlocked : ∀ path, ¬ r.Locked p w path
  granted : ∀ path, ¬ r.Ungranted p w rights path

/-- Why a write is refused: the first check that fails, in the order of the checks. -/
inductive Refusal (pattern : String) : BrokerError → Prop where
  | malformed {e} (hp : Pattern.ofText pattern = .error e) : Refusal pattern (.invalidPattern e)
  | unmatched {p : Pattern} (hp : Pattern.ofText pattern = .ok p) (hm : ∀ path, ¬ r.Matched p path) :
    Refusal pattern (.pathNotFound pattern)
  | unended {p : Pattern} {before suffix after} (hp : Pattern.ofText pattern = .ok p)
    (hm : ∃ path, r.Matched p path) (hw : w.suffixNames = before ++ suffix :: after)
    (hb : ∀ s ∈ before, r.Ended p s) (hs : ¬ r.Ended p suffix) :
    Refusal pattern (.pathNotFound suffix)
  | locked {p : Pattern} {path} (hp : Pattern.ofText pattern = .ok p) (hm : ∃ path, r.Matched p path)
    (he : ∀ suffix ∈ w.suffixNames, r.Ended p suffix) (hl : r.Locked p w path)
    (hleast : ∀ other, r.Locked p w other → path ≤ other) :
    Refusal pattern (.readOnlyViolation path)
  | ungranted {p : Pattern} {path} (hp : Pattern.ofText pattern = .ok p)
    (hm : ∃ path, r.Matched p path) (he : ∀ suffix ∈ w.suffixNames, r.Ended p suffix)
    (hl : ∀ path, ¬ r.Locked p w path) (hu : r.Ungranted p w rights path)
    (hleast : ∀ other, r.Ungranted p w rights other → path ≤ other) :
    Refusal pattern
      (if rights.authorized then .forbidden path else .notAuthorized path)

variable {r p w rights}

theorem exists_entry_of_assigned {path : String} {v : SignalValue}
    (h : r.assigned? p w path = some v) : ∃ e, r.entries.find? path = some e := by
  unfold assigned? Table.contains at h
  cases he : r.entries.find? path with
  | none => simp [he] at h
  | some e => exact ⟨e, rfl⟩

theorem not_permits_of_refusal {pattern : String} {e : BrokerError} (h : r.Refusal w rights pattern e)
    (hp : Pattern.ofText pattern = .ok p) : ¬ r.Permits p w rights := by
  intro hpermits
  cases h with
  | malformed hq =>
    rw [hp] at hq
    cases hq
  | unmatched hq hm =>
    cases hp.symm.trans hq
    obtain ⟨path, hpath⟩ := hpermits.matched
    exact hm path hpath
  | unended hq _ hw _ hs =>
    cases hp.symm.trans hq
    exact hs (hpermits.ended _ (by rw [hw]; simp))
  | locked hq _ _ hl _ =>
    cases hp.symm.trans hq
    exact hpermits.unlocked _ hl
  | ungranted hq _ _ _ hu _ =>
    cases hp.symm.trans hq
    exact hpermits.granted _ hu

theorem matched_iff (path : String) :
    r.Matched p path ↔ ∃ e, (r.matching p).find? path = some e := by
  simp only [find?_matching, Option.filter_eq_some_iff, Matched]

def Resolved (targets : Table String Target) (entries : Table String Entry)
    (value? : String → Option SignalValue) : Prop :=
  ∀ path, targets.find? path =
    (entries.find? path).bind fun e => (value? path).map (targetOf e)

theorem assign_eq_merge (targets : Table String Target) (entries : Table String Entry)
    (value : SignalValue) : assign targets entries.toList value =
      targets.merge (entries.map fun _ e => targetOf e value) := by
  rw [assign, Table.merge, Table.map, List.foldl_map]
  rfl

variable {entries : Table String Entry} {targets done : Table String Target}

theorem find?_assign_hits (suffix : String) (value : SignalValue) (path : String) :
    (assign targets (entries.toList.filter fun row => Path.endsWith row.1 suffix) value).find? path =
      ((entries.find? path).bind fun e =>
        (if Path.endsWith path suffix then some value else none).map (targetOf e)).or
          (targets.find? path) := by
  have hrows : (entries.toList.filter fun row => Path.endsWith row.1 suffix) =
      (entries.filter fun path _ => Path.endsWith path suffix).toList := rfl
  rw [hrows, assign_eq_merge, Table.find?_merge, Table.find?_map, Table.find?_filter]
  cases entries.find? path with
  | none => rfl
  | some e => cases Path.endsWith path suffix <;> simp [Option.filter]

theorem hits_isEmpty_iff (suffix : String) :
    (entries.toList.filter fun row => Path.endsWith row.1 suffix).isEmpty = true ↔
      ∀ path e, entries.find? path = some e → Path.endsWith path suffix = false := by
  have hempty := Table.isEmpty_iff (entries.filter fun path _ => Path.endsWith path suffix)
  refine hempty.trans ?_
  constructor
  · intro h path e he
    have hnone := h path
    rw [Table.find?_filter, he] at hnone
    simpa using Option.filter_eq_none_iff.mp hnone e rfl
  · intro h path
    rw [Table.find?_filter, Option.filter_eq_none_iff]
    intro e he
    simpa using h path e he

theorem exists_hit {suffix : String}
    (h : ¬ (entries.toList.filter fun row => Path.endsWith row.1 suffix).isEmpty = true) :
    ∃ path e, entries.find? path = some e ∧ Path.endsWith path suffix = true := by
  rw [hits_isEmpty_iff] at h
  push Not at h
  obtain ⟨path, e, he, hends⟩ := h
  exact ⟨path, e, he, by simpa using hends⟩

theorem assignSuffixes_eq_ok {pairs : List (String × SignalValue)}
    (h : assignSuffixes entries.toList targets pairs = .ok done) :
    (∀ pair ∈ pairs, ∃ path e, entries.find? path = some e ∧ Path.endsWith path pair.1 = true) ∧
      ∀ path, done.find? path = ((entries.find? path).bind fun e =>
        (WriteRequest.suffixValue? path pairs).map (targetOf e)).or (targets.find? path) := by
  induction pairs generalizing targets with
  | nil =>
    cases h
    refine ⟨by simp, ?_⟩
    intro path
    cases entries.find? path <;> rfl
  | cons pair rest ih =>
    unfold assignSuffixes at h
    simp only at h
    split at h
    · cases h
    · next hhits =>
      obtain ⟨hall, hfind⟩ := ih h
      refine ⟨?_, ?_⟩
      · intro q hq
        obtain rfl | hq := List.mem_cons.mp hq
        · exact exists_hit hhits
        · exact hall q hq
      · intro path
        rw [hfind, find?_assign_hits]
        cases entries.find? path with
        | none => rfl
        | some e =>
          simp only [Option.bind_some, WriteRequest.suffixValue?]
          cases WriteRequest.suffixValue? path rest <;> simp

theorem assignSuffixes_eq_error {pairs : List (String × SignalValue)} {e : BrokerError}
    (h : assignSuffixes entries.toList targets pairs = .error e) :
    ∃ before suffix after, pairs.map (·.1) = before ++ suffix :: after ∧ e = .pathNotFound suffix ∧
      (∀ s ∈ before, ∃ path e, entries.find? path = some e ∧ Path.endsWith path s = true) ∧
      ∀ path e, entries.find? path = some e → Path.endsWith path suffix = false := by
  induction pairs generalizing targets with
  | nil => cases h
  | cons pair rest ih =>
    unfold assignSuffixes at h
    simp only at h
    split at h
    · next hhits =>
      cases h
      exact ⟨[], pair.1, rest.map (·.1), rfl, rfl, by simp, (hits_isEmpty_iff pair.1).mp hhits⟩
    · next hhits =>
      obtain ⟨before, suffix, after, hsplit, he, hb, hs⟩ := ih h
      refine ⟨pair.1 :: before, suffix, after, by simp [hsplit], he, ?_, hs⟩
      intro s hsm
      obtain rfl | hsm := List.mem_cons.mp hsm
      · exact exists_hit hhits
      · exact hb s hsm

theorem resolveTargets_eq_ok (h : resolveTargets entries.toList w = .ok targets) :
    (∀ suffix ∈ w.suffixNames, ∃ path e, entries.find? path = some e ∧
      Path.endsWith path suffix = true) ∧ Resolved targets entries w.valueFor? := by
  cases w with
  | broadcast value =>
    cases h
    refine ⟨by simp [WriteRequest.suffixNames], ?_⟩
    intro path
    rw [assign_eq_merge, Table.find?_merge, Table.find?_map, Table.find?_empty, Option.or_none]
    cases entries.find? path <;> rfl
  | suffixes pairs =>
    obtain ⟨hall, hfind⟩ := assignSuffixes_eq_ok h
    refine ⟨?_, ?_⟩
    · intro suffix hs
      obtain ⟨pair, hp, rfl⟩ := List.mem_map.mp hs
      exact hall pair hp
    · intro path
      rw [hfind, Table.find?_empty, Option.or_none]
      rfl

theorem resolveTargets_eq_error {e : BrokerError} (h : resolveTargets entries.toList w = .error e) :
    ∃ before suffix after, w.suffixNames = before ++ suffix :: after ∧ e = .pathNotFound suffix ∧
      (∀ s ∈ before, ∃ path e, entries.find? path = some e ∧ Path.endsWith path s = true) ∧
      ∀ path e, entries.find? path = some e → Path.endsWith path suffix = false := by
  cases w with
  | broadcast value => cases h
  | suffixes pairs => exact assignSuffixes_eq_error h

theorem checkWrite_eq_ok_iff {path : String} :
    rights.checkWrite path = .ok () ↔ rights.grants.canWrite path = true := by
  unfold Rights.checkWrite Rights.canWrite
  cases rights.grants.canWrite path <;> simp

theorem checkTargets_eq_ok_iff : checkTargets rights targets = .ok () ↔
    ∀ path target, targets.find? path = some target →
      target.isReadOnly = false ∧ rights.grants.canWrite path = true := by
  unfold checkTargets
  cases hf : targets.toList.find? fun row => row.2.isReadOnly with
  | some row =>
    have hm := (targets.mem_toList_iff row.1 row.2).mp (List.mem_of_find?_eq_some hf)
    have hlocked : row.2.isReadOnly = true := by simpa using List.find?_some hf
    constructor
    · intro h
      cases h
    · intro h
      rw [(h row.1 row.2 hm).1] at hlocked
      cases hlocked
  | none =>
    have hopen := List.find?_eq_none.mp hf
    show targets.keys.forM rights.checkWrite = .ok () ↔ _
    rw [forM_eq_ok_iff]
    constructor
    · intro h path target ht
      have hm := (targets.mem_toList_iff path target).mpr ht
      exact ⟨by simpa using hopen _ hm, checkWrite_eq_ok_iff.mp (h path (Table.mem_keys_of_find? ht))⟩
    · intro h path hm
      obtain ⟨target, ht⟩ := Table.exists_of_mem_keys hm
      exact checkWrite_eq_ok_iff.mpr (h path target ht).2

theorem forM_checkWrite_eq_error {e : BrokerError}
    (h : targets.keys.forM rights.checkWrite = .error e) :
    ∃ path target, e = rights.denial path ∧ targets.find? path = some target ∧
      rights.grants.canWrite path = false ∧
      ∀ other tg, targets.find? other = some tg → rights.grants.canWrite other = false →
        path ≤ other := by
  obtain ⟨before, path, after, hsplit, hbefore, he⟩ := forM_eq_error h
  obtain ⟨rows, rest, hrows, rfl, hrest⟩ := List.map_eq_append_iff.mp hsplit
  obtain ⟨row, later, rfl, rfl, -⟩ := List.map_eq_cons_iff.mp hrest
  have hm : row ∈ targets.toList := by
    show row ∈ targets.rows
    rw [hrows]
    exact List.mem_append_right _ List.mem_cons_self
  have hdenied : rights.canWrite row.1 = false := by
    apply Bool.eq_false_iff.mpr
    intro hw
    rw [Rights.checkWrite, if_pos hw] at he
    cases he
  rw [Rights.checkWrite, if_neg (by simp [hdenied])] at he
  cases he
  refine ⟨row.1, row.2, rfl, (targets.mem_toList_iff _ _).mp hm, hdenied, ?_⟩
  intro other tg ht hother
  refine Table.le_of_first hrows ht ?_
  intro hmem
  have hok := checkWrite_eq_ok_iff.mp (hbefore other (List.mem_map.mpr ⟨_, hmem, rfl⟩))
  rw [hother] at hok
  cases hok

theorem checkTargets_eq_error {e : BrokerError} (h : checkTargets rights targets = .error e) :
    (∃ path target, e = .readOnlyViolation path ∧ targets.find? path = some target ∧
      target.isReadOnly = true ∧
      ∀ other tg, targets.find? other = some tg → tg.isReadOnly = true → path ≤ other) ∨
    ((∀ path target, targets.find? path = some target → target.isReadOnly = false) ∧
      ∃ path target, e = rights.denial path ∧ targets.find? path = some target ∧
        rights.grants.canWrite path = false ∧
        ∀ other tg, targets.find? other = some tg → rights.grants.canWrite other = false →
          path ≤ other) := by
  unfold checkTargets at h
  cases hf : targets.toList.find? fun row => row.2.isReadOnly with
  | some row =>
    rw [hf] at h
    cases h
    obtain ⟨hlocked, before, after, hsplit, hbefore⟩ := List.find?_eq_some_iff_append.mp hf
    have hm := (targets.mem_toList_iff row.1 row.2).mp (List.mem_of_find?_eq_some hf)
    refine .inl ⟨row.1, row.2, rfl, hm, hlocked, ?_⟩
    intro other tg ht htg
    refine Table.le_of_first hsplit ht ?_
    intro hmem
    have hopen := hbefore _ hmem
    simp [htg] at hopen
  | none =>
    rw [hf] at h
    refine .inr ⟨?_, forM_checkWrite_eq_error h⟩
    intro path target ht
    simpa using List.find?_eq_none.mp hf _ ((targets.mem_toList_iff path target).mpr ht)

theorem find?_eq_some_iff_of_resolved (h : Resolved targets (r.matching p) w.valueFor?)
    {path : String} {target : Target} : targets.find? path = some target ↔
      ∃ e v, r.entries.find? path = some e ∧ r.assigned? p w path = some v ∧
        targetOf e v = target := by
  rw [h path, find?_matching, assigned?, Table.contains]
  cases r.entries.find? path with
  | none => simp
  | some e =>
    cases p.matches path with
    | false => simp
    | true => simp [Option.filter]

theorem ended_iff (suffix : String) : r.Ended p suffix ↔
    ∃ path e, (r.matching p).find? path = some e ∧ Path.endsWith path suffix = true := by
  simp only [Ended, matched_iff]
  constructor
  · rintro ⟨path, ⟨e, he⟩, hends⟩
    exact ⟨path, e, he, hends⟩
  · rintro ⟨path, e, he, hends⟩
    exact ⟨path, ⟨e, he⟩, hends⟩

theorem matching_isEmpty_iff : (r.matching p).isEmpty = true ↔ ∀ path, ¬ r.Matched p path := by
  rw [Table.isEmpty_iff]
  refine forall_congr' fun path => ?_
  rw [matched_iff, Option.eq_none_iff_forall_ne_some, not_exists]

theorem targets_eq {pattern : String} (hp : Pattern.ofText pattern = .ok p) :
    r.targets pattern w rights =
      if (r.matching p).isEmpty then .error (.pathNotFound pattern)
      else do
        let targets ← resolveTargets (r.matching p).toList w
        checkTargets rights targets
        return targets := by
  have hc : compile pattern = .ok p := compile_eq_ok_iff.mpr hp
  unfold Registry.targets
  rw [hc]
  show (if (r.matching p).isEmpty then _ else _) = _
  split <;> rfl

theorem targets_eq_ok {pattern : String} (h : r.targets pattern w rights = .ok targets) :
    ∃ p, Pattern.ofText pattern = .ok p ∧ r.Permits p w rights ∧
      Resolved targets (r.matching p) w.valueFor? := by
  obtain ⟨p, hc, -⟩ := bind_eq_ok_iff.mp h
  have hp := compile_eq_ok_iff.mp hc
  rw [targets_eq hp] at h
  split at h
  · cases h
  · next hmatched =>
    obtain ⟨resolved, hres, h⟩ := bind_eq_ok_iff.mp h
    obtain ⟨⟨⟩, hcheck, h⟩ := bind_eq_ok_iff.mp h
    cases h
    obtain ⟨hended, hres⟩ := resolveTargets_eq_ok hres
    have hchecked := checkTargets_eq_ok_iff.mp hcheck
    have htarget : ∀ {path e v}, r.entries.find? path = some e → r.assigned? p w path = some v →
        targets.find? path = some (targetOf e v) := by
      intro path e v he hv
      exact (find?_eq_some_iff_of_resolved hres).mpr ⟨e, v, he, hv, rfl⟩
    refine ⟨p, hp, ⟨?_, ?_, ?_, ?_⟩, hres⟩
    · rw [matching_isEmpty_iff] at hmatched
      exact Classical.not_forall_not.mp hmatched
    · intro suffix hs
      exact (ended_iff suffix).mpr (hended suffix hs)
    · rintro path ⟨e, v, he, hv, hlocked⟩
      have hopen := (hchecked path _ (htarget he hv)).1
      rw [targetOf] at hopen
      rw [hlocked] at hopen
      cases hopen
    · rintro path ⟨v, hv, hdenied⟩
      obtain ⟨e, he⟩ := exists_entry_of_assigned hv
      rw [(hchecked path _ (htarget he hv)).2] at hdenied
      cases hdenied

theorem refusal_of_checkTargets {pattern : String} {e : BrokerError}
    (hp : Pattern.ofText pattern = .ok p) (hm : ∃ path, r.Matched p path)
    (he : ∀ suffix ∈ w.suffixNames, r.Ended p suffix)
    (hres : Resolved targets (r.matching p) w.valueFor?)
    (h : checkTargets rights targets = .error e) : r.Refusal w rights pattern e := by
  have htarget : ∀ path tg, targets.find? path = some tg ↔ _ :=
    fun _ _ => find?_eq_some_iff_of_resolved hres
  obtain ⟨path, target, rfl, ht, hlocked, hleast⟩ | ⟨hopen, hdenied⟩ := checkTargets_eq_error h
  · obtain ⟨entry, v, hentry, hv, rfl⟩ := (htarget _ _).mp ht
    refine .locked hp hm he ⟨entry, v, hentry, hv, hlocked⟩ ?_
    rintro other ⟨entry', v', hentry', hv', hlocked'⟩
    exact hleast other _ ((htarget _ _).mpr ⟨entry', v', hentry', hv', rfl⟩) hlocked'
  · obtain ⟨path, target, rfl, ht, hdenied, hleast⟩ := hdenied
    obtain ⟨entry, v, hentry, hv, rfl⟩ := (htarget _ _).mp ht
    refine .ungranted hp hm he ?_ ⟨v, hv, hdenied⟩ ?_
    · rintro other ⟨entry', v', hentry', hv', hlocked'⟩
      have hother := hopen other _ ((htarget _ _).mpr ⟨entry', v', hentry', hv', rfl⟩)
      rw [targetOf, hlocked'] at hother
      cases hother
    · rintro other ⟨v', hv', hdenied'⟩
      obtain ⟨entry', hentry'⟩ := exists_entry_of_assigned hv'
      exact hleast other _ ((htarget _ _).mpr ⟨entry', v', hentry', hv', rfl⟩) hdenied'

theorem targets_eq_error {pattern : String} {e : BrokerError}
    (h : r.targets pattern w rights = .error e) : r.Refusal w rights pattern e := by
  cases hp : Pattern.ofText pattern with
  | error fault =>
    unfold Registry.targets compile at h
    rw [hp] at h
    cases h
    exact .malformed hp
  | ok p =>
    rw [targets_eq hp] at h
    split at h
    · next hempty =>
      cases h
      exact .unmatched hp (matching_isEmpty_iff.mp hempty)
    · next hmatched =>
      rw [matching_isEmpty_iff] at hmatched
      have hm := Classical.not_forall_not.mp hmatched
      obtain hres | ⟨targets, hres, h⟩ := bind_eq_error h
      · obtain ⟨before, suffix, after, hsplit, rfl, hb, hs⟩ := resolveTargets_eq_error hres
        refine .unended hp hm hsplit (fun s hsm => (ended_iff s).mpr (hb s hsm)) ?_
        intro hended
        obtain ⟨path, entry, hentry, hends⟩ := (ended_iff suffix).mp hended
        rw [hs path entry hentry] at hends
        cases hends
      · obtain ⟨hended, hresolved⟩ := resolveTargets_eq_ok hres
        obtain hcheck | ⟨_, _, h⟩ := bind_eq_error h
        · refine refusal_of_checkTargets hp hm ?_ hresolved hcheck
          intro suffix hs
          exact (ended_iff suffix).mpr (hended suffix hs)
        · cases h

theorem first_unique {xs before before' after after' : List String} {x x' : String}
    {P : String → Prop} (h : xs = before ++ x :: after) (h' : xs = before' ++ x' :: after')
    (hb : ∀ y ∈ before, P y) (hx : ¬ P x) (hb' : ∀ y ∈ before', P y) (hx' : ¬ P x') : x = x' := by
  induction before generalizing xs before' with
  | nil =>
    cases before' with
    | nil =>
      rw [h] at h'
      exact (List.cons.inj h').1
    | cons y ys =>
      rw [h] at h'
      exact absurd ((List.cons.inj h').1 ▸ hb' y List.mem_cons_self) hx
  | cons y ys ih =>
    obtain ⟨hy, hys⟩ := List.forall_mem_cons.mp hb
    cases before' with
    | nil =>
      rw [h] at h'
      exact absurd ((List.cons.inj h').1 ▸ hy) hx'
    | cons y' ys' =>
      rw [h] at h'
      exact ih rfl (List.cons.inj h').2 hys (List.forall_mem_cons.mp hb').2

/-- A write is refused for one reason only. -/
theorem Refusal.unique {pattern : String} {e e' : BrokerError} (h : r.Refusal w rights pattern e)
    (h' : r.Refusal w rights pattern e') : e = e' := by
  cases h with
  | malformed hp =>
    cases h' with
    | malformed hp' => cases hp.symm.trans hp'; rfl
    | unmatched hp' => cases hp.symm.trans hp'
    | unended hp' => cases hp.symm.trans hp'
    | locked hp' => cases hp.symm.trans hp'
    | ungranted hp' => cases hp.symm.trans hp'
  | unmatched hp hm =>
    cases h' with
    | malformed hp' => cases hp.symm.trans hp'
    | unmatched => rfl
    | unended hp' hm' =>
      cases hp.symm.trans hp'
      exact absurd hm' (not_exists.mpr hm)
    | locked hp' hm' =>
      cases hp.symm.trans hp'
      exact absurd hm' (not_exists.mpr hm)
    | ungranted hp' hm' =>
      cases hp.symm.trans hp'
      exact absurd hm' (not_exists.mpr hm)
  | unended hp hm hw hb hs =>
    cases h' with
    | malformed hp' => cases hp.symm.trans hp'
    | unmatched hp' hm' =>
      cases hp.symm.trans hp'
      exact absurd hm (not_exists.mpr hm')
    | unended hp' _ hw' hb' hs' =>
      cases hp.symm.trans hp'
      rw [first_unique hw hw' hb hs hb' hs']
    | locked hp' _ he' =>
      cases hp.symm.trans hp'
      exact absurd (he' _ (by rw [hw]; simp)) hs
    | ungranted hp' _ he' =>
      cases hp.symm.trans hp'
      exact absurd (he' _ (by rw [hw]; simp)) hs
  | locked hp hm he hl hleast =>
    cases h' with
    | malformed hp' => cases hp.symm.trans hp'
    | unmatched hp' hm' =>
      cases hp.symm.trans hp'
      exact absurd hm (not_exists.mpr hm')
    | unended hp' _ hw' _ hs' =>
      cases hp.symm.trans hp'
      exact absurd (he _ (by rw [hw']; simp)) hs'
    | locked hp' _ _ hl' hleast' =>
      cases hp.symm.trans hp'
      rw [Std.le_antisymm (hleast _ hl') (hleast' _ hl)]
    | ungranted hp' _ _ hl' =>
      cases hp.symm.trans hp'
      exact absurd hl (hl' _)
  | ungranted hp hm he hl hu hleast =>
    cases h' with
    | malformed hp' => cases hp.symm.trans hp'
    | unmatched hp' hm' =>
      cases hp.symm.trans hp'
      exact absurd hm (not_exists.mpr hm')
    | unended hp' _ hw' _ hs' =>
      cases hp.symm.trans hp'
      exact absurd (he _ (by rw [hw']; simp)) hs'
    | locked hp' _ _ hl' =>
      cases hp.symm.trans hp'
      exact absurd hl' (hl _)
    | ungranted hp' _ _ _ hu' hleast' =>
      cases hp.symm.trans hp'
      rw [Std.le_antisymm (hleast _ hu') (hleast' _ hu)]

end Registry

end SignalBroker
