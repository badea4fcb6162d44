import SignalBroker.Path.Pattern
import SignalBroker.Proofs.Except
import SignalBroker.Proofs.Path.Splitting

namespace SignalBroker.Pattern

def WellFormed (name : String) : Prop :=
  name ≠ "" ∧ (name = "*" ∨ '*' ∉ name.toList)

inductive SegmentFault (text : String) : String → PatternError → Prop where
  | empty : SegmentFault text "" (.emptySegment text)
  | partialWildcard {name} (hname : name ≠ "*") (hstar : '*' ∈ name.toList) :
    SegmentFault text name (.partialWildcard text name)

/-- Why a text is no pattern: it is empty, or else what is wrong with its leftmost bad segment. -/
inductive Fault (text : String) : PatternError → Prop where
  | empty (h : text = "") : Fault text .empty
  | segment {before name after e} (hne : text ≠ "") (h : Path.segments text = before ++ name :: after)
    (hb : ∀ name ∈ before, WellFormed name) (he : SegmentFault text name e) : Fault text e

def Takes (name : String) (run : List String) : Prop :=
  if name = "*" then run ≠ [] else run = [name]

def Segment.Takes : Segment → List String → Prop
  | .literal s, run => run = [s]
  | .wildcard, run => run ≠ []

/-- The check by search: a wildcard tries every end for its run. -/
def search : List Segment → List String → Bool
  | [], path => path.isEmpty
  | .literal _ :: _, [] => false
  | .literal s :: rest, head :: tail => head == s && search rest tail
  | .wildcard :: rest, path => (List.range path.length).any fun n => search rest (path.drop (n + 1))

section Reading

variable {text name : String} {s : Segment} {segments : List Segment} {e : PatternError}

theorem ne_star_of_not_mem (hstar : '*' ∉ name.toList) : name ≠ "*" := by
  rintro rfl
  exact hstar (by decide)

theorem readSegment_eq_ok_iff : readSegment text name = .ok s ↔
    name = "*" ∧ s = .wildcard ∨ name ≠ "" ∧ '*' ∉ name.toList ∧ s = .literal name := by
  unfold readSegment
  constructor
  · intro h
    split at h
    · cases h
    · next hempty =>
      split at h
      · next hname =>
        cases h
        exact .inl ⟨hname, rfl⟩
      · split at h
        · cases h
        · next hstar =>
          cases h
          exact .inr ⟨hempty, by simpa using hstar, rfl⟩
  · rintro (⟨rfl, rfl⟩ | ⟨hempty, hstar, rfl⟩)
    · rfl
    · simp [hempty, ne_star_of_not_mem hstar, hstar]

theorem exists_readSegment_iff : (∃ s, readSegment text name = .ok s) ↔ WellFormed name := by
  simp only [readSegment_eq_ok_iff, WellFormed]
  constructor
  · rintro ⟨s, ⟨rfl, -⟩ | ⟨hempty, hstar, -⟩⟩
    · exact ⟨by decide, .inl rfl⟩
    · exact ⟨hempty, .inr hstar⟩
  · rintro ⟨hempty, hname | hstar⟩
    · exact ⟨.wildcard, .inl ⟨hname, rfl⟩⟩
    · exact ⟨.literal name, .inr ⟨hempty, hstar, rfl⟩⟩

theorem readSegment_eq_error_iff :
    readSegment text name = .error e ↔ SegmentFault text name e := by
  unfold readSegment
  constructor
  · intro h
    split at h
    · next hempty =>
      cases h
      rw [hempty]
      exact .empty
    · split at h
      · cases h
      · next hname =>
        split at h
        · next hstar =>
          cases h
          exact .partialWildcard hname (by simpa using hstar)
        · cases h
  · intro h
    cases h with
    | empty => rfl
    | partialWildcard hname hstar =>
      have hempty : name ≠ "" := by
        rintro rfl
        cases hstar
      simp [hempty, hname, hstar]

theorem exists_readSegments_iff : (∃ segments, readSegments text = .ok segments) ↔
    text ≠ "" ∧ ∀ name ∈ Path.segments text, WellFormed name := by
  unfold readSegments
  by_cases h : text = ""
  · simp [h]
  · rw [if_neg h, and_iff_right h]
    constructor
    · rintro ⟨segments, hs⟩ name hname
      exact exists_readSegment_iff.mp (forall_exists_of_mapM hs name hname)
    · intro hall
      exact exists_mapM_eq_ok fun name hname => exists_readSegment_iff.mpr (hall name hname)

theorem readSegments_eq_error_iff : readSegments text = .error e ↔ Fault text e := by
  unfold readSegments
  by_cases h : text = ""
  · rw [if_pos h]
    constructor
    · intro he
      cases he
      exact .empty h
    · intro hf
      cases hf with
      | empty => rfl
      | segment hne => exact absurd h hne
  · rw [if_neg h, mapM_eq_error_iff_first]
    simp only [exists_readSegment_iff, readSegment_eq_error_iff]
    constructor
    · rintro ⟨before, name, after, hs, hb, he⟩
      exact .segment h hs hb he
    · intro hf
      cases hf with
      | empty he => exact absurd he h
      | segment _ hs hb he => exact ⟨_, _, _, hs, hb, he⟩

theorem forall₂_of_readSegments (h : readSegments text = .ok segments) :
    List.Forall₂ (fun name s => readSegment text name = .ok s) (Path.segments text) segments := by
  unfold readSegments at h
  split at h
  · cases h
  · exact mapM_eq_ok_iff.mp h

theorem takes_of_readSegment (h : readSegment text name = .ok s) (run : List String) :
    s.Takes run ↔ Takes name run := by
  unfold Takes
  obtain ⟨hname, rfl⟩ | ⟨-, hstar, rfl⟩ := readSegment_eq_ok_iff.mp h
  · rw [if_pos hname]
    rfl
  · rw [if_neg (ne_star_of_not_mem hstar)]
    rfl

theorem forall₂_takes_iff {names : List String}
    (h : List.Forall₂ (fun name s => readSegment text name = .ok s) names segments)
    (runs : List (List String)) :
    List.Forall₂ Segment.Takes segments runs ↔ List.Forall₂ Takes names runs := by
  induction h generalizing runs with
  | nil => simp
  | cons hread _ ih => cases runs <;> simp [takes_of_readSegment hread, ih]

end Reading

section Matching

variable {segments rest : List Segment} {path : List String}

theorem covers_iff_runs : Covers segments path ↔
    ∃ runs, List.Forall₂ Segment.Takes segments runs ∧ runs.flatten = path := by
  constructor
  · intro h
    induction h with
    | nil => exact ⟨[], .nil, rfl⟩
    | @literal s rest path _ ih =>
      obtain ⟨runs, htakes, rfl⟩ := ih
      exact ⟨[s] :: runs, .cons rfl htakes, rfl⟩
    | @wildcard run rest path hne _ ih =>
      obtain ⟨runs, htakes, rfl⟩ := ih
      exact ⟨run :: runs, .cons hne htakes, rfl⟩
  · rintro ⟨runs, htakes, rfl⟩
    induction htakes with
    | nil => exact .nil
    | @cons s run rest runs hs _ ih =>
      cases s with
      | literal name =>
        have hrun : run = [name] := hs
        rw [hrun]
        exact .literal ih
      | wildcard => exact .wildcard hs ih

theorem accepts_wildcard_iff : accepts (.wildcard :: rest) path = true ↔
    ∃ n < path.length, accepts rest (path.drop (n + 1)) = true := by
  induction path with
  | nil => simp [accepts]
  | cons head tail ih =>
    rw [accepts, Bool.or_eq_true, ih]
    constructor
    · rintro (h | ⟨n, hn, h⟩)
      · exact ⟨0, Nat.zero_lt_succ _, h⟩
      · exact ⟨n + 1, Nat.succ_lt_succ hn, h⟩
    · rintro ⟨n, hn, h⟩
      cases n with
      | zero => exact .inl h
      | succ n => exact .inr ⟨n, Nat.lt_of_succ_lt_succ hn, h⟩

theorem search_eq_accepts (segments : List Segment) (path : List String) :
    search segments path = accepts segments path := by
  -- wherever the run of a wildcard ends, the rest of the pattern is the same
  induction segments generalizing path with
  | nil => rw [search, accepts]
  | cons s rest ih =>
    cases s with
    | literal name =>
      cases path with
      | nil => rw [search, accepts]
      | cons head tail => rw [search, accepts, ih]
    | wildcard =>
      rw [Bool.eq_iff_iff, accepts_wildcard_iff]
      simp [search, ih]

end Matching

theorem ofText_eq_ok_iff {text : String} {p : Pattern} :
    ofText text = .ok p ↔ p.text = text ∧ readSegments text = .ok p.segments := by
  constructor
  · intro h
    obtain rfl := text_of_ofText h
    exact ⟨rfl, p.segments_of_text⟩
  · rintro ⟨rfl, -⟩
    exact ofText_text p

theorem exists_ofText_iff {text : String} :
    (∃ p, ofText text = .ok p) ↔ ∃ segments, readSegments text = .ok segments := by
  constructor
  · rintro ⟨p, hp⟩
    exact ⟨p.segments, (ofText_eq_ok_iff.mp hp).2⟩
  · rintro ⟨segments, hs⟩
    exact ⟨⟨text, segments, hs⟩, ofText_text ⟨text, segments, hs⟩⟩

theorem ofText_eq_error_iff {text : String} {e : PatternError} :
    ofText text = .error e ↔ readSegments text = .error e := by
  unfold ofText
  split
  · next hs => simp [hs]
  · next hs => simp [hs]

theorem matches_iff_runs (p : Pattern) (path : String) : p.matches path = true ↔
    ∃ runs, List.Forall₂ Takes (Path.segments p.text) runs ∧ runs.flatten = Path.segments path := by
  rw [matches_iff_covers, covers_iff_runs]
  simp only [forall₂_takes_iff (forall₂_of_readSegments p.segments_of_text)]

/-- Which texts are patterns, what is wrong with the others, and which paths a pattern matches. -/
theorem language_exact (text : String) :
    ((∃ p, ofText text = .ok p) ↔ text ≠ "" ∧ ∀ name ∈ Path.segments text, WellFormed name) ∧
    (∀ e, ofText text = .error e ↔ Fault text e) ∧
    ∀ p, ofText text = .ok p → ∀ path,
      (p.matches path = true ↔ ∃ runs, List.Forall₂ Takes (Path.segments text) runs ∧
        runs.flatten = Path.segments path) ∧
      p.matches path = search p.segments (Path.segments path) := by
  refine ⟨exists_ofText_iff.trans exists_readSegments_iff, ?_, ?_⟩
  · intro e
    rw [ofText_eq_error_iff, readSegments_eq_error_iff]
  · intro p hp path
    obtain ⟨rfl, -⟩ := ofText_eq_ok_iff.mp hp
    exact ⟨p.matches_iff_runs path, (search_eq_accepts _ _).symm⟩

def skippingLeft : Pattern :=
  ⟨"A.*.Left.B", [.literal "A", .wildcard, .literal "Left", .literal "B"], by decide⟩

theorem language_exact_repeated :
    (ofText "A.*.Left.B" = .ok skippingLeft ∧ skippingLeft.matches "A.Left.X.Left.B" = true ∧
      skippingLeft.matches "A.Left.B" = false) ∧
    ofText "A..B*" = .error (.emptySegment "A..B*") ∧
    ofText "A.B*.." = .error (.partialWildcard "A.B*.." "B*") := by
  have hp : ofText "A.*.Left.B" = .ok skippingLeft := ofText_text skippingLeft
  obtain ⟨-, -, hmatches⟩ := language_exact "A.*.Left.B"
  refine ⟨⟨hp, ?_, ?_⟩, ?_, ?_⟩
  · refine (hmatches _ hp "A.Left.X.Left.B").1.mpr
      ⟨[["A"], ["Left", "X"], ["Left"], ["B"]], ?_, by decide⟩
    have hnames : Path.segments "A.*.Left.B" = ["A", "*", "Left", "B"] := by decide
    rw [hnames]
    simp [Takes]
  · exact (hmatches _ hp "A.Left.B").2.trans (by decide)
  · obtain ⟨-, hfault, -⟩ := language_exact "A..B*"
    have hnames : Path.segments "A..B*" = ["A"] ++ "" :: ["B*"] := by decide
    exact (hfault _).mpr (.segment (by decide) hnames (by simp [WellFormed]) .empty)
  · obtain ⟨-, hfault, -⟩ := language_exact "A.B*.."
    have hnames : Path.segments "A.B*.." = ["A"] ++ "B*" :: ["", ""] := by decide
    exact (hfault _).mpr (.segment (by decide) hnames (by simp [WellFormed])
      (.partialWildcard (by decide) (by decide)))

end SignalBroker.Pattern
