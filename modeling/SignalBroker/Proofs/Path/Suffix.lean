import SignalBroker.Proofs.Path.Literal

namespace SignalBroker

namespace Path

variable {path suffix : String}

theorem dropSuffix?_eq_some_iff {cs suffix head : List Char} :
    dropSuffix? cs suffix = some head ↔ cs = head ++ suffix := by
  unfold dropSuffix?
  by_cases hs : suffix <:+ cs
  · obtain ⟨front, rfl⟩ := hs
    simp
  · have hne : cs ≠ head ++ suffix := by
      rintro rfl
      exact hs (List.suffix_append head suffix)
    simp [hs, hne]

theorem endsWith_iff_head (hs : suffix ≠ "") : endsWith path suffix = true ↔
    ∃ head, path.toList = head ++ suffix.toList ∧ (head = [] ∨ head.getLast? = some '.') := by
  unfold endsWith
  rw [if_neg (by simpa using hs)]
  cases hd : dropSuffix? path.toList suffix.toList with
  | none =>
    refine iff_of_false (by simp) ?_
    rintro ⟨head, hpath, -⟩
    rw [dropSuffix?_eq_some_iff.mpr hpath] at hd
    cases hd
  | some head =>
    have hpath := dropSuffix?_eq_some_iff.mp hd
    simp [hpath]

theorem endsWith_iff_eq_or (hs : suffix ≠ "") : endsWith path suffix = true ↔
    path = suffix ∨ ∃ head, path = head ++ "." ++ suffix := by
  rw [endsWith_iff_head hs]
  constructor
  · rintro ⟨head, hpath, rfl | hdot⟩
    · exact .inl (String.toList_injective hpath)
    · obtain ⟨front, rfl⟩ := List.getLast?_eq_some_iff.mp hdot
      exact .inr ⟨String.ofList front, String.toList_injective (by simpa using hpath)⟩
  · rintro (rfl | ⟨head, rfl⟩)
    · exact ⟨[], rfl, .inl rfl⟩
    · exact ⟨head.toList ++ ['.'], by simp, .inr (by simp)⟩

/-- The last segments of a path are those of the path itself or of what comes after a dot. -/
theorem segments_suffix_iff : segments suffix <:+ segments path ↔
    path = suffix ∨ ∃ head, path = head ++ "." ++ suffix := by
  constructor
  · rintro ⟨front, hfront⟩
    by_cases hf : front = []
    · rw [hf] at hfront
      exact .inl (segments_injective hfront.symm)
    · have hpath := intercalate_segments path
      rw [← hfront, String.intercalate_append_of_ne_nil hf (segments_ne_nil suffix),
        intercalate_segments] at hpath
      exact .inr ⟨_, hpath.symm⟩
  · rintro (rfl | ⟨head, rfl⟩)
    · exact List.suffix_refl _
    · rw [segments_append_dot]
      exact List.suffix_append _ _

end Path

namespace Pattern

variable {text path : String} {p : Pattern}

theorem readSegment_congr {name : String} {s : Segment} (h : readSegment text name = .ok s)
    (other : String) : readSegment other name = .ok s :=
  readSegment_eq_ok_iff.mpr (readSegment_eq_ok_iff.mp h)

/-- A wildcard put above the segments of a pattern makes a pattern. -/
theorem exists_below (p : Pattern) : ∃ below, ofText ("*." ++ p.text) = .ok below ∧
    below.segments = .wildcard :: p.segments := by
  have hnames : Path.segments ("*." ++ p.text) = "*" :: Path.segments p.text :=
    Path.segments_append_dot "*" p.text
  have hne : "*." ++ p.text ≠ "" := by
    intro h
    simpa using congrArg String.toList h
  have hread : readSegments ("*." ++ p.text) = .ok (.wildcard :: p.segments) := by
    rw [readSegments, if_neg hne, hnames]
    refine mapM_eq_ok_iff.mpr (.cons rfl ?_)
    exact (forall₂_of_readSegments p.segments_of_text).imp fun _ _ h => readSegment_congr h _
  exact ⟨⟨_, _, hread⟩, ofText_eq_ok_iff.mpr ⟨rfl, hread⟩, rfl⟩

theorem matches_below_iff {below : Pattern} (hp : p.isLiteral = true)
    (hb : below.segments = .wildcard :: p.segments) : below.matches path = true ↔
      ∃ run, run ≠ [] ∧ run ++ Path.segments p.text = Path.segments path := by
  rw [matches_iff_covers, hb, segments_of_isLiteral hp]
  constructor
  · intro h
    generalize hsegments : Path.segments path = names at h ⊢
    cases h with
    | @wildcard run rest path hne hrest =>
      have hlast := (accepts_map_literal _ _).mp (accepts_of_covers hrest)
      exact ⟨run, hne, by rw [hlast]⟩
  · rintro ⟨run, hne, hpath⟩
    rw [← hpath]
    exact .wildcard hne (covers_of_accepts ((accepts_map_literal _ _).mpr rfl))

theorem eq_or_matches_below_iff {below : Pattern} (hp : p.isLiteral = true)
    (hb : below.segments = .wildcard :: p.segments) :
    path = p.text ∨ below.matches path = true ↔ Path.segments p.text <:+ Path.segments path := by
  rw [matches_below_iff hp hb]
  constructor
  · rintro (rfl | ⟨run, -, hrun⟩)
    · exact List.suffix_refl _
    · exact ⟨run, hrun⟩
  · rintro ⟨run, hrun⟩
    by_cases hne : run = []
    · rw [hne] at hrun
      exact .inl (Path.segments_injective hrun.symm)
    · exact .inr ⟨run, hne, hrun⟩

end Pattern

namespace Path

/-- When a path ends with a suffix, said of their segments and, for a suffix that is a pattern without
wildcards, of the patterns made of it. -/
theorem endsWith_exact (path suffix : String) :
    (suffix ≠ "" → (endsWith path suffix = true ↔ segments suffix <:+ segments path)) ∧
    (∀ p, Pattern.ofText suffix = .ok p → p.isLiteral = true →
      ∃ below, Pattern.ofText ("*." ++ suffix) = .ok below ∧
        (endsWith path suffix = true ↔ path = suffix ∨ below.matches path = true)) ∧
    endsWith path "" = false := by
  have hsegments : suffix ≠ "" → (endsWith path suffix = true ↔ segments suffix <:+ segments path) :=
    fun hs => (endsWith_iff_eq_or hs).trans segments_suffix_iff.symm
  refine ⟨hsegments, ?_, rfl⟩
  intro p hp hl
  obtain ⟨rfl, hread⟩ := Pattern.ofText_eq_ok_iff.mp hp
  obtain ⟨hne, -⟩ := Pattern.exists_readSegments_iff.mp ⟨_, hread⟩
  obtain ⟨below, hbelow, hb⟩ := p.exists_below
  exact ⟨below, hbelow, (hsegments hne).trans (Pattern.eq_or_matches_below_iff hl hb).symm⟩

theorem endsWith_exact_dots :
    endsWith "Row1.Right.IsLocked" "Right.IsLocked" = true ∧
    endsWith "Row1.Right.IsLocked" "ight.IsLocked" = false ∧
    endsWith "A.." "." = true ∧ endsWith "A." "." = false ∧ endsWith "A." "" = false ∧
    ∃ below, Pattern.ofText "*.Right.IsLocked" = .ok below ∧
      below.matches "Row1.Right.IsLocked" = true := by
  have hends : endsWith "Row1.Right.IsLocked" "Right.IsLocked" = true :=
    ((endsWith_exact _ _).1 (by decide)).mpr (by decide)
  refine ⟨hends, ?_, ?_, ?_, (endsWith_exact "A." "").2.2, ?_⟩
  · rw [← Bool.not_eq_true, (endsWith_exact _ _).1 (by decide)]
    decide
  · exact ((endsWith_exact _ _).1 (by decide)).mpr (by decide)
  · rw [← Bool.not_eq_true, (endsWith_exact _ _).1 (by decide)]
    decide
  · let p : Pattern := ⟨"Right.IsLocked", [.literal "Right", .literal "IsLocked"], by decide⟩
    obtain ⟨below, hbelow, hiff⟩ :=
      (endsWith_exact "Row1.Right.IsLocked" "Right.IsLocked").2.1 p p.ofText_text rfl
    exact ⟨below, hbelow, (hiff.mp hends).resolve_left (by decide)⟩

end Path

end SignalBroker
