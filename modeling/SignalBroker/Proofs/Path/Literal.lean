import SignalBroker.Proofs.Path.Language

namespace SignalBroker.Pattern

theorem readSegment_literal {text segment s : String}
    (h : readSegment text segment = .ok (.literal s)) : segment = s := by
  obtain ⟨-, hs⟩ | ⟨-, -, hs⟩ := readSegment_eq_ok_iff.mp h
  · cases hs
  · cases hs
    rfl

theorem eq_map_literal {text : String} {names : List String} {segments : List Segment}
    (h : names.mapM (readSegment text) = .ok segments) (hl : segments.all Segment.isLiteral = true) :
    segments = names.map .literal := by
  have hall := mapM_eq_ok_iff.mp h
  clear h
  induction hall with
  | nil => rfl
  | @cons name segment names segments hs _ ih =>
    obtain ⟨hs', hrest⟩ := Bool.and_eq_true_iff.mp hl
    cases segment with
    | wildcard => cases hs'
    | literal s => rw [ih hrest, List.map_cons, readSegment_literal hs]

theorem accepts_map_literal (names path : List String) :
    accepts (names.map .literal) path = true ↔ path = names := by
  induction names generalizing path with
  | nil => simp [accepts]
  | cons name names ih =>
    cases path with
    | nil => simp [accepts]
    | cons head tail => simp [accepts, ih]

theorem segments_of_isLiteral {p : Pattern} (h : p.isLiteral = true) :
    p.segments = (Path.segments p.text).map .literal := by
  have hs := p.segments_of_text
  unfold readSegments at hs
  split at hs
  · cases hs
  · exact eq_map_literal hs h

theorem matches_iff_eq_text {p : Pattern} (h : p.isLiteral = true) (path : String) :
    p.matches path = true ↔ path = p.text := by
  rw [«matches», segments_of_isLiteral h, accepts_map_literal]
  exact ⟨Path.segments_injective, congrArg Path.segments⟩

theorem mem_of_mem_splitDots {cs s : List Char} {c : Char} (hs : s ∈ Path.splitDots cs)
    (hc : c ∈ s) : c ∈ cs := by
  induction cs generalizing s with
  | nil =>
    rw [Path.splitDots, List.mem_singleton] at hs
    rw [hs] at hc
    cases hc
  | cons d cs ih =>
    unfold Path.splitDots at hs
    split at hs
    · obtain rfl | hs := List.mem_cons.mp hs
      · cases hc
      · exact List.mem_cons_of_mem _ (ih hs hc)
    · split at hs
      · obtain rfl := List.mem_singleton.mp hs
        obtain rfl := List.mem_singleton.mp hc
        exact List.mem_cons_self
      · next first others heq =>
        obtain rfl | hs := List.mem_cons.mp hs
        · obtain rfl | hc := List.mem_cons.mp hc
          · exact List.mem_cons_self
          · exact List.mem_cons_of_mem _ (ih (heq ▸ List.mem_cons_self) hc)
        · exact List.mem_cons_of_mem _ (ih (heq ▸ List.mem_cons_of_mem _ hs) hc)

theorem readSegment_wildcard {text segment : String}
    (h : readSegment text segment = .ok .wildcard) : segment = "*" := by
  obtain ⟨hname, -⟩ | ⟨-, -, hs⟩ := readSegment_eq_ok_iff.mp h
  · exact hname
  · cases hs

theorem mem_text_of_not_isLiteral {p : Pattern} (h : p.isLiteral = false) :
    '*' ∈ p.text.toList := by
  have hs := p.segments_of_text
  unfold readSegments at hs
  split at hs
  · cases hs
  · obtain ⟨segment, hm, hw⟩ := List.all_eq_false.mp h
    obtain ⟨name, hname, hread⟩ := exists_of_mem_mapM hs hm
    cases segment with
    | literal s => exact absurd rfl hw
    | wildcard =>
      obtain ⟨cs, hcs, rfl⟩ := List.mem_map.mp hname
      have hstar : cs = ['*'] := by
        simpa using congrArg String.toList (readSegment_wildcard hread)
      exact mem_of_mem_splitDots hcs (by simp [hstar])

end SignalBroker.Pattern
