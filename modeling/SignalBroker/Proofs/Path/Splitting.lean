import SignalBroker.Path.Segments

namespace SignalBroker.Path

theorem splitDots_eq_splitOn (cs : List Char) : splitDots cs = cs.splitOn '.' := by
  induction cs with
  | nil => rfl
  | cons c cs ih =>
    rw [splitDots, List.splitOn_cons_eq_if_modifyHead, ih]
    by_cases hc : c = '.'
    · simp [hc]
    · cases hs : cs.splitOn '.' with
      | nil => exact absurd hs (List.splitOn_ne_nil _ _)
      | cons s ss => simp [hc]

theorem not_mem_of_mem_splitDots {cs s : List Char} (h : s ∈ splitDots cs) : '.' ∉ s := by
  induction cs generalizing s with
  | nil => simp_all [splitDots]
  | cons c cs ih =>
    rw [splitDots_eq_splitOn, List.splitOn_cons_eq_if_modifyHead, ← splitDots_eq_splitOn] at h
    by_cases hc : c = '.'
    · obtain rfl | h := List.mem_cons.mp (by simpa [hc] using h)
      · simp
      · exact ih h
    · cases hs : splitDots cs with
      | nil => exact absurd hs (splitDots_ne_nil cs)
      | cons first others =>
        rw [hs] at ih h
        obtain rfl | h := List.mem_cons.mp (by simpa [hc] using h)
        · simp [Ne.symm hc, ih List.mem_cons_self]
        · exact ih (List.mem_cons_of_mem _ h)

theorem segments_eq_iff {path : String} {names : List String} : segments path = names ↔
    names ≠ [] ∧ (∀ name ∈ names, '.' ∉ name.toList) ∧ ".".intercalate names = path := by
  constructor
  · rintro rfl
    refine ⟨segments_ne_nil path, ?_, ?_⟩
    · intro name hname
      obtain ⟨s, hs, rfl⟩ := List.mem_map.mp hname
      simpa using not_mem_of_mem_splitDots hs
    · apply String.toList_injective
      simp [segments, splitDots_eq_splitOn, Function.comp_def]
  · rintro ⟨hne, hdots, rfl⟩
    have hdots' : ∀ s ∈ names.map String.toList, '.' ∉ s := by simpa using hdots
    have hsplit := List.splitOn_intercalate '.' hdots' (by simpa using hne)
    simp [segments, splitDots_eq_splitOn, hsplit, Function.comp_def]

theorem intercalate_segments (path : String) : ".".intercalate (segments path) = path :=
  (segments_eq_iff.mp rfl).2.2

theorem segments_append_dot (before after : String) :
    segments (before ++ "." ++ after) = segments before ++ segments after := by
  simp [segments, splitDots_eq_splitOn, List.splitOn_append_cons_self]

end SignalBroker.Path
