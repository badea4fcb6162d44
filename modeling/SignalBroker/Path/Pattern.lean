import SignalBroker.Path.Segments

namespace SignalBroker

inductive PatternError where
  | empty
  | emptySegment (pattern : String)
  | partialWildcard (pattern segment : String)
  deriving DecidableEq

def PatternError.message : PatternError → String
  | .empty => "invalid pattern: pattern is empty"
  | .emptySegment pattern => "invalid pattern '" ++ pattern ++ "': empty segment"
  | .partialWildcard pattern segment =>
    "invalid pattern '" ++ pattern ++ "': wildcard must be a whole segment, got '" ++ segment ++ "'"

namespace Pattern

inductive Segment where
  | literal (s : String)
  | wildcard
  deriving DecidableEq

def readSegment (pattern segment : String) : Except PatternError Segment :=
  if segment = "" then .error (.emptySegment pattern)
  else if segment = "*" then .ok .wildcard
  else if segment.toList.contains '*' then .error (.partialWildcard pattern segment)
  else .ok (.literal segment)

def readSegments (pattern : String) : Except PatternError (List Segment) :=
  if pattern = "" then .error .empty
  else (Path.segments pattern).mapM (readSegment pattern)

/-- Whether the segments of a path can be cut into runs, one for each segment of the pattern. A
wildcard takes the first segment and then either no more or more of them. -/
def accepts : List Segment → List String → Bool
  | [], path => path.isEmpty
  | _ :: _, [] => false
  | .literal s :: rest, head :: tail => head == s && accepts rest tail
  | .wildcard :: rest, _ :: tail => accepts rest tail || accepts (.wildcard :: rest) tail

/-- The segments of a path are cut into runs: a literal covers itself, a wildcard any run that is
not empty. -/
inductive Covers : List Segment → List String → Prop where
  | nil : Covers [] []
  | literal {s rest path} : Covers rest path → Covers (.literal s :: rest) (s :: path)
  | wildcard {run rest path} : run ≠ [] → Covers rest path → Covers (.wildcard :: rest) (run ++ path)

theorem covers_of_accepts {pattern : List Segment} {path : List String}
    (h : accepts pattern path = true) : Covers pattern path := by
  fun_induction accepts pattern path with
  | case1 path => rw [List.isEmpty_iff.mp h]; exact .nil
  | case2 => cases h
  | case3 s rest head tail ih =>
    simp only [Bool.and_eq_true, beq_iff_eq] at h
    rw [h.1]
    exact .literal (ih h.2)
  | case4 rest head tail ih₁ ih₂ =>
    rcases Bool.or_eq_true_iff.mp h with h | h
    · exact @Covers.wildcard [head] _ _ (by simp) (ih₁ h)
    · generalize hp : Segment.wildcard :: rest = pattern at ih₂ h
      have hc := ih₂ h
      cases hc with
      | nil => cases hp
      | literal => cases hp
      | @wildcard run _ path hne hrest =>
        cases hp
        exact @Covers.wildcard (head :: run) _ _ (by simp) hrest

theorem accepts_wildcard_append {rest : List Segment} {run path : List String} (hne : run ≠ [])
    (h : accepts rest path = true) : accepts (.wildcard :: rest) (run ++ path) = true := by
  induction run with
  | nil => exact absurd rfl hne
  | cons head run ih =>
    simp only [List.cons_append, accepts, Bool.or_eq_true]
    cases run with
    | nil => exact .inl h
    | cons next run => exact .inr (ih (by simp))

theorem accepts_of_covers {pattern : List Segment} {path : List String}
    (h : Covers pattern path) : accepts pattern path = true := by
  induction h with
  | nil => rfl
  | literal _ ih => simpa [accepts] using ih
  | wildcard hne _ ih => exact accepts_wildcard_append hne ih

theorem accepts_iff_covers {pattern : List Segment} {path : List String} :
    accepts pattern path = true ↔ Covers pattern path :=
  ⟨covers_of_accepts, accepts_of_covers⟩

end Pattern

structure Pattern where
  text : String
  segments : List Pattern.Segment
  segments_of_text : Pattern.readSegments text = .ok segments

namespace Pattern

def ofText (text : String) : Except PatternError Pattern :=
  match h : readSegments text with
  | .ok segments => .ok ⟨text, segments, h⟩
  | .error e => .error e

def «matches» (p : Pattern) (path : String) : Bool :=
  accepts p.segments (Path.segments path)

def Segment.isLiteral : Segment → Bool
  | .literal _ => true
  | .wildcard => false

def isLiteral (p : Pattern) : Bool :=
  p.segments.all Segment.isLiteral

theorem eq_of_text_eq {p q : Pattern} (h : p.text = q.text) : p = q := by
  obtain ⟨t, s, hs⟩ := p
  obtain ⟨t', s', hs'⟩ := q
  subst h
  cases hs.symm.trans hs'
  rfl

theorem text_of_ofText {text : String} {p : Pattern} (h : ofText text = .ok p) : p.text = text := by
  unfold ofText at h
  split at h
  · cases h; rfl
  · cases h

theorem ofText_text (p : Pattern) : ofText p.text = .ok p := by
  unfold ofText
  split
  · next segments h => exact congrArg Except.ok (eq_of_text_eq rfl)
  · next e h => rw [p.segments_of_text] at h; cases h

theorem matches_iff_covers (p : Pattern) (path : String) :
    p.matches path = true ↔ Covers p.segments (Path.segments path) :=
  accepts_iff_covers

end Pattern

end SignalBroker
