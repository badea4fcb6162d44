namespace SignalBroker.Path

/-- The segments of a path. There is always at least one, and a segment may be empty. -/
def splitDots : List Char → List (List Char)
  | [] => [[]]
  | c :: cs =>
    if c = '.' then [] :: splitDots cs
    else match splitDots cs with
      | [] => [[c]]
      | s :: ss => (c :: s) :: ss

def joinDots : List (List Char) → List Char
  | [] => []
  | [s] => s
  | s :: ss => s ++ '.' :: joinDots ss

theorem splitDots_ne_nil (cs : List Char) : splitDots cs ≠ [] := by
  cases cs with
  | nil => simp [splitDots]
  | cons c cs =>
    unfold splitDots
    split
    · simp
    · split <;> simp

theorem joinDots_cons_of_ne_nil (s : List Char) {ss : List (List Char)} (h : ss ≠ []) :
    joinDots (s :: ss) = s ++ '.' :: joinDots ss := by
  cases ss with
  | nil => exact absurd rfl h
  | cons t ts => rfl

theorem joinDots_cons_cons (c : Char) (s : List Char) (ss : List (List Char)) :
    joinDots ((c :: s) :: ss) = c :: joinDots (s :: ss) := by
  cases ss <;> rfl

@[simp] theorem joinDots_splitDots (cs : List Char) : joinDots (splitDots cs) = cs := by
  induction cs with
  | nil => rfl
  | cons c cs ih =>
    unfold splitDots
    split
    · next h => rw [joinDots_cons_of_ne_nil _ (splitDots_ne_nil cs), ih, h]; rfl
    · next h =>
      split
      · next hs => exact absurd hs (splitDots_ne_nil cs)
      · next s ss hs => rw [joinDots_cons_cons, ← hs, ih]

theorem splitDots_injective {a b : List Char} (h : splitDots a = splitDots b) : a = b := by
  rw [← joinDots_splitDots a, h, joinDots_splitDots]

def segments (path : String) : List String :=
  (splitDots path.toList).map String.ofList

theorem segments_injective {a b : String} (h : segments a = segments b) : a = b := by
  have hs : splitDots a.toList = splitDots b.toList := by
    refine (List.map_inj_right fun x y hxy => ?_).mp h
    simpa using congrArg String.toList hxy
  simpa using congrArg String.ofList (splitDots_injective hs)

theorem segments_ne_nil (path : String) : segments path ≠ [] := by
  simp [segments, splitDots_ne_nil]

def dropSuffix? (cs suffix : List Char) : Option (List Char) :=
  if suffix.isSuffixOf cs then some (cs.take (cs.length - suffix.length)) else none

def endsWith (path suffix : String) : Bool :=
  if suffix.isEmpty then false
  else match dropSuffix? path.toList suffix.toList with
    | none => false
    | some head => head.isEmpty || head.getLast? == some '.'

/-- The path of a signal below a root. Without a root the name itself is the path. -/
def under (root name : String) : String :=
  if root.isEmpty then name else root ++ "." ++ name

theorem under_injective {root a b : String} (h : under root a = under root b) : a = b := by
  unfold under at h
  split at h
  · exact h
  · have hlist := congrArg String.toList h
    simp only [String.toList_append] at hlist
    exact String.toList_injective (List.append_cancel_left hlist)

end SignalBroker.Path
