import SignalBroker.Proofs.Store.Sequencing

namespace SignalBroker

theorem Store.refusal?_false (s : Store) (path : String) : s.refusal? false path =
    if s.signals.contains path then none else some (.pathNotFound path) := by
  rw [Store.refusal?, Table.contains]
  cases s.signals.find? path <;> rfl

/-- Where the read-only flag does not count, the first path that is refused is the first unknown one. -/
theorem Store.findSome?_refusal? (s : Store) (paths : List String) :
    paths.findSome? (s.refusal? false) =
      (paths.find? fun path => !s.signals.contains path).map .pathNotFound := by
  induction paths with
  | nil => rfl
  | cons path paths ih =>
    rw [List.findSome?_cons, List.find?_cons, s.refusal?_false, ih]
    cases s.signals.contains path <;> rfl

/-- A call on a store in place. There is a store after it also if it has failed. -/
abbrev InPlace (α : Type) := ExceptT AdapterError (StateM Store) α

namespace InPlace

variable {α β : Type}

def perform (call : InPlace α) (s : Store) : Except AdapterError α × Store := call.run.run s

def check (byClient : Bool) (path : String) : InPlace Unit := do
  match (← get).refusal? byClient path with
  | some e => throw e
  | none => return

structure Progress where
  changed : Bool
  pushed : Values

def takeOver (p : Progress) (row : String × SignalValue) : InPlace Progress := do
  match (← get).signals.find? row.1 with
  | none => return p
  | some signal =>
    if signal.spec.value == row.2 then return p
    else
      modify fun s =>
        { s with signals := s.signals.insert row.1 { signal with spec.value := row.2 } }
      return ⟨true, if signal.subscribed then p.pushed.insert row.1 row.2 else p.pushed⟩

def push (pushed : Values) : InPlace Delivery := do
  modify fun s => { s with seq := s.seq + 1 }
  let s ← get
  if pushed.isEmpty then return .landed s.seq
  else
    match s.stream.offer ⟨s.seq, pushed⟩ with
    | some stream =>
      modify fun s => { s with stream }
      return .landed s.seq
    | none => return .waiting

/-- A write: a loop over the paths, which may end it, and then one over the values. -/
def write (byClient : Bool) (values : Values) : InPlace Delivery := do
  values.keys.forM (check byClient)
  let p ← values.toList.foldlM takeOver ⟨false, .empty⟩
  if p.changed then push p.pushed
  else return .landed (← get).seq

def mark (subscribed : Bool) (path : String) : InPlace Unit :=
  modify fun s =>
    { s with signals := s.signals.adjust path fun signal => { signal with subscribed } }

def setSubscribed (subscribed : Bool) (paths : List String) : InPlace Unit := do
  paths.forM (check false)
  paths.forM (mark subscribed)

def readRow (path : String) : InPlace (String × SignalValue) := do
  match (← get).signals.find? path with
  | some signal => return (path, signal.spec.value)
  | none => throw (.pathNotFound path)

def read (paths : List String) : InPlace Values := do
  let rows ← paths.mapM readRow
  return .ofList rows

/-- A call in place does what a call on a store as a value has done, and has left the store as it was
if that one fails. -/
structure Performs (call : InPlace α) (s : Store) (r : Except AdapterError (Store × α)) : Prop where
  done : ∀ s' a, r = .ok (s', a) → call.perform s = (.ok a, s')
  failed : ∀ e, r = .error e → call.perform s = (.error e, s)

variable {s s' : Store} {call : InPlace α} {next : α → InPlace β}

theorem perform_get : (get : InPlace Store).perform s = (.ok s, s) := rfl

theorem perform_modify (f : Store → Store) : (modify f : InPlace Unit).perform s = (.ok (), f s) := rfl

theorem perform_bind : (call >>= next).perform s =
    match call.perform s with
    | (.ok a, s') => (next a).perform s'
    | (.error e, s') => (.error e, s') := by
  simp only [perform, ExceptT.run_bind, StateT.run_bind]
  obtain ⟨r, s'⟩ := call.run.run s
  cases r <;> rfl

theorem perform_bind_of_ok {a : α} (h : call.perform s = (.ok a, s')) :
    (call >>= next).perform s = (next a).perform s' := by
  rw [perform_bind, h]

theorem perform_bind_of_error {e : AdapterError} (h : call.perform s = (.error e, s')) :
    (call >>= next).perform s = (.error e, s') := by
  rw [perform_bind, h]

theorem perform_check (byClient : Bool) (path : String) : (check byClient path).perform s =
    ((match s.refusal? byClient path with
      | some e => .error e
      | none => .ok ()), s) := by
  rw [check, perform_bind_of_ok perform_get]
  cases s.refusal? byClient path <;> rfl

/-- The first loop ends with the first path that is refused, and it changes nothing. -/
theorem perform_checks (byClient : Bool) (paths : List String) (s : Store) :
    (paths.forM (check byClient)).perform s =
      ((match paths.findSome? (s.refusal? byClient) with
        | some e => .error e
        | none => .ok ()), s) := by
  induction paths with
  | nil => rfl
  | cons path paths ih =>
    have hcheck := perform_check (s := s) byClient path
    rw [List.findSome?_cons]
    cases hr : s.refusal? byClient path with
    | some e =>
      rw [hr] at hcheck
      exact perform_bind_of_error hcheck
    | none =>
      rw [hr] at hcheck
      exact (perform_bind_of_ok hcheck).trans ih

/-- What the second loop has done after some rows: the signals that they name have heard of them, and the
values that were new are noted. -/
structure TakenOver (s : Store) (rows : List (String × SignalValue)) (p : Progress)
    (signals : Table String Signal) : Prop where
  signals : ∀ path, signals.find? path =
    (s.signals.find? path).map fun signal => signal.hear (rows.lookup path)
  changed : p.changed = true ↔ ∃ path v, rows.lookup path = some v ∧
    ∃ u, s.value? path = some u ∧ (u == v) = false
  pushed : ∀ path v, p.pushed.find? path = some v ↔ (rows.lookup path = some v ∧
    ∃ u, s.value? path = some u ∧ (u == v) = false) ∧ s.isSubscribed path = true

variable {rows : List (String × SignalValue)} {p : Progress} {signals : Table String Signal}
  {path : String} {v : SignalValue} {signal : Signal}

theorem lookup_snoc (h : rows.lookup path = none) (other : String) :
    (rows ++ [(path, v)]).lookup other = if other = path then some v else rows.lookup other := by
  rw [List.lookup_append, Table.lookup_cons_eq_ite]
  by_cases ho : other = path
  · subst ho
    simp [h]
  · simp [ho]

theorem TakenOver.left (h : TakenOver s rows p signals) (hpath : rows.lookup path = none)
    (hsame : ∀ u, s.value? path = some u → (u == v) = true) :
    TakenOver s (rows ++ [(path, v)]) p signals where
  signals other := by
    rw [h.signals, lookup_snoc hpath]
    by_cases ho : other = path
    · subst ho
      cases hs : s.signals.find? other with
      | none => rfl
      | some signal =>
        have hv : (signal.spec.value == v) = true := hsame _ (by rw [Store.value?, hs]; rfl)
        simp [hpath, Signal.hear, hv]
    · rw [if_neg ho]
  changed := by
    rw [h.changed]
    refine exists_congr fun other => exists_congr fun w => ?_
    rw [lookup_snoc hpath]
    by_cases ho : other = path
    · subst ho
      simp only [hpath, if_pos]
      grind
    · rw [if_neg ho]
  pushed other w := by
    rw [h.pushed, lookup_snoc hpath]
    by_cases ho : other = path
    · subst ho
      simp only [hpath, if_pos]
      grind
    · rw [if_neg ho]

theorem TakenOver.took (h : TakenOver s rows p signals) (hpath : rows.lookup path = none)
    (hs : s.signals.find? path = some signal) (hnew : (signal.spec.value == v) = false) :
    TakenOver s (rows ++ [(path, v)])
      ⟨true, if signal.subscribed then p.pushed.insert path v else p.pushed⟩
      (signals.insert path { signal with spec.value := v }) where
  signals other := by
    rw [Table.find?_insert, h.signals, lookup_snoc hpath]
    by_cases ho : other = path
    · subst ho
      simp [hs, Signal.hear, hnew]
    · rw [if_neg ho, if_neg ho]
  changed := by
    refine iff_of_true rfl ⟨path, v, ?_, signal.spec.value, ?_, hnew⟩
    · rw [lookup_snoc hpath, if_pos rfl]
    · rw [Store.value?, hs]
      rfl
  pushed other w := by
    have hold := h.pushed other w
    have hsub : s.isSubscribed path = signal.subscribed := by rw [Store.isSubscribed, hs]; rfl
    have hvalue : s.value? path = some signal.spec.value := by rw [Store.value?, hs]; rfl
    rw [lookup_snoc hpath]
    by_cases ho : other = path
    · subst ho
      rw [hpath] at hold
      cases hsubscribed : signal.subscribed <;> simp [hold, hsub, hvalue, hsubscribed]
      grind
    · rw [if_neg ho, ← hold]
      cases signal.subscribed <;> simp [ho]

theorem perform_takeOver (s : Store) (p : Progress) (path : String) (v : SignalValue) :
    (takeOver p (path, v)).perform s =
      match s.signals.find? path with
      | none => (.ok p, s)
      | some signal =>
        if signal.spec.value == v then (.ok p, s)
        else (.ok ⟨true, if signal.subscribed then p.pushed.insert path v else p.pushed⟩,
          { s with signals := s.signals.insert path { signal with spec.value := v } }) := by
  rw [takeOver, perform_bind_of_ok perform_get]
  cases s.signals.find? path with
  | none => rfl
  | some signal => cases hv : signal.spec.value == v <;> simp only [hv] <;> rfl

theorem perform_takeOvers (s : Store) (rows : List (String × SignalValue))
    (hd : (rows.map (·.1)).Nodup) : ∃ p signals,
      (rows.foldlM takeOver ⟨false, .empty⟩).perform s = (.ok p, { s with signals }) ∧
        TakenOver s rows p signals := by
  induction rows using List.reverseRecOn with
  | nil =>
    refine ⟨⟨false, .empty⟩, s.signals, rfl, ?_, by simp, by simp⟩
    intro path
    cases s.signals.find? path <;> rfl
  | append_singleton rows row ih =>
    obtain ⟨path, v⟩ := row
    rw [List.map_append, List.nodup_append] at hd
    obtain ⟨hrows, -, hnew⟩ := hd
    obtain ⟨p, signals, hloop, htaken⟩ := ih hrows
    have hpath : rows.lookup path = none := by
      rw [List.lookup_eq_none_iff]
      intro row hrow
      exact bne_iff_ne.mpr (Ne.symm (hnew _ (List.mem_map_of_mem hrow) path (by simp)))
    -- no earlier row has touched the path, so the loop finds it as it was before the write
    have hsignal : signals.find? path = s.signals.find? path := by
      rw [htaken.signals, hpath]
      cases s.signals.find? path <;> rfl
    have hvalue : s.value? path = (s.signals.find? path).map (·.spec.value) := rfl
    have hstep := perform_takeOver { s with signals } p path v
    simp only [hsignal] at hstep
    rw [List.foldlM_append, perform_bind_of_ok hloop]
    change ∃ p' signals', (takeOver p (path, v) >>= pure).perform { s with signals } = _ ∧ _
    rw [bind_pure, hstep]
    cases hs : s.signals.find? path with
    | none => exact ⟨p, signals, rfl, htaken.left hpath (by simp [hvalue, hs])⟩
    | some signal =>
      simp only
      cases hsame : signal.spec.value == v with
      | true => exact ⟨p, signals, rfl, htaken.left hpath (by simpa [hvalue, hs] using hsame)⟩
      | false => exact ⟨_, _, rfl, htaken.took hpath hs hsame⟩

theorem perform_push (pushed : Values) (s : Store) : (push pushed).perform s =
    (match ({ s with seq := s.seq + 1 } : Store).deliver
        (if pushed.isEmpty then none else some ⟨s.seq + 1, pushed⟩) with
      | (s', d) => (.ok d, s')) := by
  rw [push, perform_bind_of_ok (perform_modify _), perform_bind_of_ok perform_get]
  cases pushed.isEmpty with
  | true => rfl
  | false =>
    simp only [Bool.false_eq_true, if_false, Store.deliver]
    cases s.stream.offer ⟨s.seq + 1, pushed⟩ <;> rfl

theorem TakenOver.commit {values : Values} (h : TakenOver s values.rows p signals) :
    s.commit values = if p.changed then
        ({ s with signals, seq := s.seq + 1 },
          if p.pushed.isEmpty then none else some ⟨s.seq + 1, p.pushed⟩)
      else ({ s with signals }, none) := by
  have hchanged : (s.changes values).isEmpty = !p.changed := by
    rw [Bool.eq_iff_iff, Store.changes_isEmpty_iff, Bool.not_eq_true', ← Bool.not_eq_true, h.changed]
    rfl
  have hpushed : s.pushed values = p.pushed := by
    ext path : 1
    apply Option.ext
    intro v
    rw [Store.find?_pushed_eq_some_iff, h.pushed]
    rfl
  rw [Store.commit_eq, hchanged, hpushed]
  cases hp : p.changed with
  | true =>
    have hsignals : s.setValues (s.changes values) = signals := by
      ext path : 1
      rw [Store.find?_setValues_changes, h.signals]
      rfl
    simp [Store.taken, hsignals]
  | false =>
    have hsignals : signals = s.signals := by
      ext path : 1
      rw [h.signals]
      cases hs : s.signals.find? path with
      | none => rfl
      | some signal =>
        have hempty : (s.changes values).isEmpty = true := by rw [hchanged, hp]; rfl
        exact congrArg some (Store.hear_of_isEmpty hempty hs)
    simp [hsignals]

/-- The loops of a write, put together, do what the write does to the store as a value. -/
theorem performs_write (byClient : Bool) (values : Values) (s : Store) :
    (write byClient values).Performs s (s.write byClient values) := by
  have hchecks := perform_checks byClient values.keys s
  obtain ⟨p, signals, hloop, htaken⟩ := perform_takeOvers s values.rows values.keys_nodup
  unfold Store.write
  cases hfirst : values.keys.findSome? (s.refusal? byClient) with
  | some e =>
    rw [hfirst] at hchecks
    refine ⟨by simp, ?_⟩
    intro e' he
    cases he
    exact perform_bind_of_error hchecks
  | none =>
    rw [hfirst] at hchecks
    refine ⟨?_, by simp⟩
    intro s' d hd
    simp only [htaken.commit, Except.ok.injEq] at hd
    rw [write, perform_bind_of_ok hchecks, Table.toList, perform_bind_of_ok hloop]
    cases hp : p.changed with
    | true =>
      rw [hp] at hd
      simp only [if_true] at hd ⊢
      rw [perform_push]
      exact congrArg (fun r : Store × Delivery => (Except.ok r.2, r.1)) hd
    | false =>
      rw [hp] at hd
      cases hd
      rfl

theorem perform_marks (subscribed : Bool) (paths : List String) (s : Store) :
    (paths.forM (mark subscribed)).perform s = (.ok (),
      { s with signals := s.signals.map fun path signal =>
        if paths.contains path then { signal with subscribed } else signal }) := by
  induction paths generalizing s with
  | nil =>
    have hsignals : (s.signals.map fun path signal =>
        if ([] : List String).contains path then { signal with subscribed } else signal) =
        s.signals := by
      ext path : 1
      rw [Table.find?_map]
      cases s.signals.find? path <;> rfl
    rw [hsignals]
    rfl
  | cons path paths ih =>
    refine (perform_bind_of_ok (perform_modify _)).trans ?_
    rw [ih]
    congr 2
    ext other : 1
    simp only [Table.find?_map, Table.find?_adjust]
    by_cases ho : other = path <;> by_cases hm : other ∈ paths <;>
      cases s.signals.find? other <;> simp [ho, hm]

theorem performs_setSubscribed (subscribed : Bool) (paths : List String) (s : Store) :
    (setSubscribed subscribed paths).Performs s
      ((s.setSubscribed subscribed paths).map fun s' => (s', ())) := by
  have hchecks := perform_checks false paths s
  rw [Store.findSome?_refusal?] at hchecks
  unfold Store.setSubscribed
  cases hfirst : paths.find? fun path => !s.signals.contains path with
  | some path =>
    rw [hfirst] at hchecks
    refine ⟨by simp [Except.map], ?_⟩
    intro e he
    cases he
    exact perform_bind_of_error hchecks
  | none =>
    rw [hfirst] at hchecks
    refine ⟨?_, by simp [Except.map]⟩
    intro s' a hs
    cases hs
    exact (perform_bind_of_ok hchecks).trans (perform_marks subscribed paths s)

theorem perform_readRow (path : String) : (readRow path).perform s =
    ((do return (path, (← s.spec? path).value)), s) := by
  rw [readRow, perform_bind_of_ok perform_get, Store.spec?]
  cases s.signals.find? path <;> rfl

theorem perform_readRows (paths : List String) : (paths.mapM readRow).perform s =
    (paths.mapM fun path => do return (path, (← s.spec? path).value), s) := by
  induction paths with
  | nil => rfl
  | cons path paths ih =>
    have hrow := perform_readRow (s := s) path
    rw [List.mapM_cons, List.mapM_cons]
    cases hspec : s.spec? path with
    | error e =>
      rw [hspec] at hrow
      exact perform_bind_of_error hrow
    | ok spec =>
      rw [hspec] at hrow
      rw [perform_bind_of_ok hrow, perform_bind, ih]
      cases paths.mapM fun path => do return (path, (← s.spec? path).value) <;> rfl

theorem performs_read (paths : List String) (s : Store) :
    (read paths).Performs s ((s.get paths).map fun values => (s, values)) := by
  have hrows := perform_readRows (s := s) paths
  have hread : (read paths).perform s = (s.get paths, s) := by
    rw [read, perform_bind, hrows, Store.get]
    cases paths.mapM fun path => do return (path, (← s.spec? path).value) <;> rfl
  cases hget : s.get paths with
  | error e =>
    rw [hget] at hread
    refine ⟨by simp [Except.map], ?_⟩
    intro e' he
    cases he
    exact hread
  | ok values =>
    rw [hget] at hread
    refine ⟨?_, by simp [Except.map]⟩
    intro s' a hs
    cases hs
    exact hread

end InPlace

end SignalBroker
