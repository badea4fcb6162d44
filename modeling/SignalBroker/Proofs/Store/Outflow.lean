import SignalBroker.Proofs.Broker.Replay
import SignalBroker.Proofs.Store.History

/-!
What comes out of the stream of a store. Whoever starts from the values of a store with nothing in its
stream, and puts every batch that has entered the stream since over them, has the present value of a
path that stays subscribed, unless the last batch to tell of it was given up by a writer that waited
for room: a write commits its values before the stream has its batch, and nothing takes them back.
-/

namespace SignalBroker

/-- A store and what has become of its batches. Only the reader may move on while a writer waits. -/
structure Outflow where
  store : Store
  received : List Batch
  /-- The batch of the writer that waits for room. -/
  waiting : Option Batch
  /-- The batches of writers that have given up. -/
  abandoned : List Batch

namespace Outflow

def ofStore (s : Store) : Outflow := ⟨s, [], none, []⟩

def entered (o : Outflow) : List Batch := o.received ++ o.store.stream.queue

def told (o : Outflow) (base : Values) : Values := base.replay (o.entered.map (·.values))

/-- One step of a writer, of the reader, or of whoever chooses what is subscribed. -/
inductive Step : Outflow → Outflow → Prop where
  | wrote {o : Outflow} {byClient values s n} (hidle : o.waiting = none)
    (hw : o.store.write byClient values = .ok (s, .landed n)) : Step o { o with store := s }
  | stuck {o : Outflow} {byClient values s} (hidle : o.waiting = none)
    (hw : o.store.write byClient values = .ok (s, .waiting)) :
    Step o { o with store := s, waiting := (o.store.commit values).2 }
  | resumed {o : Outflow} {b stream} (hb : o.waiting = some b)
    (ho : o.store.stream.offer b = some stream) :
    Step o { o with store := { o.store with stream }, waiting := none }
  | gaveUp {o : Outflow} {b} (hb : o.waiting = some b) :
    Step o { o with waiting := none, abandoned := o.abandoned ++ [b] }
  | marked {o : Outflow} {subscribed paths s} (hidle : o.waiting = none)
    (hs : o.store.setSubscribed subscribed paths = .ok s) : Step o { o with store := s }
  | released {o : Outflow} (hidle : o.waiting = none) :
    Step o { o with store := o.store.unsubscribeAll }
  | received {o : Outflow} {b stream} (hp : o.store.stream.pop = some (b, stream)) :
    Step o { o with store := { o.store with stream }, received := o.received ++ [b] }
  | taken (o : Outflow) :
    Step o { o with store := { o.store with stream := o.store.stream.take.2 } }

inductive Keeping (path : String) (s : Store) : Outflow → Prop where
  | start (h : s.isSubscribed path = true) : Keeping path s (ofStore s)
  | step {o o' : Outflow} (h : Keeping path s o) (hs : Step o o')
    (hp : o'.store.isSubscribed path = true) : Keeping path s o'

/-- The batch that a write waits with tells what the write has changed, and is newer than all that
have entered the stream. -/
structure Pending (o : Outflow) (b : Batch) : Prop where
  newer : ∀ c ∈ o.entered, c.seq < b.seq
  bound : b.seq ≤ o.store.seq
  value : ∀ path v, b.values.find? path = some v → o.store.value? path = some v

/-- The path has its value from a batch that is not in the stream, and no later one in it tells of it. -/
structure Missed (o : Outflow) (path : String) (b : Batch) : Prop where
  value : ∃ v, b.values.find? path = some v ∧ o.store.value? path = some v
  last : ∀ c ∈ o.entered, (c.values.find? path).isSome = true → c.seq < b.seq

/-- What the stream has told of a path accounts for its value, or a batch does that is not in it. -/
structure Accounts (path : String) (base : Values) (o : Outflow) : Prop where
  isOpen : o.store.stream.closed = false
  bound : ∀ c ∈ o.entered, c.seq ≤ o.store.seq
  pending : ∀ b, o.waiting = some b → o.Pending b
  value : (o.told base).find? path = o.store.value? path ∨
    ∃ b, (b ∈ o.abandoned ∨ o.waiting = some b) ∧ o.Missed path b

variable {o o' : Outflow} {path : String} {base : Values} {b : Batch}

theorem entered_of_offer {stream : ChangeStream} (hopen : o.store.stream.closed = false)
    (ho : o.store.stream.offer b = some stream) : o.received ++ stream.queue = o.entered ++ [b] := by
  rw [entered, ChangeStream.queue_offer hopen ho, List.append_assoc]

theorem entered_of_pop {stream : ChangeStream} (hp : o.store.stream.pop = some (b, stream)) :
    (o.received ++ [b]) ++ stream.queue = o.entered := by
  rw [entered, Store.mem_of_pop hp, List.append_assoc]
  rfl

theorem find?_told_append (h : o'.entered = o.entered ++ [b]) :
    (o'.told base).find? path = (b.values.find? path).or ((o.told base).find? path) := by
  rw [told, h, List.map_append, Values.replay_append]
  exact Table.find?_merge _ _ _

theorem Accounts.aside (h : o.Accounts path base) (hopen : o'.store.stream.closed = false)
    (he : o'.entered = o.entered) (hseq : o.store.seq ≤ o'.store.seq)
    (hpending : ∀ b, o'.waiting = some b → o'.Pending b)
    (hvalue : o'.store.value? path = o.store.value? path)
    (hout : ∀ b, b ∈ o.abandoned ∨ o.waiting = some b → b ∈ o'.abandoned ∨ o'.waiting = some b) :
    o'.Accounts path base where
  isOpen := hopen
  bound := by
    intro c hc
    rw [he] at hc
    exact Nat.le_trans (h.bound c hc) hseq
  pending := hpending
  value := by
    have htold : o'.told base = o.told base := by rw [told, he, ← told]
    rw [htold, hvalue]
    refine h.value.imp_right ?_
    rintro ⟨b, hb, hm⟩
    refine ⟨b, hout b hb, ?_, ?_⟩
    · rw [hvalue]
      exact hm.value
    · rw [he]
      exact hm.last

/-- A batch enters the stream that tells of the path what its value is, or else nothing while the
value stays. -/
theorem Accounts.enters (h : o.Accounts path base) (hopen : o'.store.stream.closed = false)
    (he : o'.entered = o.entered ++ [b]) (hseq : o.store.seq ≤ o'.store.seq)
    (hb : b.seq ≤ o'.store.seq) (hidle : o'.waiting = none)
    (hvalue : ∀ v, b.values.find? path = some v → o'.store.value? path = some v)
    (hquiet : b.values.find? path = none → o'.store.value? path = o.store.value? path)
    (hout : o.abandoned = o'.abandoned) (hwaiting : ∀ c, o.waiting = some c → c = b) :
    o'.Accounts path base where
  isOpen := hopen
  bound := by
    intro c hc
    rw [he, List.mem_append, List.mem_singleton] at hc
    obtain hc | rfl := hc
    · exact Nat.le_trans (h.bound c hc) hseq
    · exact hb
  pending := by
    intro c hc
    rw [hidle] at hc
    cases hc
  value := by
    rw [find?_told_append he]
    cases hfind : b.values.find? path with
    | some v => exact .inl (hvalue v hfind).symm
    | none =>
      rw [hquiet hfind, Option.none_or]
      refine h.value.imp_right ?_
      rintro ⟨c, hc, hm⟩
      obtain hc | hc := hc
      · refine ⟨c, .inl (hout ▸ hc), ?_, ?_⟩
        · rw [hquiet hfind]
          exact hm.value
        · intro d hd htells
          rw [he, List.mem_append, List.mem_singleton] at hd
          obtain hd | rfl := hd
          · exact hm.last d hd htells
          · rw [hfind] at htells
            cases htells
      · -- the batch that enters is the one that was waited with, and it does not tell of the path
        obtain ⟨v, hv, -⟩ := hm.value
        rw [hwaiting c hc, hfind] at hv
        cases hv

theorem subscribed_of {s : Store} (h : s.isSubscribed path = true) (signal : Signal)
    (hs : s.signals.find? path = some signal) : signal.subscribed = true := by
  simpa [Store.isSubscribed, hs] using h

theorem accounts_wrote (h : o.Accounts path base) (hsub : o.store.isSubscribed path = true)
    (hidle : o.waiting = none) {values : Values} {s : Store} {n : Nat}
    (hw : o.store.Written values s (.landed n)) : { o with store := s }.Accounts path base := by
  have hnone : ∀ c, o.waiting ≠ some c := by simp [hidle]
  have hopen := hw.closed.trans h.isOpen
  have hvalue : ∀ v, (o.store.pushed values).find? path = some v → s.value? path = some v :=
    fun _ => Store.value?_of_pushed hw
  have hquiet := hw.value?_of_not_pushed (subscribed_of hsub)
  cases hw with
  | unchanged => exact h
  | unheard _ hp =>
    exact h.aside hopen rfl (Nat.le_succ _) (fun c hc => (hnone c hc).elim)
      (hquiet ((Table.isEmpty_iff _).mp hp path)) (fun _ => id)
  | @sent stream _ _ ho =>
    exact h.enters (b := ⟨o.store.seq + 1, o.store.pushed values⟩) hopen
      (entered_of_offer h.isOpen ho) (Nat.le_succ _) (Nat.le_refl _) hidle hvalue hquiet rfl
      (fun c hc => (hnone c hc).elim)

theorem accounts_stuck (h : o.Accounts path base) (hsub : o.store.isSubscribed path = true)
    (hidle : o.waiting = none) {values : Values} {s : Store}
    (hw : o.store.Written values s .waiting) :
    { o with store := s, waiting := (o.store.commit values).2 }.Accounts path base := by
  have hvalue : ∀ path v, (o.store.pushed values).find? path = some v → s.value? path = some v :=
    fun _ _ => Store.value?_of_pushed hw
  have hquiet := hw.value?_of_not_pushed (subscribed_of hsub)
  have hcommit := hw.commit
  cases hw with
  | stuck =>
    have hnewer : ∀ c ∈ o.entered, c.seq < o.store.seq + 1 :=
      fun c hc => Nat.lt_succ_of_le (h.bound c hc)
    let b : Batch := ⟨o.store.seq + 1, o.store.pushed values⟩
    rw [hcommit]
    cases hfind : (o.store.pushed values).find? path with
    | none =>
      refine h.aside h.isOpen rfl (Nat.le_succ _) ?_ (hquiet hfind) ?_
      · rintro _ ⟨⟩
        exact ⟨hnewer, Nat.le_refl _, hvalue⟩
      · intro c hc
        rw [hidle] at hc
        exact hc.imp_right nofun
    | some v =>
      refine ⟨h.isOpen, fun c hc => Nat.le_succ_of_le (h.bound c hc), ?_, .inr ⟨b, .inr rfl, ?_⟩⟩
      · rintro _ ⟨⟩
        exact ⟨hnewer, Nat.le_refl _, hvalue⟩
      · exact ⟨⟨v, hfind, hvalue path v hfind⟩, fun c hc _ => hnewer c hc⟩

theorem accounts_resumed (h : o.Accounts path base) {b : Batch} {stream : ChangeStream}
    (hb : o.waiting = some b) (ho : o.store.stream.offer b = some stream) :
    { o with store := { o.store with stream }, waiting := none }.Accounts path base := by
  obtain ⟨-, hle, hvalue⟩ := h.pending b hb
  refine h.enters (b := b) ((Store.closed_of_offer ho).trans h.isOpen) (entered_of_offer h.isOpen ho)
    (Nat.le_refl _) hle rfl (hvalue path) (fun _ => rfl) rfl ?_
  intro c hc
  cases hb.symm.trans hc
  rfl

theorem accounts_received (h : o.Accounts path base) {b : Batch} {stream : ChangeStream}
    (hp : o.store.stream.pop = some (b, stream)) :
    Accounts path base
      { o with store := { o.store with stream }, received := o.received ++ [b] } := by
  have he := entered_of_pop hp
  refine h.aside ((Store.closed_of_pop hp).trans h.isOpen) he (Nat.le_refl _) ?_ rfl (fun _ => id)
  intro c hc
  obtain ⟨hnewer, hle, hvalue⟩ := h.pending c hc
  refine ⟨?_, hle, hvalue⟩
  intro d hd
  exact hnewer d (he ▸ hd)

theorem accounts_step (h : o.Accounts path base) (hsub : o.store.isSubscribed path = true)
    (hs : Step o o') : o'.Accounts path base := by
  cases hs with
  | wrote hidle hw => exact accounts_wrote h hsub hidle (Store.written_of_write hw)
  | stuck hidle hw => exact accounts_stuck h hsub hidle (Store.written_of_write hw)
  | resumed hb ho => exact accounts_resumed h hb ho
  | @gaveUp b hb =>
    refine h.aside h.isOpen rfl (Nat.le_refl _) nofun rfl ?_
    rintro c (hc | hc)
    · exact .inl (List.mem_append_left _ hc)
    · cases hb.symm.trans hc
      exact .inl (List.mem_append_right _ (List.mem_singleton.mpr rfl))
  | @marked subscribed paths s hidle hs =>
    obtain ⟨hseq, hstream, -⟩ := Store.setSubscribed_eq_ok hs
    refine h.aside ?_ ?_ (Nat.le_of_eq hseq.symm) (by simp [hidle]) ?_ (fun _ => id)
    · rw [hstream, h.isOpen]
    · simp only [entered, hstream]
    · rw [← s.find?_snapshot, ← o.store.find?_snapshot, Store.snapshot_of_setSubscribed hs]
  | released hidle =>
    refine h.aside h.isOpen rfl (Nat.le_refl _) (by simp [hidle]) ?_ (fun _ => id)
    rw [← o.store.unsubscribeAll.find?_snapshot, ← o.store.find?_snapshot,
      o.store.snapshot_unsubscribeAll]
  | received hp => exact accounts_received h hp
  | taken =>
    refine h.aside h.isOpen rfl (Nat.le_refl _) ?_ rfl (fun _ => id)
    intro b hb
    exact ⟨(h.pending b hb).newer, (h.pending b hb).bound, (h.pending b hb).value⟩

theorem accounts_of_keeping {s : Store} (hopen : s.stream.closed = false)
    (hq : s.stream.queue = []) (h : Keeping path s o) :
    o.Accounts path s.snapshot ∧ o.store.isSubscribed path = true := by
  induction h with
  | start h =>
    have he : (ofStore s).entered = [] := hq
    refine ⟨⟨hopen, by simp [he], nofun, .inl ?_⟩, h⟩
    rw [told, he]
    exact s.find?_snapshot path
  | step _ hs hp ih => exact ⟨accounts_step ih.1 ih.2 hs, hp⟩

/-- The batches that have entered the stream, in whatever order writers, the reader and subscribers
have come, tell the value that a subscribed path has, unless a writer has given up that changed the
path after the last of them to tell of it. -/
theorem told_or_abandoned {s : Store} (hopen : s.stream.closed = false) (hq : s.stream.queue = [])
    (h : Keeping path s o) (hidle : o.waiting = none) :
    (o.told s.snapshot).find? path = o.store.value? path ∨ ∃ b ∈ o.abandoned, o.Missed path b := by
  refine (accounts_of_keeping hopen hq h).1.value.imp_right ?_
  rintro ⟨b, hb | hb, hm⟩
  · exact ⟨b, hb, hm⟩
  · cases hidle.symm.trans hb

def tiny : Store :=
  { name := "tiny"
    signals := .ofList [("Speed", ⟨⟨.number (.natural 0), true, false⟩, true⟩)]
    seq := 0
    stream := .ofCapacity 1 }

/-- It has been written to twice. The second writer has found the stream full and given up. -/
def stalled : Outflow :=
  { store :=
      { tiny with
        signals := .ofList [("Speed", ⟨⟨.number (.natural 2), true, false⟩, true⟩)]
        seq := 2
        stream := ⟨1, [⟨1, .ofList [("Speed", .number (.natural 1))]⟩], false, false⟩ }
    received := []
    waiting := none
    abandoned := [⟨2, .ofList [("Speed", .number (.natural 2))]⟩] }

theorem keeping_stalled : Keeping "Speed" tiny stalled := by
  have hstart : Keeping "Speed" tiny (ofStore tiny) := .start rfl
  have hfirst := hstart.step
    (@Step.wrote _ false (.ofList [("Speed", .number (.natural 1))]) _ _ rfl rfl) rfl
  have hsecond := hfirst.step
    (@Step.stuck _ false (.ofList [("Speed", .number (.natural 2))]) _ rfl rfl) rfl
  exact hsecond.step (.gaveUp rfl) rfl

theorem told_or_abandoned_stalled : tiny.stream.closed = false ∧ tiny.stream.queue = [] ∧
    Keeping "Speed" tiny stalled ∧ stalled.waiting = none ∧
    ((stalled.told tiny.snapshot).find? "Speed" = stalled.store.value? "Speed" ∨
      ∃ b ∈ stalled.abandoned, stalled.Missed "Speed" b) :=
  ⟨rfl, rfl, keeping_stalled, rfl, told_or_abandoned rfl rfl keeping_stalled rfl⟩

/-- What the second writer has changed is never told: when the reader has everything it has the value
before, and writing the value once more changes nothing. -/
theorem not_told_of_gaveUp : ∃ o, Keeping "Speed" tiny o ∧ o.waiting = none ∧
    tiny.stream.closed = false ∧ tiny.stream.queue = [] ∧ o.store.stream.queue = [] ∧
    (o.told tiny.snapshot).find? "Speed" = some (.number (.natural 1)) ∧
    o.store.value? "Speed" = some (.number (.natural 2)) ∧
    o.store.update (.ofList [("Speed", .number (.natural 2))]) =
      .ok (o.store, .landed o.store.seq) :=
  ⟨_, keeping_stalled.step (.received rfl) rfl, rfl, rfl, rfl, rfl, rfl, rfl, rfl⟩

end Outflow

end SignalBroker
