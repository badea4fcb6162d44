import SignalBroker.Proofs.Store.Writing

namespace SignalBroker

/-- The values of a store after each number of changes. -/
abbrev History := List Values

namespace History

variable (h : History) (s s' : Store)

def value? (n : Nat) (path : String) : Option SignalValue :=
  h[n]?.bind fun values => values.find? path

/-- The history with the present values of a store, if these are new. -/
def record : History :=
  if h.length ≤ s.seq then h ++ [s.snapshot] else h

structure Tells : Prop where
  length : h.length = s.seq + 1
  present : h[s.seq]? = some s.snapshot
  batch : ∀ b ∈ s.stream.queue, 0 < b.seq ∧ b.seq ≤ s.seq ∧
    ∀ path v, b.values.find? path = some v → h.value? b.seq path = some v

variable {h s s'}

theorem Tells.value? (ht : h.Tells s) (path : String) : h.value? s.seq path = s.value? path := by
  rw [History.value?, ht.present, ← s.find?_snapshot path]
  rfl

theorem Tells.record_same (ht : h.Tells s) (hs : s'.seq = s.seq) : h.record s' = h := by
  apply if_neg
  have hlen := ht.length
  omega

theorem Tells.record_next (ht : h.Tells s) (hs : s'.seq = s.seq + 1) :
    h.record s' = h ++ [s'.snapshot] := by
  apply if_pos
  have hlen := ht.length
  omega

theorem Tells.value?_record (ht : h.Tells s) {n : Nat} (hn : n ≤ s.seq) (path : String) :
    (h.record s').value? n path = h.value? n path := by
  have hlt : n < h.length := by
    have hlen := ht.length
    omega
  unfold record
  split
  · rw [History.value?, History.value?, List.getElem?_append_left hlt]
  · rfl

/-- A store whose values and stream are another one's, up to batches that have been taken out. -/
theorem Tells.congr (ht : h.Tells s) (hseq : s'.seq = s.seq) (hsnap : s'.snapshot = s.snapshot)
    (hq : ∀ b ∈ s'.stream.queue, b ∈ s.stream.queue) : h.Tells s' := by
  refine ⟨?_, ?_, ?_⟩
  · rw [hseq, ht.length]
  · rw [hseq, hsnap, ht.present]
  · intro b hb
    rw [hseq]
    exact ht.batch b (hq b hb)

theorem Tells.next (ht : h.Tells s) (hs : s'.seq = s.seq + 1)
    (hq : ∀ b ∈ s'.stream.queue, b ∈ s.stream.queue ∨ b.seq = s'.seq ∧
      ∀ path v, b.values.find? path = some v → s'.value? path = some v) :
    (h.record s').Tells s' := by
  have hrecord := ht.record_next hs
  have hlen := ht.length
  have hpresent : (h.record s')[s'.seq]? = some s'.snapshot := by
    rw [hrecord, hs, ← hlen]
    simp
  refine ⟨?_, hpresent, ?_⟩
  · rw [hrecord, List.length_append, hlen, hs]
    rfl
  · intro b hb
    obtain hold | ⟨hseq, hv⟩ := hq b hb
    · obtain ⟨hpos, hle, hv⟩ := ht.batch b hold
      refine ⟨hpos, by omega, ?_⟩
      intro path v hb
      rw [ht.value?_record hle]
      exact hv path v hb
    · refine ⟨by omega, by omega, ?_⟩
      intro path v hb
      rw [hseq, History.value?, hpresent, Option.bind_some, s'.find?_snapshot]
      exact hv path v hb

end History

namespace Store

variable {s s' : Store} {values : Values} {d : Delivery}

theorem value?_of_pushed {path : String} {v : SignalValue}
    (hw : s.Written values s' d) (h : (s.pushed values).find? path = some v) :
    s'.value? path = some v := by
  obtain ⟨hv, signal, hs, -, hd⟩ := find?_pushed.mp h
  rw [value?, hw.find?, hs, hv]
  simp [Signal.hear, hd]

theorem Written.value?_of_not_pushed (hw : s.Written values s' d) {path : String}
    (hsub : ∀ signal, s.signals.find? path = some signal → signal.subscribed = true)
    (hp : (s.pushed values).find? path = none) : s'.value? path = s.value? path := by
  rw [value?, value?, hw.find?]
  cases hs : s.signals.find? path with
  | none => rfl
  | some signal =>
    cases hv : values.find? path with
    | none => rfl
    | some v =>
      have hsame : (signal.spec.value == v) = true := by
        by_contra hd
        have hpushed := find?_pushed.mpr ⟨hv, signal, hs, hsub signal hs, Bool.eq_false_iff.mpr hd⟩
        rw [hp] at hpushed
        cases hpushed
      simp [Signal.hear, hsame]

theorem queue_of_offer {stream stream' : ChangeStream} {b : Batch}
    (h : stream.offer b = some stream') :
    stream'.queue = stream.queue ∨ stream'.queue = stream.queue ++ [b] := by
  obtain ⟨queue, rfl, hq⟩ := ChangeStream.eq_of_offer h
  exact hq

theorem queue_offer_cases {stream stream' : ChangeStream} {b c : Batch}
    (h : stream.offer b = some stream') (hc : c ∈ stream'.queue) : c ∈ stream.queue ∨ c = b := by
  obtain hq | hq := queue_of_offer h
  · exact .inl (hq ▸ hc)
  · simpa [hq] using hc

theorem closed_of_offer {stream stream' : ChangeStream} {b : Batch}
    (h : stream.offer b = some stream') : stream'.closed = stream.closed := by
  obtain ⟨queue, rfl, -⟩ := ChangeStream.eq_of_offer h
  rfl

theorem Written.closed (hw : s.Written values s' d) : s'.stream.closed = s.stream.closed := by
  cases hw with
  | unchanged => rfl
  | unheard => rfl
  | stuck => rfl
  | sent _ _ ho => exact closed_of_offer ho

theorem Written.tells {h : History} (hw : s.Written values s' d) (ht : h.Tells s) :
    (h.record s').Tells s' := by
  have hpushed : ∀ path v, (s.pushed values).find? path = some v → s'.value? path = some v :=
    fun _ _ => value?_of_pushed hw
  cases hw with
  | unchanged =>
    rw [ht.record_same rfl]
    exact ht
  | unheard => exact ht.next rfl fun b hb => .inl hb
  | stuck => exact ht.next rfl fun b hb => .inl hb
  | sent _ _ ho =>
    refine ht.next rfl ?_
    intro b hb
    obtain hold | rfl := queue_offer_cases ho hb
    · exact .inl hold
    · exact .inr ⟨rfl, hpushed⟩

theorem setSubscribed_eq_ok {subscribed : Bool} {paths : List String}
    (h : s.setSubscribed subscribed paths = .ok s') : s'.seq = s.seq ∧ s'.stream = s.stream ∧
      ∀ path, s'.signals.find? path = (s.signals.find? path).map fun signal =>
        if paths.contains path then { signal with subscribed } else signal := by
  unfold setSubscribed at h
  split at h
  · cases h
  · cases h
    exact ⟨rfl, rfl, fun path => Table.find?_map _ _ _⟩

theorem name_of_setSubscribed {subscribed : Bool} {paths : List String}
    (h : s.setSubscribed subscribed paths = .ok s') : s'.name = s.name := by
  unfold setSubscribed at h
  split at h
  · cases h
  · cases h
    rfl

theorem snapshot_of_setSubscribed {subscribed : Bool} {paths : List String}
    (h : s.setSubscribed subscribed paths = .ok s') : s'.snapshot = s.snapshot := by
  obtain ⟨-, -, hsignals⟩ := setSubscribed_eq_ok h
  ext path : 1
  rw [find?_snapshot, find?_snapshot, value?, value?, hsignals, Option.map_map]
  congr 1
  funext signal
  simp only [Function.comp_apply]
  split <;> rfl

theorem snapshot_unsubscribeAll (s : Store) : s.unsubscribeAll.snapshot = s.snapshot := by
  ext path : 1
  rw [find?_snapshot, find?_snapshot, value?, value?, unsubscribeAll, Table.find?_map,
    Option.map_map]
  rfl

/-- What can become of a store. Signals are declared before anything else is done with it. -/
inductive Lived : History → Store → Prop where
  | created (name : String) (capacity : Nat) : Lived [.empty] (.ofCapacity name capacity)
  | declared {first s} (h : Lived [first] s) (path : String) (spec : SignalSpec) :
    Lived [(s.declare path spec).snapshot] (s.declare path spec)
  | written {h s byClient values s' d} (hl : Lived h s)
    (hw : s.write byClient values = .ok (s', d)) : Lived (h.record s') s'
  | marked {h s subscribed paths s'} (hl : Lived h s)
    (hs : s.setSubscribed subscribed paths = .ok s') : Lived h s'
  | released {h s} (hl : Lived h s) : Lived h s.unsubscribeAll
  | taken {h s} (hl : Lived h s) : Lived h { s with stream := s.stream.take.2 }
  | popped {h s b stream} (hl : Lived h s) (hp : s.stream.pop = some (b, stream)) :
    Lived h { s with stream }
  | closed {h s} (hl : Lived h s) : Lived h { s with stream := s.stream.close }

theorem mem_of_pop {stream stream' : ChangeStream} {b : Batch} (h : stream.pop = some (b, stream')) :
    stream.queue = b :: stream'.queue := by
  unfold ChangeStream.pop at h
  split at h
  · cases h
  · next hq =>
    cases h
    exact hq

theorem closed_of_pop {stream stream' : ChangeStream} {b : Batch}
    (h : stream.pop = some (b, stream')) : stream'.closed = stream.closed := by
  unfold ChangeStream.pop at h
  split at h
  · cases h
  · cases h
    rfl

theorem Lived.tells {h : History} (hl : Lived h s) : h.Tells s := by
  induction hl with
  | created name capacity => exact ⟨rfl, rfl, by rintro b ⟨⟩⟩
  | @declared first s _ path spec ih =>
    have hseq : s.seq = 0 := by
      have hlen := ih.length
      simpa using hlen
    refine ⟨?_, ?_, ?_⟩
    · exact congrArg (· + 1) hseq.symm
    · exact (congrArg _ hseq).trans rfl
    · intro b hb
      obtain ⟨hpos, hle, -⟩ := ih.batch b hb
      omega
  | written _ hw ih => exact (written_of_write hw).tells ih
  | @marked h s subscribed paths s' _ hs ih =>
    obtain ⟨hseq, hstream, -⟩ := setSubscribed_eq_ok hs
    refine ih.congr hseq (snapshot_of_setSubscribed hs) ?_
    intro b hb
    rw [← hstream]
    exact hb
  | @released h s _ ih => exact ih.congr rfl s.snapshot_unsubscribeAll fun _ hb => hb
  | taken _ ih => exact ih.congr rfl rfl fun _ hb => hb
  | popped _ hp ih =>
    refine ih.congr rfl rfl ?_
    intro b hb
    rw [mem_of_pop hp]
    exact List.mem_cons_of_mem _ hb
  | closed _ ih => exact ih.congr rfl rfl (by rintro b ⟨⟩)

/-- The batches in the stream come in the order of their changes, and they tell of signals. -/
structure Queued (s : Store) : Prop where
  ascending : s.stream.queue.Pairwise fun b c => b.seq < c.seq
  known : ∀ b ∈ s.stream.queue, ∀ path v, b.values.find? path = some v →
    ∃ signal, s.signals.find? path = some signal

theorem Queued.congr (hq : s.Queued) (hs : s'.stream.queue = s.stream.queue)
    (hsignals : ∀ path, ∃ f : Signal → Signal,
      s'.signals.find? path = (s.signals.find? path).map f) : s'.Queued := by
  refine ⟨hs ▸ hq.ascending, ?_⟩
  intro b hb path v hv
  obtain ⟨signal, hsignal⟩ := hq.known b (hs ▸ hb) path v hv
  obtain ⟨f, hf⟩ := hsignals path
  rw [hf, hsignal]
  exact ⟨_, rfl⟩

theorem Written.queued (hw : s.Written values s' d) (hq : s.Queued)
    (hbound : ∀ b ∈ s.stream.queue, b.seq ≤ s.seq) : s'.Queued := by
  have hsignals : ∀ path, ∃ f : Signal → Signal,
      s'.signals.find? path = (s.signals.find? path).map f := fun path => ⟨_, hw.find? path⟩
  cases hw with
  | unchanged => exact hq
  | unheard => exact hq.congr rfl hsignals
  | stuck => exact hq.congr rfl hsignals
  | sent _ _ ho =>
    obtain hsame | hnext := queue_of_offer ho
    · exact hq.congr hsame hsignals
    · have hold : (s.taken values).Queued := hq.congr rfl hsignals
      refine ⟨?_, ?_⟩
      · simp only [hnext]
        refine List.pairwise_append.mpr ⟨hq.ascending, List.pairwise_singleton _ _, ?_⟩
        intro b hb c hc
        cases List.mem_singleton.mp hc
        exact Nat.lt_succ_of_le (hbound b hb)
      · intro b hb path v hv
        simp only [hnext, List.mem_append, List.mem_singleton] at hb
        obtain hb | rfl := hb
        · exact hold.known b hb path v hv
        · obtain ⟨-, signal, hs, -⟩ := find?_pushed.mp hv
          obtain ⟨f, hf⟩ := hsignals path
          exact ⟨f signal, by rw [hf, hs]; rfl⟩

theorem Lived.queued {h : History} (hl : Lived h s) : s.Queued := by
  induction hl with
  | created name capacity => exact ⟨.nil, by rintro b ⟨⟩⟩
  | @declared first s hl path spec ih =>
    have hnone : ∀ b ∈ s.stream.queue, False := by
      intro b hb
      obtain ⟨hpos, hle, -⟩ := hl.tells.batch b hb
      have hlen := hl.tells.length
      simp only [List.length_singleton] at hlen
      omega
    exact ⟨ih.ascending, fun b hb => (hnone b hb).elim⟩
  | written hl hw ih =>
    exact (written_of_write hw).queued ih fun b hb => (hl.tells.batch b hb).2.1
  | marked _ hs ih =>
    obtain ⟨-, hstream, hsignals⟩ := setSubscribed_eq_ok hs
    exact ih.congr (by rw [hstream]) fun path => ⟨_, hsignals path⟩
  | released _ ih => exact ih.congr rfl fun path => ⟨_, Table.find?_map _ _ path⟩
  | taken _ ih => exact ⟨ih.ascending, ih.known⟩
  | popped _ hp ih =>
    have hq := mem_of_pop hp
    refine ⟨?_, ?_⟩
    · have hasc := ih.ascending
      rw [hq] at hasc
      exact (List.pairwise_cons.mp hasc).2
    · intro b hb
      exact ih.known b (hq ▸ List.mem_cons_of_mem _ hb)
  | closed _ ih => exact ⟨.nil, by rintro b ⟨⟩⟩

end Store

end SignalBroker
