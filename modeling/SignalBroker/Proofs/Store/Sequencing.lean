import SignalBroker.Proofs.Store.Outflow

namespace SignalBroker

namespace Store

variable {s s' : Store} {values : Values} {d : Delivery} {path : String} {v : SignalValue}

def Alters (s : Store) (values : Values) (path : String) (v : SignalValue) : Prop :=
  values.find? path = some v ∧ ∃ u, s.value? path = some u ∧ (u == v) = false

theorem find?_changes_eq_some_iff : (s.changes values).find? path = some v ↔
    s.Alters values path v := by
  rw [find?_changes, Option.filter_eq_some_iff, Alters, value?]
  cases s.signals.find? path <;> simp

theorem find?_pushed_eq_some_iff : (s.pushed values).find? path = some v ↔
    s.Alters values path v ∧ s.isSubscribed path = true := by
  rw [pushed, Table.find?_filter, Option.filter_eq_some_iff, find?_changes_eq_some_iff]

theorem changes_isEmpty_iff : (s.changes values).isEmpty = true ↔
    ¬ ∃ path v, s.Alters values path v := by
  rw [← Bool.not_eq_false, Table.isEmpty_eq_false_iff]
  simp only [find?_changes_eq_some_iff]

theorem pushed_isEmpty_eq_false_iff : (s.pushed values).isEmpty = false ↔
    ∃ path v, s.Alters values path v ∧ s.isSubscribed path = true := by
  simp only [Table.isEmpty_eq_false_iff, find?_pushed_eq_some_iff]

theorem batch_eq_some_iff {b : Batch} : (s.commit values).2 = some b ↔
    b = ⟨s.seq + 1, s.pushed values⟩ ∧
      ∃ path v, s.Alters values path v ∧ s.isSubscribed path = true := by
  rw [← pushed_isEmpty_eq_false_iff, commit_eq]
  split
  · next h => simp [pushed_isEmpty_of_changes h]
  · cases (s.pushed values).isEmpty <;> simp [eq_comm]

namespace Written

theorem advances (hw : s.Written values s' d) (h : ∃ path v, s.Alters values path v) :
    s'.seq = s.seq + 1 := by
  cases hw with
  | unchanged hempty => exact absurd h (changes_isEmpty_iff.mp hempty)
  | unheard => rfl
  | sent => rfl
  | stuck => rfl

theorem rests (hw : s.Written values s' d) (h : ¬ ∃ path v, s.Alters values path v) : s' = s := by
  have hempty := changes_isEmpty_iff.mpr h
  cases hw with
  | unchanged => rfl
  | unheard hc => rw [hempty] at hc; cases hc
  | sent hc => rw [hempty] at hc; cases hc
  | stuck hc => rw [hempty] at hc; cases hc

theorem queue {n : Nat} (hw : s.Written values s' (.landed n)) (hopen : s.stream.closed = false) :
    s'.stream.queue = s.stream.queue ++ (s.commit values).2.toList := by
  cases hw with
  | unchanged h => rw [commit_eq, if_pos h, Option.toList_none, List.append_nil]
  | unheard h hp =>
    rw [commit_eq, if_neg (by simp [h]), if_pos hp, Option.toList_none, List.append_nil]
    rfl
  | sent h hp ho =>
    rw [commit_eq, if_neg (by simp [h]), if_neg (by simp [hp])]
    exact ChangeStream.queue_offer hopen ho

end Written

end Store

namespace Outflow

variable {o o' o₁ : Outflow} {byClient : Bool} {values : Values} {n : Nat}

/-- The reader asks for the receiving end and takes batches out of the stream, and nothing else
happens. -/
inductive Read (o : Outflow) : Outflow → Prop where
  | refl : Read o o
  | received {o₁ b stream} (h : Read o o₁) (hp : o₁.store.stream.pop = some (b, stream)) :
    Read o { o₁ with store := { o₁.store with stream }, received := o₁.received ++ [b] }
  | taken {o₁ : Outflow} (h : Read o o₁) :
    Read o { o₁ with store := { o₁.store with stream := o₁.store.stream.take.2 } }

/-- A write that has come to its end and the number that it returns. It has landed at once, or it has
waited until the reader had made room. -/
inductive Wrote (o : Outflow) (byClient : Bool) (values : Values) : Nat → Outflow → Prop where
  | atOnce {s n} (hw : o.store.write byClient values = .ok (s, .landed n)) :
    Wrote o byClient values n { o with store := s }
  | afterWaiting {s o₁ b stream} (hw : o.store.write byClient values = .ok (s, .waiting))
    (hr : Read { o with store := s, waiting := (o.store.commit values).2 } o₁)
    (hb : o₁.waiting = some b) (ho : o₁.store.stream.offer b = some stream) :
    Wrote o byClient values o₁.store.seq
      { o₁ with store := { o₁.store with stream }, waiting := none }

/-- A write that has come to its end: what it has found, what it was given, the number that it has
returned, and what it has left. -/
structure Landing where
  before : Outflow
  values : Values
  number : Nat
  after : Outflow

inductive Run (first : Store) : List Landing → Outflow → Prop where
  | start : Run first [] (ofStore first)
  | wrote {log o byClient values n o'} (h : Run first log o) (hw : o.Wrote byClient values n o') :
    Run first (log ++ [⟨o, values, n, o'⟩]) o'
  | marked {log o subscribed paths s} (h : Run first log o)
    (hs : o.store.setSubscribed subscribed paths = .ok s) : Run first log { o with store := s }
  | released {log o} (h : Run first log o) :
    Run first log { o with store := o.store.unsubscribeAll }
  | received {log o b stream} (h : Run first log o) (hp : o.store.stream.pop = some (b, stream)) :
    Run first log { o with store := { o.store with stream }, received := o.received ++ [b] }
  | taken {log o} (h : Run first log o) :
    Run first log { o with store := { o.store with stream := o.store.stream.take.2 } }

namespace Landing

variable (w : Landing)

def Pushes (b : Batch) : Prop := w.after.entered = w.before.entered ++ [b]

/-- All that a write does. -/
structure Exact : Prop where
  number : w.number = w.after.store.seq
  advances : (∃ path v, w.before.store.Alters w.values path v) →
    w.after.store.seq = w.before.store.seq + 1
  rests : (¬ ∃ path v, w.before.store.Alters w.values path v) →
    w.after.store.seq = w.before.store.seq
  given : ∀ path v, w.values.find? path = some v →
    ∃ u, w.after.store.value? path = some u ∧ (u == v) = true
  others : ∀ path, w.values.find? path = none →
    w.after.store.signals.find? path = w.before.store.signals.find? path
  silent : (¬ ∃ path v, w.before.store.Alters w.values path v ∧
    w.before.store.isSubscribed path = true) → w.after.entered = w.before.entered
  pushes : (∃ path v, w.before.store.Alters w.values path v ∧
    w.before.store.isSubscribed path = true) → ∃ b, w.Pushes b ∧ b.seq = w.number ∧
      ∀ path v, b.values.find? path = some v ↔
        w.before.store.Alters w.values path v ∧ w.before.store.isSubscribed path = true

end Landing

theorem Read.keeps (h : Read o o') : o'.store.signals = o.store.signals ∧
    o'.store.seq = o.store.seq ∧ o'.waiting = o.waiting ∧ o'.entered = o.entered ∧
    o'.store.stream.closed = o.store.stream.closed := by
  induction h with
  | refl => exact ⟨rfl, rfl, rfl, rfl, rfl⟩
  | received _ hp ih =>
    obtain ⟨hsignals, hseq, hwaiting, hentered, hclosed⟩ := ih
    exact ⟨hsignals, hseq, hwaiting, (entered_of_pop hp).trans hentered,
      (Store.closed_of_pop hp).trans hclosed⟩
  | taken _ ih => exact ih

/-- However long a write has waited, it has done what a write does, and its batch is in the stream. -/
theorem Wrote.written (hw : o.Wrote byClient values n o') (hopen : o.store.stream.closed = false) :
    o'.store.stream.closed = false ∧ n = o'.store.seq ∧
      o'.entered = o.entered ++ (o.store.commit values).2.toList ∧
      ∃ s d, o.store.Written values s d ∧ o'.store.signals = s.signals ∧ o'.store.seq = s.seq := by
  cases hw with
  | @atOnce s n hw =>
    have hwritten := Store.written_of_write hw
    refine ⟨hwritten.closed.trans hopen, hwritten.landed, ?_, s, _, hwritten, rfl, rfl⟩
    rw [entered, hwritten.queue hopen, ← List.append_assoc]
    rfl
  | @afterWaiting s o₁ b stream hw hr hb ho =>
    have hwritten := Store.written_of_write hw
    obtain ⟨hsignals, hseq, hwaiting, hentered, hclosed⟩ := hr.keeps
    have hopen₁ : o₁.store.stream.closed = false := hclosed.trans (hwritten.closed.trans hopen)
    -- where the writer has to wait its batch is not in the stream yet
    have hstream : s.stream = o.store.stream := by
      cases hwritten with
      | stuck => rfl
    refine ⟨(Store.closed_of_offer ho).trans hopen₁, rfl, ?_, s, _, hwritten, hsignals, hseq⟩
    refine (entered_of_offer hopen₁ ho).trans ?_
    have hbatch : (o.store.commit values).2 = some b := hwaiting.symm.trans hb
    rw [hentered, hbatch, entered, entered, hstream]
    rfl

theorem Wrote.known (hw : o.Wrote byClient values n o') {path : String} {v : SignalValue}
    (hv : values.find? path = some v) : ∃ signal, o.store.signals.find? path = some signal := by
  cases hw with
  | atOnce hw => exact Store.known_of_write hw hv
  | afterWaiting hw => exact Store.known_of_write hw hv

theorem Wrote.exact (hw : o.Wrote byClient values n o') (hopen : o.store.stream.closed = false) :
    (⟨o, values, n, o'⟩ : Landing).Exact := by
  obtain ⟨-, hnumber, hentered, s, d, hwritten, hsignals, hseq⟩ := hw.written hopen
  have hvalue : ∀ path, o'.store.value? path = s.value? path := by
    intro path
    rw [Store.value?, Store.value?, hsignals]
  refine ⟨hnumber, ?_, ?_, ?_, ?_, ?_, ?_⟩
  · exact fun h => hseq.trans (hwritten.advances h)
  · exact fun h => hseq.trans (congrArg Store.seq (hwritten.rests h))
  · intro path v hv
    obtain ⟨signal, hsignal⟩ := hw.known hv
    rw [hvalue]
    exact hwritten.value hsignal hv
  · intro path hpath
    change values.find? path = none at hpath
    change o'.store.signals.find? path = o.store.signals.find? path
    rw [hsignals, hwritten.find?, hpath]
    cases o.store.signals.find? path <;> rfl
  · intro h
    have hnone : (o.store.commit values).2 = none := by
      apply Option.eq_none_iff_forall_ne_some.mpr
      exact fun b hb => h (Store.batch_eq_some_iff.mp hb).2
    change o'.entered = o.entered
    rw [hentered, hnone, Option.toList_none, List.append_nil]
  · intro h
    refine ⟨⟨o.store.seq + 1, o.store.pushed values⟩, ?_, ?_, ?_⟩
    · rw [Landing.Pushes, hentered, Store.batch_eq_some_iff.mpr ⟨rfl, h⟩]
      rfl
    · obtain ⟨path, v, halters, -⟩ := h
      exact (hnumber.trans (hseq.trans (hwritten.advances ⟨path, v, halters⟩))).symm
    · exact fun path v => Store.find?_pushed_eq_some_iff

theorem Landing.Exact.seq_le {w : Landing} (h : w.Exact) :
    w.before.store.seq ≤ w.after.store.seq := by
  by_cases halters : ∃ path v, w.before.store.Alters w.values path v
  · have hnext := h.advances halters
    omega
  · exact Nat.le_of_eq (h.rests halters).symm

theorem Landing.Exact.told {w : Landing} {b : Batch} (h : w.Exact) (hb : w.Pushes b) :
    (∃ path v, w.before.store.Alters w.values path v ∧
      w.before.store.isSubscribed path = true) ∧ b.seq = w.number ∧
    ∀ path v, b.values.find? path = some v ↔
      w.before.store.Alters w.values path v ∧ w.before.store.isSubscribed path = true := by
  have hsome : ∃ path v, w.before.store.Alters w.values path v ∧
      w.before.store.isSubscribed path = true := by
    by_contra hnone
    have hsilent := h.silent hnone
    rw [hb] at hsilent
    simp at hsilent
  obtain ⟨b', hb', htold⟩ := h.pushes hsome
  have hsame : b' = b := by
    have happend := hb'.symm.trans hb
    simpa using happend
  exact ⟨hsome, hsame ▸ htold⟩

/-- The batches that have entered the stream come from the writes, in the order of their numbers. -/
structure InSequence (log : List Landing) (o : Outflow) : Prop where
  isOpen : o.store.stream.closed = false
  bound : ∀ b ∈ o.entered, b.seq ≤ o.store.seq
  ascending : o.entered.Pairwise fun b c => b.seq < c.seq
  landed : ∀ w ∈ log, w.Exact
  pushed : ∀ b ∈ o.entered, ∃ w ∈ log, w.Pushes b

variable {log : List Landing}

theorem InSequence.aside (h : InSequence log o)
    (hopen : o'.store.stream.closed = o.store.stream.closed) (hseq : o'.store.seq = o.store.seq)
    (he : o'.entered = o.entered) : InSequence log o' where
  isOpen := hopen.trans h.isOpen
  bound := by
    rw [he, hseq]
    exact h.bound
  ascending := by
    rw [he]
    exact h.ascending
  landed := h.landed
  pushed := by
    rw [he]
    exact h.pushed

theorem InSequence.wrote (h : InSequence log o) (hw : o.Wrote byClient values n o') :
    InSequence (log ++ [⟨o, values, n, o'⟩]) o' := by
  have hexact := hw.exact h.isOpen
  have hopen := (hw.written h.isOpen).1
  have hlanded : ∀ w ∈ log ++ [⟨o, values, n, o'⟩], w.Exact := by
    intro w hw
    obtain hw | rfl := List.mem_append.mp hw |>.imp_right List.mem_singleton.mp
    · exact h.landed w hw
    · exact hexact
  have hpushed : ∀ b ∈ o.entered, ∃ w ∈ log ++ [⟨o, values, n, o'⟩], w.Pushes b := by
    intro b hb
    obtain ⟨w, hw, hb⟩ := h.pushed b hb
    exact ⟨w, List.mem_append_left _ hw, hb⟩
  have hmono : o.store.seq ≤ o'.store.seq := hexact.seq_le
  by_cases htells : ∃ path v, o.store.Alters values path v ∧ o.store.isSubscribed path = true
  · obtain ⟨b, hb, hseq, -⟩ := hexact.pushes htells
    obtain ⟨path, v, halters, -⟩ := htells
    have hnext : b.seq = o'.store.seq := hseq.trans hexact.number
    have hnew : o'.store.seq = o.store.seq + 1 := hexact.advances ⟨path, v, halters⟩
    have he : o'.entered = o.entered ++ [b] := hb
    refine ⟨hopen, ?_, ?_, hlanded, ?_⟩
    · intro c hc
      rw [he, List.mem_append, List.mem_singleton] at hc
      obtain hc | rfl := hc
      · exact Nat.le_trans (h.bound c hc) hmono
      · exact Nat.le_of_eq hnext
    · rw [he]
      refine List.pairwise_append.mpr ⟨h.ascending, List.pairwise_singleton _ _, ?_⟩
      intro c hc d hd
      cases List.mem_singleton.mp hd
      have hle := h.bound c hc
      omega
    · intro c hc
      rw [he, List.mem_append, List.mem_singleton] at hc
      obtain hc | rfl := hc
      · exact hpushed c hc
      · exact ⟨_, List.mem_append_right _ (List.mem_singleton.mpr rfl), hb⟩
  · have he : o'.entered = o.entered := hexact.silent htells
    refine ⟨hopen, ?_, ?_, hlanded, ?_⟩
    · rw [he]
      exact fun b hb => Nat.le_trans (h.bound b hb) hmono
    · rw [he]
      exact h.ascending
    · rw [he]
      exact hpushed

theorem inSequence_of_run {first : Store} (hopen : first.stream.closed = false)
    (hq : first.stream.queue = []) (h : Run first log o) : InSequence log o := by
  induction h with
  | start =>
    have he : (ofStore first).entered = [] := hq
    exact ⟨hopen, by simp [he], by simp [he], by simp, by simp [he]⟩
  | wrote _ hw ih => exact ih.wrote hw
  | @marked log o subscribed paths s _ hs ih =>
    obtain ⟨hseq, hstream, -⟩ := Store.setSubscribed_eq_ok hs
    refine ih.aside ?_ hseq ?_
    · rw [hstream]
    · simp only [entered, hstream]
  | released _ ih => exact ih.aside rfl rfl rfl
  | received _ hp ih => exact ih.aside (Store.closed_of_pop hp) rfl (entered_of_pop hp)
  | taken _ ih => exact ih.aside rfl rfl rfl

/-- Every write advances the number by one if it brings a new value, and not otherwise, returns it, and
sets what it was given and nothing else. It pushes what it has changed of the subscribed paths, if
anything, under that number. So the numbers of the batches in a stream grow, and each batch tells
something that differs from what the store had right before. -/
theorem changes_in_sequence {first : Store} (hopen : first.stream.closed = false)
    (hq : first.stream.queue = []) (h : Run first log o) :
    (∀ w ∈ log, w.Exact) ∧ (o.entered.Pairwise fun b c => b.seq < c.seq) ∧
    ∀ b ∈ o.entered, (∃ path v, b.values.find? path = some v) ∧
      ∃ w ∈ log, w.Pushes b ∧ ∀ path v, b.values.find? path = some v →
        ∃ u, w.before.store.value? path = some u ∧ (u == v) = false := by
  have hsequence := inSequence_of_run hopen hq h
  refine ⟨hsequence.landed, hsequence.ascending, ?_⟩
  intro b hb
  obtain ⟨w, hw, hpushes⟩ := hsequence.pushed b hb
  obtain ⟨⟨path, v, hv⟩, -, htold⟩ := (hsequence.landed w hw).told hpushes
  refine ⟨⟨path, v, (htold path v).mpr hv⟩, w, hw, hpushes, ?_⟩
  intro path v hv
  exact ((htold path v).mp hv).1.2

/-- A stream that holds one batch is written to twice. The second writer waits until the reader has
come and taken the first batch; a third write changes nothing. -/
theorem changes_in_sequence_tiny : tiny.stream.closed = false ∧ tiny.stream.queue = [] ∧
    ∃ log o, Run tiny log o ∧ log.map (·.number) = [1, 2, 2] ∧ o.entered.map (·.seq) = [1, 2] ∧
    (∀ w ∈ log, w.Exact) ∧ (o.entered.Pairwise fun b c => b.seq < c.seq) := by
  have hstart : Run tiny [] (ofStore tiny) := .start
  have hfirst := hstart.wrote
    (@Wrote.atOnce _ false (.ofList [("Speed", .number (.natural 1))]) _ _ rfl)
  have hsecond := hfirst.wrote (@Wrote.afterWaiting _ true
    (.ofList [("Speed", .number (.natural 2))]) _ _ _ _ rfl (.received (.taken .refl) rfl) rfl rfl)
  have hthird := hsecond.wrote
    (@Wrote.atOnce _ false (.ofList [("Speed", .number (.natural 2))]) _ _ rfl)
  obtain ⟨hexact, hascending, -⟩ := changes_in_sequence rfl rfl hthird
  exact ⟨rfl, rfl, _, _, hthird, rfl, rfl, hexact, hascending⟩

end Outflow

end SignalBroker
