import SignalBroker.Proofs.Traffic.Progress

namespace SignalBroker

def Adapter.Idle (a : Adapter) : Prop :=
  a.store.stream.queue = [] ∧ a.store.stream.closed = false

namespace Store

variable {s s' : Store} {values : Values} {d : Delivery}

theorem Written.mem_queue (hw : s.Written values s' d) {b : Batch} (hb : b ∈ s'.stream.queue) :
    b ∈ s.stream.queue ∨ b.seq = s.seq + 1 := by
  cases hw with
  | unchanged => exact .inl hb
  | unheard => exact .inl hb
  | stuck => exact .inl hb
  | sent _ _ ho =>
    obtain hold | rfl := queue_offer_cases ho hb
    · exact .inl hold
    · exact .inr rfl

theorem Written.changed_pushed {n : Nat} (hw : s.Written values s' (.landed n))
    (hopen : s.stream.closed = false)
    (hsub : ∀ path signal, s.signals.find? path = some signal → signal.subscribed = true)
    {path : String} (hq : ∀ b ∈ s'.stream.queue, s.seq < b.seq → b.values.find? path = none) :
    s'.value? path = s.value? path := by
  have hvalue : (s.pushed values).find? path = none → s'.value? path = s.value? path :=
    hw.value?_of_not_pushed (hsub path)
  cases hw with
  | unchanged => rfl
  | unheard _ hp => exact hvalue ((Table.isEmpty_iff _).mp hp path)
  | sent _ _ ho =>
    apply hvalue
    apply hq ⟨s.seq + 1, s.pushed values⟩ ?_ (Nat.lt_succ_self _)
    simp [ChangeStream.queue_offer hopen ho]

end Store

namespace Past

variable (past : Past) (s : Store)

/-- After that many changes a path has had its present value whenever no batch still tells of a later
one. -/
def Complete (path : String) (n : Nat) : Prop :=
  ∀ k, n ≤ k → k ≤ s.seq → (∀ b ∈ s.stream.queue, k < b.seq → b.values.find? path = none) →
    past.history.value? k path = s.value? path

structure Steady : Prop where
  isOpen : s.stream.closed = false
  batch : ∀ b ∈ s.stream.queue, past.first ≤ b.seq
  subscribed : ∀ path signal, s.signals.find? path = some signal → signal.subscribed = true

variable {past s} {past' : Past} {s' : Store} {path : String} {n : Nat}

theorem Complete.mono {k : Nat} (h : past.Complete s path n) (hk : n ≤ k) : past.Complete s path k :=
  fun j hj hle hq => h j (Nat.le_trans hk hj) hle hq

theorem complete_written {values : Values} {l : Nat} (h : past.Complete s path n)
    (ht : past.history.Tells s) (hst : past.Steady s) (hw : s.Written values s' (.landed l)) :
    Complete ⟨past.first, past.history.record s'⟩ s' path n := by
  have hc := continues_written ht hw
  intro k hn hk hq
  by_cases hle : k ≤ s.seq
  · have hvalue : s'.value? path = s.value? path := by
      apply hw.changed_pushed hst.isOpen hst.subscribed
      intro b hb hlt
      exact hq b hb (Nat.lt_of_le_of_lt hle hlt)
    rw [hc.value k hle, hvalue]
    apply h k hn hle
    intro b hb hlt
    refine hq b ?_ hlt
    cases hw with
    | unchanged => exact hb
    | unheard => exact hb
    | sent _ _ ho => simp [ChangeStream.queue_offer hst.isOpen ho, hb]
  · have hlast : k = s'.seq := by
      obtain rfl | hseq := hw.seq
      · omega
      · omega
    rw [hlast]
    exact hc.tells.value? path

theorem steady_written {values : Values} {d : Delivery} (hst : past.Steady s)
    (hf : past.first ≤ s.seq) (hw : s.Written values s' d) :
    Steady ⟨past.first, past.history.record s'⟩ s' := by
  refine ⟨hw.closed.trans hst.isOpen, ?_, ?_⟩
  · intro b hb
    obtain hold | hseq := hw.mem_queue hb
    · exact hst.batch b hold
    · show past.first ≤ b.seq
      omega
  · intro path signal hs
    rw [hw.find?] at hs
    obtain ⟨old, hold, rfl⟩ := Option.map_eq_some_iff.mp hs
    rw [old.hear_eq]
    exact hst.subscribed path old hold

theorem complete_popped {b : Batch} {stream : ChangeStream} (h : past.Complete s path n)
    (ht : past.history.Tells s) (hp : s.stream.pop = some (b, stream))
    (hb : b.values.find? path = none ∨ b.seq ≤ n) :
    Complete ⟨past.first, past.history.record { s with stream }⟩ { s with stream } path n := by
  have hc := continues_popped ht hp
  intro k hn hk hq
  rw [hc.value k hk]
  apply h k hn hk
  intro c hcm hlt
  rw [Store.mem_of_pop hp] at hcm
  obtain rfl | hcm := List.mem_cons.mp hcm
  · obtain hb | hb := hb
    · exact hb
    · omega
  · exact hq c hcm hlt

theorem steady_popped {b : Batch} {stream : ChangeStream} (hst : past.Steady s)
    (hp : s.stream.pop = some (b, stream)) :
    Steady ⟨past.first, past.history.record { s with stream }⟩ { s with stream } := by
  have hq := Store.mem_of_pop hp
  refine ⟨?_, ?_, hst.subscribed⟩
  · exact (Store.closed_of_pop hp).trans hst.isOpen
  · intro c hc
    apply hst.batch c
    rw [hq]
    exact List.mem_cons_of_mem _ hc

theorem stamp_eq_max {seq : Nat} (h : seq = 0 ∨ past.first ≤ seq) :
    past.stamp seq = max seq past.first := by
  unfold stamp
  split <;> omega

theorem le_stamp {m : Nat} (h : m ≤ n) : m ≤ past.stamp n := by
  unfold stamp
  split <;> omega

theorem stamp_mono {m : Nat} (hle : n ≤ m) (h : m = 0 ∨ past.first ≤ m) :
    past.stamp n ≤ past.stamp m := by
  unfold stamp
  split <;> split <;> omega

end Past

/-- An entry that lacks only what is on its way. -/
structure Entry.Tracks (e : Entry) (past : Past) (s : Store) (path : String) : Prop where
  recent : e.seq = 0 ∨ past.first ≤ e.seq
  complete : past.Complete s path (past.stamp e.seq)

theorem Entry.Tracks.hear {e : Entry} {past : Past} {s : Store} {path : String}
    (h : e.Tracks past s path) {owner seq : Nat} (v : Option SignalValue)
    (hf : e.owner = owner → past.first ≤ seq) : (e.hear owner seq v).Tracks past s path := by
  have hle := e.seq_le_hear owner seq v
  have hrecent : (e.hear owner seq v).seq = 0 ∨ past.first ≤ (e.hear owner seq v).seq := by
    cases hh : e.heeds owner seq with
    | false => rw [hear_of_not_heeds v hh]; exact h.recent
    | true =>
      cases v with
      | none => exact h.recent
      | some v =>
        rw [hear_of_heeds hh, seq_advance]
        exact .inr (hf ((e.heeds_iff owner seq).mp hh).1)
  exact ⟨hrecent, h.complete.mono (Past.stamp_mono hle hrecent)⟩

namespace Traffic

structure Fresh (t : Traffic) : Prop where
  running : t.broker.registry.stopped = false
  member : ∀ owner m, t.broker.registry.members[owner]? = some m →
    (t.past owner).Steady m.source.store
  entry : ∀ path e m, t.broker.registry.entries.find? path = some e →
    t.broker.registry.members[e.owner]? = some m → e.Tracks (t.past e.owner) m.source.store path

variable {t t' : Traffic} {owner : Nat} {m : Member Adapter} {source : Adapter} {files : Files}

theorem fresh_start (resolver : Resolver) (clock : Clock) (outboxCapacity : Nat) (files : Files) :
    (start resolver clock outboxCapacity files).Fresh := by
  refine ⟨rfl, ?_, ?_⟩
  · intro k mk hk
    cases hk
  · intro path e mk he
    cases he

theorem fresh_registered (h : t.Fresh) (hcoherent : t.Coherent) {a : Adapter} {history : History}
    {b' : Broker Adapter} (hidle : a.Idle) (hl : a.store.Lived history)
    (hr : t.broker.register a = .ok b') :
    Fresh { t with
      broker := b'
      past := Function.update t.past t.broker.registry.members.length ⟨a.store.seq, history⟩ } := by
  obtain ⟨new, hnew, -⟩ := register_eq_ok hr
  have hget := getElem?_enrolled hnew
  have htells := tells_enrolled hnew hl.tells
  have hstream : new.source.store.stream = a.store.stream.take.2 := by
    obtain hs | ⟨hs, -⟩ := hnew.stream
    · exact hs
    · rw [h.running] at hs
      cases hs
  have hqueue : new.source.store.stream.queue = [] := by
    rw [hstream]
    exact hidle.1
  refine ⟨hnew.stopped.trans h.running, ?_, ?_⟩
  · intro k mk hk
    rw [hget] at hk
    simp only [Function.update_apply]
    split at hk
    · next heq =>
      cases hk
      rw [if_pos heq]
      refine ⟨?_, ?_, ?_⟩
      · rw [hstream]
        exact hidle.2
      · intro b hb
        rw [hqueue] at hb
        cases hb
      · intro path signal hs
        rw [hnew.signals] at hs
        obtain ⟨_, -, rfl⟩ := Option.map_eq_some_iff.mp hs
        rfl
    · next heq =>
      rw [if_neg heq]
      exact h.member k mk hk
  · intro path e mk he hk
    rw [hnew.entries] at he
    rw [hget] at hk
    simp only [Function.update_apply]
    cases hs : a.store.signals.find? path with
    | some signal =>
      rw [hs] at he
      cases he
      simp only [Signal.entry, if_true] at hk ⊢
      cases hk
      refine ⟨.inl rfl, ?_⟩
      intro k hn hk _
      have hlast : k = new.source.store.seq := by
        have hseq := hnew.seq
        simp only [Past.stamp, if_true] at hn
        omega
      rw [hlast]
      exact htells.value? path
    | none =>
      rw [hs] at he
      obtain ⟨me, hme, -⟩ := hcoherent.entry path e he
      have hne : e.owner ≠ t.broker.registry.members.length := by
        intro heq
        simp [heq] at hme
      rw [if_neg hne] at hk ⊢
      exact h.entry path e mk he hk

theorem fresh_wrote (h : t.Fresh) (hcoherent : t.Coherent) {byClient : Bool} {values : Values}
    {n : Nat} (hm : t.broker.registry.members[owner]? = some m)
    (hw : m.source.store.write byClient values = .ok (source.store, .landed n)) :
    (t.put owner source files).Fresh := by
  obtain ⟨ht, hfirst⟩ := hcoherent.member owner m hm
  have hwritten := Store.written_of_write hw
  have hst := h.member owner m hm
  refine ⟨h.running, ?_, ?_⟩
  · intro k mk hk
    rw [members_put] at hk
    rw [past_put]
    obtain ⟨old, hold, rfl⟩ := Option.map_eq_some_iff.mp hk
    split
    · next heq =>
      subst heq
      cases hm.symm.trans hold
      exact Past.steady_written hst hfirst hwritten
    · exact h.member k old hold
  · intro path e mk he hk
    rw [members_put] at hk
    rw [past_put]
    obtain ⟨old, hold, rfl⟩ := Option.map_eq_some_iff.mp hk
    have htracks := h.entry path e old he hold
    split
    · next heq =>
      subst heq
      cases hm.symm.trans hold
      exact ⟨htracks.recent, Past.complete_written htracks.complete ht hst hwritten⟩
    · exact htracks

theorem fresh_finished (h : t.Fresh) (hcoherent : t.Coherent) {before after : List Change} {c : Change}
    (hl : t.landed = before ++ c :: after) :
    Fresh { t.apply c with landed := before ++ after } := by
  obtain ⟨-, -, hlow, -⟩ := hcoherent.landed c (by rw [hl]; simp)
  refine ⟨h.running, h.member, ?_⟩
  intro path e' mk he' hk
  simp only [find?_apply] at he'
  obtain ⟨e, he, rfl⟩ := Option.map_eq_some_iff.mp he'
  rw [Entry.owner_hear] at hk ⊢
  refine (h.entry path e mk he hk).hear _ ?_
  intro howner
  rw [howner]
  exact hlow

theorem fresh_fed (h : t.Fresh) (hcoherent : t.Coherent) {fed : Bool} {a : Adapter} {b : Batch}
    (hm : t.broker.registry.members[owner]? = some ⟨a, fed⟩)
    (hr : SignalSource.receive a = some (b, source)) :
    ((t.put owner source files).apply ⟨owner, b.seq, b.values⟩).Fresh := by
  obtain ⟨stream, hp, rfl⟩ := Adapter.pop_of_receive hr
  obtain ⟨ht, -⟩ := hcoherent.member owner _ hm
  have hst := h.member owner _ hm
  have hmem : b ∈ a.store.stream.queue := by
    rw [Store.mem_of_pop hp]
    exact List.mem_cons_self
  have hlow := hst.batch b hmem
  refine ⟨h.running, ?_, ?_⟩
  · intro k mk hk
    have hk : (t.put owner (a.withStream stream) files).broker.registry.members[k]? = some mk := hk
    rw [members_put] at hk
    show Past.Steady ((t.put owner (a.withStream stream) files).past k) _
    rw [past_put]
    obtain ⟨old, hold, rfl⟩ := Option.map_eq_some_iff.mp hk
    split
    · next heq =>
      subst heq
      cases hm.symm.trans hold
      exact Past.steady_popped hst hp
    · exact h.member k old hold
  · intro path e' mk he' hk
    rw [find?_apply] at he'
    obtain ⟨e, he, rfl⟩ := Option.map_eq_some_iff.mp he'
    rw [Entry.owner_hear] at hk ⊢
    have hk : (t.put owner (a.withStream stream) files).broker.registry.members[e.owner]? = some mk := hk
    show Entry.Tracks _ ((t.put owner (a.withStream stream) files).past e.owner) _ _
    rw [members_put] at hk
    rw [past_put]
    obtain ⟨old, hold, rfl⟩ := Option.map_eq_some_iff.mp hk
    have htracks := h.entry path e old he hold
    split
    · next heq =>
      subst heq
      cases hm.symm.trans hold
      have hheard : (e.hear e.owner b.seq (b.values.find? path)).Tracks (t.past e.owner) a.store path :=
        htracks.hear _ fun _ => hlow
      refine ⟨hheard.recent, Past.complete_popped hheard.complete ht hp ?_⟩
      cases hv : b.values.find? path with
      | none => exact .inl rfl
      | some v => exact .inr (Past.le_stamp (e.le_seq_hear b.seq v))
    · next hne =>
      rw [Entry.hear_of_not_heeds]
      · exact htracks
      · simp [Entry.heeds, hne]

theorem fresh_step (h : t.Fresh) (hcoherent : t.Coherent) (hs : Step Adapter.Idle t t') :
    t'.Fresh := by
  cases hs with
  | registered hidle hl hr => exact fresh_registered h hcoherent hidle hl hr
  | @updated owner m values store seq backing hm hu =>
    have hw : m.source.store.write false values =
      .ok ((⟨store, backing⟩ : Adapter).store, .landed seq) := hu
    exact fresh_wrote h hcoherent hm hw
  | @wrote owner m values source files seq hm hw =>
    have hput : (t.put owner source files).Fresh :=
      fresh_wrote h hcoherent hm (Adapter.store_of_set hw)
    exact ⟨hput.running, hput.member, hput.entry⟩
  | finished hl => exact fresh_finished h hcoherent hl
  | fed hm hr => exact fresh_fed h hcoherent hm hr
  | moved => exact ⟨h.running, h.member, h.entry⟩

theorem fresh_of_reached (h : Reached Adapter.Idle t) : t.Fresh := by
  obtain ⟨resolver, clock, outboxCapacity, files, hl⟩ := h
  have hstart := coherent_start resolver clock outboxCapacity files
  induction hl with
  | refl => exact fresh_start resolver clock outboxCapacity files
  | tail hl hs ih => exact fresh_step ih (coherent_later hstart hl) hs

end Traffic

end SignalBroker
