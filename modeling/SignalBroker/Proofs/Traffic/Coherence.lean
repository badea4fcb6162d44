import SignalBroker.Proofs.Traffic.Basic

namespace SignalBroker

namespace Past

variable (past : Past) (s : Store)

/-- The number of changes that a sequence number of an entry stands for. An entry that has heard of no
change holds what it was registered with. -/
def stamp (seq : Nat) : Nat := if seq = 0 then past.first else seq

def value? (seq : Nat) (path : String) : Option SignalValue :=
  past.history.value? (past.stamp seq) path

structure Admits (seq : Nat) (values : Values) : Prop where
  seq_le : seq ≤ s.seq
  value : ∀ path v, values.find? path = some v → ∃ u, past.value? seq path = some u ∧ (u == v) = true

structure Continues (past' : Past) (s' : Store) : Prop where
  first : past'.first = past.first
  seq_le : s.seq ≤ s'.seq
  tells : past'.history.Tells s'
  value : ∀ n ≤ s.seq, ∀ path, past'.history.value? n path = past.history.value? n path
  signals : ∀ path, ∃ v : Signal → SignalValue, s'.signals.find? path =
    (s.signals.find? path).map fun signal => { signal with spec.value := v signal }

variable {past s} {past' : Past} {s' : Store} {seq : Nat} {values : Values}

theorem stamp_le (hf : past.first ≤ s.seq) (hs : seq ≤ s.seq) : past.stamp seq ≤ s.seq := by
  unfold stamp
  split
  · exact hf
  · exact hs

theorem stamp_of_first_le (h : past.first ≤ seq) : past.stamp seq = seq := by
  unfold stamp
  split
  · omega
  · rfl

theorem Continues.value?_eq (hc : past.Continues s past' s') (hf : past.first ≤ s.seq)
    (hs : seq ≤ s.seq) (path : String) : past'.value? seq path = past.value? seq path := by
  have hstamp : past'.stamp seq = past.stamp seq := by rw [stamp, stamp, hc.first]
  rw [value?, value?, hstamp]
  exact hc.value _ (stamp_le hf hs) path

theorem Admits.continues (ha : past.Admits s seq values) (hc : past.Continues s past' s')
    (hf : past.first ≤ s.seq) : past'.Admits s' seq values := by
  refine ⟨Nat.le_trans ha.seq_le hc.seq_le, ?_⟩
  intro path v hv
  rw [hc.value?_eq hf ha.seq_le]
  exact ha.value path v hv

theorem Continues.refl (ht : past.history.Tells s) : past.Continues s past s where
  first := rfl
  seq_le := Nat.le_refl _
  tells := ht
  value _ _ _ := rfl
  signals path := ⟨fun signal => signal.spec.value, by cases s.signals.find? path <;> rfl⟩

theorem Continues.trans {past'' : Past} {s'' : Store} (h : past.Continues s past' s')
    (h' : past'.Continues s' past'' s'') : past.Continues s past'' s'' where
  first := h'.first.trans h.first
  seq_le := Nat.le_trans h.seq_le h'.seq_le
  tells := h'.tells
  value n hn path := (h'.value n (Nat.le_trans hn h.seq_le) path).trans (h.value n hn path)
  signals path := by
    obtain ⟨v, hv⟩ := h.signals path
    obtain ⟨u, hu⟩ := h'.signals path
    refine ⟨fun signal => u { signal with spec.value := v signal }, ?_⟩
    rw [hu, hv, Option.map_map]
    rfl

theorem continues_written {d : Delivery} (ht : past.history.Tells s)
    (hw : s.Written values s' d) :
    past.Continues s ⟨past.first, past.history.record s'⟩ s' where
  first := rfl
  seq_le := by
    obtain rfl | hseq := hw.seq
    · exact Nat.le_refl _
    · omega
  tells := hw.tells ht
  value n hn path := ht.value?_record hn path
  signals path := by
    refine ⟨fun signal => (signal.hear (values.find? path)).spec.value, ?_⟩
    rw [hw.find?]
    congr 1
    funext signal
    exact signal.hear_eq _

theorem continues_popped {b : Batch} {stream : ChangeStream} (ht : past.history.Tells s)
    (hp : s.stream.pop = some (b, stream)) :
    past.Continues s ⟨past.first, past.history.record { s with stream }⟩ { s with stream } where
  first := rfl
  seq_le := Nat.le_refl _
  tells := by
    have hsame : past.history.record { s with stream } = past.history := ht.record_same rfl
    simp only [hsame]
    refine ht.congr rfl rfl ?_
    intro c hc
    rw [Store.mem_of_pop hp]
    exact List.mem_cons_of_mem _ hc
  value n hn path := ht.value?_record hn path
  signals path := ⟨fun signal => signal.spec.value, by cases s.signals.find? path <;> rfl⟩

end Past

structure Entry.Mirrors (e : Entry) (past : Past) (s : Store) (path : String) : Prop where
  signal : ∃ signal, s.signals.find? path = some signal ∧ signal.spec.isPublic = e.isPublic ∧
    signal.spec.isReadOnly = e.isReadOnly
  initialized : e.initialized = true
  seq_le : e.seq ≤ s.seq
  value : ∃ v, past.value? e.seq path = some v ∧ (e.value == v) = true

namespace Entry

variable {e : Entry} {past past' : Past} {s s' : Store} {path : String}

theorem Mirrors.continues (hm : e.Mirrors past s path) (hc : past.Continues s past' s')
    (hf : past.first ≤ s.seq) : e.Mirrors past' s' path := by
  refine ⟨?_, hm.initialized, Nat.le_trans hm.seq_le hc.seq_le, ?_⟩
  · obtain ⟨signal, hs, hp, hr⟩ := hm.signal
    obtain ⟨v, hv⟩ := hc.signals path
    rw [hs] at hv
    exact ⟨_, hv, hp, hr⟩
  · rw [hc.value?_eq hf hm.seq_le]
    exact hm.value

/-- An entry stays as it is, or has the number and the value of the change then. -/
theorem hear_cases (e : Entry) (owner seq : Nat) (v : Option SignalValue) :
    e.hear owner seq v = e ∨ ∃ u, v = some u ∧ e.heeds owner seq = true ∧
      (e.hear owner seq v).seq = seq ∧ ((e.hear owner seq v).value == u) = true := by
  cases hh : e.heeds owner seq with
  | false => exact .inl (hear_of_not_heeds v hh)
  | true =>
    cases v with
    | none => exact .inl rfl
    | some u =>
      refine .inr ⟨u, rfl, rfl, ?_, ?_⟩
      · rw [hear_of_heeds hh, seq_advance]
      · rw [hear_of_heeds hh]
        obtain hvalue | ⟨hvalue, heq⟩ := e.value_advance seq u
        · rw [hvalue]
          exact BEq.rfl
        · rw [hvalue]
          exact heq

theorem Mirrors.hear (hm : e.Mirrors past s path) {owner seq : Nat} {values : Values}
    (ha : e.owner = owner → past.Admits s seq values) :
    (e.hear owner seq (values.find? path)).Mirrors past s path := by
  obtain hsame | ⟨v, hv, hh, hseq, hvalue⟩ := e.hear_cases owner seq (values.find? path)
  · rw [hsame]
    exact hm
  · have ha := ha ((e.heeds_iff owner seq).mp hh).1
    obtain ⟨u, hu, huv⟩ := ha.value path v hv
    refine ⟨?_, e.initialized_hear owner seq _ hm.initialized, ?_, u, ?_, ?_⟩
    · rw [isPublic_hear, isReadOnly_hear]
      exact hm.signal
    · rw [hseq]
      exact ha.seq_le
    · rw [hseq]
      exact hu
    · exact BEq.trans hvalue (BEq.symm huv)

end Entry

namespace Traffic

structure Coherent (t : Traffic) : Prop where
  member : ∀ owner m, t.broker.registry.members[owner]? = some m →
    (t.past owner).history.Tells m.source.store ∧ (t.past owner).first ≤ m.source.store.seq
  entry : ∀ path e, t.broker.registry.entries.find? path = some e →
    ∃ m, t.broker.registry.members[e.owner]? = some m ∧
      e.Mirrors (t.past e.owner) m.source.store path
  owned : ∀ owner m path signal, t.broker.registry.members[owner]? = some m →
    m.source.store.signals.find? path = some signal →
      ∃ e, t.broker.registry.entries.find? path = some e ∧ e.owner = owner
  landed : ∀ c ∈ t.landed, ∃ m, t.broker.registry.members[c.owner]? = some m ∧
    (t.past c.owner).first ≤ c.seq ∧ (t.past c.owner).Admits m.source.store c.seq c.values
  target : ∀ c ∈ t.landed, ∀ path v, c.values.find? path = some v →
    ∃ e, t.broker.registry.entries.find? path = some e ∧ e.owner = c.owner

variable {t t' : Traffic} {owner : Nat} {m : Member Adapter} {source : Adapter} {files : Files}

theorem past_put (k : Nat) : (t.put owner source files).past k =
    if k = owner then ⟨(t.past owner).first, (t.past owner).history.record source.store⟩
    else t.past k := by
  simp only [put, Function.update_apply]

theorem continues_put (files : Files) (h : t.Coherent)
    (hm : t.broker.registry.members[owner]? = some m)
    (hc : (t.past owner).Continues m.source.store
      ⟨(t.past owner).first, (t.past owner).history.record source.store⟩ source.store)
    {k : Nat} {mk : Member Adapter} (hk : t.broker.registry.members[k]? = some mk) :
    ∃ mk', (t.put owner source files).broker.registry.members[k]? = some mk' ∧
      (t.past k).Continues mk.source.store ((t.put owner source files).past k) mk'.source.store := by
  rw [members_put, past_put, hk]
  refine ⟨_, rfl, ?_⟩
  split
  · next heq =>
    subst heq
    cases hm.symm.trans hk
    exact hc
  · exact .refl (h.member k mk hk).1

theorem member_of_put {k : Nat} {mk' : Member Adapter}
    (hk : (t.put owner source files).broker.registry.members[k]? = some mk') :
    ∃ mk, t.broker.registry.members[k]? = some mk := by
  rw [members_put] at hk
  obtain ⟨mk, hmk, -⟩ := Option.map_eq_some_iff.mp hk
  exact ⟨mk, hmk⟩

theorem coherent_put (h : t.Coherent) (hm : t.broker.registry.members[owner]? = some m)
    (hc : (t.past owner).Continues m.source.store
      ⟨(t.past owner).first, (t.past owner).history.record source.store⟩ source.store) :
    (t.put owner source files).Coherent := by
  have hnext : ∀ {k mk}, t.broker.registry.members[k]? = some mk → ∃ mk',
      (t.put owner source files).broker.registry.members[k]? = some mk' ∧
        (t.past k).Continues mk.source.store ((t.put owner source files).past k) mk'.source.store :=
    continues_put files h hm hc
  refine ⟨?_, ?_, ?_, ?_, h.target⟩
  · intro k mk' hk'
    obtain ⟨mk, hk⟩ := member_of_put hk'
    obtain ⟨_, hk'', hcont⟩ := hnext hk
    cases hk'.symm.trans hk''
    rw [hcont.first]
    exact ⟨hcont.tells, Nat.le_trans (h.member k mk hk).2 hcont.seq_le⟩
  · intro path e he
    obtain ⟨mk, hk, hmir⟩ := h.entry path e he
    obtain ⟨mk', hk', hcont⟩ := hnext hk
    exact ⟨mk', hk', hmir.continues hcont (h.member _ mk hk).2⟩
  · intro k mk' path signal hk' hs
    obtain ⟨mk, hk⟩ := member_of_put hk'
    obtain ⟨_, hk'', hcont⟩ := hnext hk
    cases hk'.symm.trans hk''
    obtain ⟨v, hv⟩ := hcont.signals path
    rw [hs] at hv
    obtain ⟨old, hold, -⟩ := Option.map_eq_some_iff.mp hv.symm
    exact h.owned k mk path old hk hold
  · intro c hcm
    obtain ⟨mk, hk, hlow, ha⟩ := h.landed c hcm
    obtain ⟨mk', hk', hcont⟩ := hnext hk
    refine ⟨mk', hk', ?_, ha.continues hcont (h.member _ mk hk).2⟩
    rw [hcont.first]
    exact hlow

theorem entry_apply {c : Change} {path : String} {e : Entry}
    (he : t.broker.registry.entries.find? path = some e) :
    ∃ e', (t.apply c).broker.registry.entries.find? path = some e' ∧ e'.owner = e.owner ∧
      e.seq ≤ e'.seq := by
  rw [find?_apply, he]
  exact ⟨_, rfl, e.owner_hear _ _ _, e.seq_le_hear _ _ _⟩

theorem coherent_apply (h : t.Coherent) {c : Change}
    (hm : t.broker.registry.members[c.owner]? = some m)
    (ha : (t.past c.owner).Admits m.source.store c.seq c.values) : (t.apply c).Coherent := by
  refine ⟨h.member, ?_, ?_, h.landed, ?_⟩
  · intro path e' he'
    rw [find?_apply] at he'
    obtain ⟨e, he, rfl⟩ := Option.map_eq_some_iff.mp he'
    obtain ⟨me, hme, hmir⟩ := h.entry path e he
    rw [Entry.owner_hear]
    refine ⟨me, hme, hmir.hear ?_⟩
    intro howner
    rw [howner, hm] at hme
    cases hme
    rw [howner]
    exact ha
  · intro k mk path signal hk hs
    obtain ⟨e, he, howner⟩ := h.owned k mk path signal hk hs
    obtain ⟨e', he', howner', -⟩ := entry_apply he
    exact ⟨e', he', howner'.trans howner⟩
  · intro d hd path v hv
    obtain ⟨e, he, howner⟩ := h.target d hd path v hv
    obtain ⟨e', he', howner', -⟩ := entry_apply he
    exact ⟨e', he', howner'.trans howner⟩

theorem admits_batch (h : t.Coherent) (hm : t.broker.registry.members[owner]? = some m) {b : Batch}
    (hb : b ∈ m.source.store.stream.queue) :
    (t.past owner).Admits m.source.store b.seq b.values := by
  obtain ⟨ht, -⟩ := h.member owner m hm
  obtain ⟨hpos, hle, hv⟩ := ht.batch b hb
  refine ⟨hle, ?_⟩
  intro path v hb
  refine ⟨v, ?_, BEq.rfl⟩
  rw [Past.value?, Past.stamp, if_neg (Nat.ne_of_gt hpos)]
  exact hv path v hb

theorem admits_landed {past : Past} {s s' : Store} {values : Values} {n : Nat}
    (ht : past.history.Tells s) (hf : past.first ≤ s.seq)
    (hw : s.Written values s' (.landed n))
    (hknown : ∀ path v, values.find? path = some v → ∃ signal, s.signals.find? path = some signal) :
    past.first ≤ n ∧ Past.Admits ⟨past.first, past.history.record s'⟩ s' n values := by
  have hc := Past.continues_written ht hw
  have hn := hw.landed
  subst hn
  have hlow : past.first ≤ s'.seq := Nat.le_trans hf hc.seq_le
  refine ⟨hlow, Nat.le_refl _, ?_⟩
  intro path v hv
  obtain ⟨signal, hs⟩ := hknown path v hv
  obtain ⟨u, hu, huv⟩ := hw.value hs hv
  refine ⟨u, ?_, huv⟩
  have hstamp : Past.stamp ⟨past.first, past.history.record s'⟩ s'.seq = s'.seq :=
    Past.stamp_of_first_le hlow
  rw [Past.value?, hstamp]
  exact (hc.tells.value? path).trans hu

theorem coherent_start (resolver : Resolver) (clock : Clock) (outboxCapacity : Nat) (files : Files) :
    (start resolver clock outboxCapacity files).Coherent := by
  refine ⟨?_, ?_, ?_, ?_, ?_⟩
  · intro k mk hk
    cases hk
  · intro path e he
    cases he
  · intro k mk path signal hk
    cases hk
  · intro c hc
    cases hc
  · intro c hc
    cases hc

theorem register_eq_ok {b b' : Broker Adapter} {a : Adapter} (h : b.register a = .ok b') :
    ∃ m, b.registry.Enrolled b'.registry a m ∧ b' = { b with registry := b'.registry } := by
  obtain ⟨registry, hr, rfl⟩ := Broker.register_eq_ok_iff.mp h
  obtain ⟨m, hm⟩ := Registry.enrolled_of_register hr
  exact ⟨m, hm, rfl⟩

theorem getElem?_enrolled {r r' : Registry Adapter} {a : Adapter} {new : Member Adapter}
    (h : r.Enrolled r' a new) (k : Nat) :
    r'.members[k]? = if k = r.members.length then some new else r.members[k]? := by
  rw [h.members, List.getElem?_append]
  by_cases hk : k < r.members.length
  · rw [if_pos hk, if_neg (Nat.ne_of_lt hk)]
  · rw [if_neg hk]
    by_cases heq : k = r.members.length
    · simp [heq]
    · have hnone : r.members[k]? = none := by simp; omega
      have hlast : [new][k - r.members.length]? = none := by simp; omega
      rw [if_neg heq, hnone, hlast]

theorem tells_enrolled {r r' : Registry Adapter} {a : Adapter} {new : Member Adapter}
    {history : History} (h : r.Enrolled r' a new) (ht : history.Tells a.store) :
    history.Tells new.source.store := by
  refine ht.congr h.seq ?_ ?_
  · ext path : 1
    rw [Store.find?_snapshot, Store.find?_snapshot, Store.value?, Store.value?, h.signals,
      Option.map_map]
    rfl
  · intro b hb
    obtain hs | ⟨-, hs⟩ := h.stream
    · rw [hs] at hb
      exact hb
    · rw [hs] at hb
      cases hb

theorem find?_enrolled {r r' : Registry Adapter} {a : Adapter} {new : Member Adapter}
    (h : r.Enrolled r' a new) {path : String} {e : Entry} (he : r.entries.find? path = some e) :
    r'.entries.find? path = some e := by
  rw [h.entries]
  cases hs : a.store.signals.find? path with
  | none => exact he
  | some signal =>
    rw [h.isNew path signal hs] at he
    cases he

theorem coherent_registered (h : t.Coherent) {a : Adapter} {history : History}
    {b' : Broker Adapter} (hl : a.store.Lived history) (hr : t.broker.register a = .ok b') :
    Coherent { t with
      broker := b'
      past := Function.update t.past t.broker.registry.members.length ⟨a.store.seq, history⟩ } := by
  obtain ⟨new, hnew, -⟩ := register_eq_ok hr
  have hget := getElem?_enrolled hnew
  have hold : ∀ {k mk}, t.broker.registry.members[k]? = some mk →
      k ≠ t.broker.registry.members.length := by
    intro k mk hk heq
    simp [heq] at hk
  have htells := tells_enrolled hnew hl.tells
  refine ⟨?_, ?_, ?_, ?_, ?_⟩
  · intro k mk hk
    rw [hget] at hk
    simp only [Function.update_apply]
    split at hk
    · next heq =>
      cases hk
      rw [if_pos heq]
      exact ⟨htells, Nat.le_of_eq hnew.seq.symm⟩
    · next heq =>
      rw [if_neg heq]
      exact h.member k mk hk
  · intro path e he
    rw [hnew.entries] at he
    simp only [hget, Function.update_apply]
    cases hs : a.store.signals.find? path with
    | some signal =>
      rw [hs] at he
      cases he
      have hsignal : new.source.store.signals.find? path = some { signal with subscribed := true } := by
        rw [hnew.signals, hs]
        rfl
      have hvalue : Past.value? ⟨a.store.seq, history⟩ 0 path = some signal.spec.value := by
        rw [Past.value?, Past.stamp, if_pos rfl, hl.tells.value?, Store.value?, hs]
        rfl
      refine ⟨new, if_pos rfl, ⟨_, hsignal, rfl, rfl⟩, rfl, Nat.zero_le _, signal.spec.value, ?_,
        BEq.rfl⟩
      simp only [Signal.entry, if_true]
      exact hvalue
    | none =>
      rw [hs] at he
      obtain ⟨me, hme, hmir⟩ := h.entry path e he
      rw [if_neg (hold hme), if_neg (hold hme)]
      exact ⟨me, hme, hmir⟩
  · intro k mk path signal hk hs
    rw [hget] at hk
    split at hk
    · next heq =>
      cases hk
      rw [hnew.signals] at hs
      obtain ⟨first, hfirst, -⟩ := Option.map_eq_some_iff.mp hs
      simp only [hnew.entries, hfirst]
      exact ⟨_, rfl, heq.symm⟩
    · obtain ⟨e, he, howner⟩ := h.owned k mk path signal hk hs
      exact ⟨e, find?_enrolled hnew he, howner⟩
  · intro c hc
    obtain ⟨mc, hmc, hlow, ha⟩ := h.landed c hc
    simp only [hget, Function.update_apply, if_neg (hold hmc)]
    exact ⟨mc, hmc, hlow, ha⟩
  · intro c hc path v hv
    obtain ⟨e, he, howner⟩ := h.target c hc path v hv
    exact ⟨e, find?_enrolled hnew he, howner⟩

theorem coherent_wrote (h : t.Coherent) {byClient : Bool} {values : Values} {n : Nat}
    (hm : t.broker.registry.members[owner]? = some m)
    (hw : m.source.store.write byClient values = .ok (source.store, .landed n)) :
    (t.put owner source files).Coherent ∧
      Coherent { t.put owner source files with landed := t.landed ++ [⟨owner, n, values⟩] } := by
  obtain ⟨ht, hfirst⟩ := h.member owner m hm
  have hwritten := Store.written_of_write hw
  have hput : (t.put owner source files).Coherent :=
    coherent_put h hm (Past.continues_written ht hwritten)
  refine ⟨hput, hput.member, hput.entry, hput.owned, ?_, ?_⟩
  · intro c hc
    obtain hc | hc := List.mem_append.mp hc
    · exact hput.landed c hc
    · cases List.mem_singleton.mp hc
      obtain ⟨hlow, ha⟩ := admits_landed ht hfirst hwritten fun _ _ hv => Store.known_of_write hw hv
      refine ⟨{ m with source }, ?_, ?_⟩
      · exact member_put hm source files
      · simp only [past_put, if_true]
        exact ⟨hlow, ha⟩
  · intro c hc path v hv
    obtain hc | hc := List.mem_append.mp hc
    · exact h.target c hc path v hv
    · cases List.mem_singleton.mp hc
      obtain ⟨signal, hs⟩ := Store.known_of_write hw hv
      exact h.owned owner m path signal hm hs

theorem coherent_finished (h : t.Coherent) {before after : List Change} {c : Change}
    (hl : t.landed = before ++ c :: after) :
    Coherent { t.apply c with landed := before ++ after } := by
  obtain ⟨m, hm, hlow, ha⟩ := h.landed c (by rw [hl]; simp)
  have happly := coherent_apply h hm ha
  have hmem : ∀ d ∈ before ++ after, d ∈ t.landed := by
    intro d hd
    rw [hl]
    obtain hd | hd := List.mem_append.mp hd
    · exact List.mem_append_left _ hd
    · exact List.mem_append_right _ (List.mem_cons_of_mem _ hd)
  exact ⟨happly.member, happly.entry, happly.owned, fun d hd => happly.landed d (hmem d hd),
    fun d hd => happly.target d (hmem d hd)⟩

theorem admits_fed (h : t.Coherent) {fed : Bool} {a : Adapter} {b : Batch}
    (hm : t.broker.registry.members[owner]? = some ⟨a, fed⟩)
    (hr : SignalSource.receive a = some (b, source)) :
    (t.put owner source files).Coherent ∧
      ∃ m, (t.put owner source files).broker.registry.members[owner]? = some m ∧
        ((t.put owner source files).past owner).Admits m.source.store b.seq b.values := by
  obtain ⟨stream, hp, rfl⟩ := Adapter.pop_of_receive hr
  obtain ⟨ht, hfirst⟩ := h.member owner _ hm
  have hc := Past.continues_popped ht hp
  have ha := admits_batch h hm (b := b) (by rw [Store.mem_of_pop hp]; exact List.mem_cons_self)
  refine ⟨coherent_put h hm hc, ⟨a.withStream stream, fed⟩, ?_, ?_⟩
  · exact member_put hm (a.withStream stream) files
  · simp only [past_put, if_true]
    exact ha.continues hc hfirst

variable {P : Adapter → Prop}

theorem coherent_step (h : t.Coherent) (hs : Step P t t') : t'.Coherent := by
  cases hs with
  | registered _ hl hr => exact coherent_registered h hl hr
  | @updated owner m values store seq backing hm hu =>
    have hw : m.source.store.write false values =
      .ok ((⟨store, backing⟩ : Adapter).store, .landed seq) := hu
    exact (coherent_wrote h hm hw).1
  | wrote hm hw => exact (coherent_wrote h hm (Adapter.store_of_set hw)).2
  | finished hl => exact coherent_finished h hl
  | fed hm hr =>
    obtain ⟨hput, m, hm', ha⟩ := admits_fed h hm hr
    exact coherent_apply hput hm' ha
  | moved => exact ⟨h.member, h.entry, h.owned, h.landed, h.target⟩

theorem coherent_later (h : t.Coherent) (hl : Later P t t') : t'.Coherent := by
  induction hl with
  | refl => exact h
  | tail _ hs ih => exact coherent_step ih hs

theorem coherent_of_reached (h : Reached P t) : t.Coherent := by
  obtain ⟨resolver, clock, outboxCapacity, files, hl⟩ := h
  exact coherent_later (coherent_start resolver clock outboxCapacity files) hl

end Traffic

end SignalBroker
