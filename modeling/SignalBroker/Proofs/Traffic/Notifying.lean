import SignalBroker.Proofs.Broker.Course
import SignalBroker.Proofs.Traffic.Replay
import SignalBroker.Proofs.Traffic.Setting

namespace SignalBroker

namespace Store

/-- The echo of a write of some values to a store that had that many changes before. -/
structure Echoes (s : Store) (n : Nat) (values : Values) (b : Batch) : Prop where
  isNew : n < b.seq
  last : b.seq = s.seq
  value : ∀ path v, b.values.find? path = some v → values.find? path = some v

/-- At most the echo of a write is left in the stream, behind batches of before. -/
def Trails (s : Store) (old : List Batch) (n : Nat) (values : Values) : Prop :=
  ∃ older, (∀ b ∈ older, b ∈ old) ∧ (s.stream.queue = older ∨
    ∃ echo, s.stream.queue = older ++ [echo] ∧ s.Echoes n values echo)

variable {s s' : Store} {old : List Batch} {n : Nat} {values : Values}

theorem trails_written {l : Nat} (hw : s.Written values s' (.landed l))
    (hopen : s.stream.closed = false) (hold : ∀ b ∈ s.stream.queue, b ∈ old) (hn : n ≤ s.seq) :
    s'.Trails old n values := by
  refine ⟨s.stream.queue, hold, ?_⟩
  cases hw with
  | unchanged => exact .inl rfl
  | unheard => exact .inl rfl
  | sent _ _ ho =>
    refine .inr ⟨_, ChangeStream.queue_offer hopen ho, Nat.lt_succ_of_le hn, rfl, ?_⟩
    intro path v hv
    exact (find?_pushed.mp hv).1

/-- What is taken out of the stream is a batch of before, or the echo, and then the stream is empty. -/
theorem Trails.popped {b : Batch} {stream : ChangeStream} (h : s.Trails old n values)
    (hp : s.stream.pop = some (b, stream)) : ({ s with stream } : Store).Trails old n values ∧
      (b ∈ old ∨ stream.queue = [] ∧ s.Echoes n values b) := by
  obtain ⟨older, hold, hq⟩ := h
  rw [mem_of_pop hp] at hq
  cases older with
  | nil =>
    obtain hq | ⟨echo, hq, hecho⟩ := hq
    · cases hq
    · obtain ⟨rfl, hrest⟩ := List.cons_eq_cons.mp hq
      exact ⟨⟨[], nofun, .inl hrest⟩, .inr ⟨hrest, hecho⟩⟩
  | cons c older =>
    obtain ⟨hc, hrest⟩ := List.forall_mem_cons.mp hold
    obtain hq | ⟨echo, hq, hecho⟩ := hq
    · obtain ⟨rfl, hnext⟩ := List.cons_eq_cons.mp hq
      exact ⟨⟨older, hrest, .inl hnext⟩, .inl hc⟩
    · obtain ⟨rfl, hnext⟩ := List.cons_eq_cons.mp hq
      exact ⟨⟨older, hrest, .inr ⟨echo, hnext, hecho.isNew, hecho.last, hecho.value⟩⟩, .inl hc⟩

inductive Drained (s : Store) : Store → Prop where
  | same : Drained s s
  | popped {b stream} (hp : s.stream.pop = some (b, stream)) : Drained s { s with stream }

theorem Drained.seq (h : s.Drained s') : s'.seq = s.seq := by
  cases h <;> rfl

theorem Drained.mem {b : Batch} (h : s.Drained s') (hb : b ∈ s'.stream.queue) :
    b ∈ s.stream.queue := by
  cases h with
  | same => exact hb
  | popped hp =>
    rw [mem_of_pop hp]
    exact List.mem_cons_of_mem _ hb

theorem Drained.trails (h : s.Drained s') (ht : s.Trails old n values) : s'.Trails old n values := by
  cases h with
  | same => exact ht
  | popped hp => exact (ht.popped hp).1

end Store

namespace Traffic

open Broker (Course Stage Telling notesOf)

variable {t g g' : Traffic} {k : Nat} {values : Values} {c : Change} {b b' : Broker Adapter}
  {id : SubscriptionId} {sub : Subscription} {stage : Stage} {told : List Telling}
  {done groups todo : List (Nat × Values)}

/-- Nothing new can be told of some values of a source: its stream is empty, or their entries are up to
its last change. -/
def Settled (t : Traffic) (k : Nat) (values : Values) : Prop :=
  ∀ m, t.broker.registry.members[k]? = some m → m.source.store.stream.queue = [] ∨
    ∀ path v, values.find? path = some v →
      ∃ e, t.broker.registry.entries.find? path = some e ∧ m.source.store.seq ≤ e.seq

theorem news_of_settled (h : Reached Adapter.Idle t) {m : Member Adapter}
    (hm : t.broker.registry.members[c.owner]? = some m)
    (ha : (t.past c.owner).Admits m.source.store c.seq c.values) (hseq : c.seq = m.source.store.seq)
    (hvalues : ∀ path v, c.values.find? path = some v → values.find? path = some v)
    (hs : t.Settled c.owner values) (path : String) : (t.broker.news c).values.find? path = none := by
  have hcoherent := coherent_of_reached h
  cases hnews : (t.broker.news c).values.find? path with
  | none => rfl
  | some v =>
    obtain ⟨hv, e, he, -, hdiffers⟩ := (Registry.find?_news _ _ _ _ path v).mp hnews
    obtain hq | hlast := hs m hm
    · obtain ⟨ht, hfirst⟩ := hcoherent.member c.owner m hm
      obtain ⟨u, hu, huv⟩ := ha.value path v hv
      rw [hseq, Past.value?, Past.stamp_of_first_le hfirst, ht.value?] at hu
      obtain ⟨e', he', -, heu⟩ := caught_up h hm hq hu
      cases he.symm.trans he'
      obtain ⟨_, _, hmir⟩ := hcoherent.entry path e he
      simp [Entry.differs, hmir.initialized, BEq.trans heu huv] at hdiffers
    · obtain ⟨e', he', hle⟩ := hlast path v (hvalues path v hv)
      obtain ⟨e'', he'', -, hlt⟩ := later_of_news hcoherent ha hnews
      cases he'.symm.trans he''
      omega

def Drains (t t' : Traffic) (k : Nat) : Prop :=
  ∀ m', t'.broker.registry.members[k]? = some m' → ∃ m,
    t.broker.registry.members[k]? = some m ∧ m.source.store.Drained m'.source.store

theorem drains_of_members (h : g'.broker.registry.members[k]? = g.broker.registry.members[k]?) :
    Drains g g' k := by
  intro m' hm'
  exact ⟨m', h.symm.trans hm', .same⟩

theorem drains_fed {owner : Nat} {source source' : Adapter} {fed : Bool} {batch : Batch}
    (hm : t.broker.registry.members[owner]? = some ⟨source, fed⟩)
    (hr : SignalSource.receive source = some (batch, source')) (files : Files) :
    Drains t ((t.put owner source' files).apply c) k := by
  by_cases howner : k = owner
  · subst howner
    intro m' hm'
    obtain ⟨stream, hp, rfl⟩ := Adapter.pop_of_receive hr
    cases (member_put hm (source.withStream stream) files).symm.trans hm'
    exact ⟨_, hm, .popped hp⟩
  · exact drains_of_members (member_put_ne howner source' files)

theorem Settled.step {P : Adapter → Prop} (h : g.Settled k values) (hs : Step P g g')
    (hd : Drains g g' k) : g'.Settled k values := by
  intro m' hm'
  obtain ⟨m, hm, hdrained⟩ := hd m' hm'
  refine (h m hm).imp ?_ ?_
  · intro hq
    rw [List.eq_nil_iff_forall_not_mem]
    intro b hb
    have hb := hdrained.mem hb
    rw [hq] at hb
    cases hb
  · intro hlast path v hv
    obtain ⟨e, he, hle⟩ := hlast path v hv
    obtain ⟨e', he', -, hle'⟩ := entry_step hs he
    rw [hdrained.seq]
    exact ⟨e', he', Nat.le_trans hle hle'⟩

theorem settled_finished (h : g.Coherent) (hc : c ∈ g.landed) {m : Member Adapter}
    (hm : g.broker.registry.members[c.owner]? = some m) (hseq : c.seq = m.source.store.seq)
    (landed : List Change) : Settled { g.apply c with landed } c.owner c.values := by
  intro m' hm'
  cases hm.symm.trans hm'
  refine .inr ?_
  intro path v hv
  obtain ⟨e, he, howner⟩ := h.target c hc path v hv
  refine ⟨e.hear e.owner c.seq (some v), ?_, ?_⟩
  · show (g.apply c).broker.registry.entries.find? path = _
    rw [find?_apply, he, hv, howner]
    rfl
  · rw [← hseq]
    exact e.le_seq_hear c.seq v

/-- A write that has reached some sources, each with a group of values. The streams of the others hold
nothing that was not there before. -/
structure Underway (t : Traffic) (done : List (Nat × Values)) (g : Traffic) : Prop where
  later : Later Adapter.Idle t g
  untouched : ∀ k m, g.broker.registry.members[k]? = some m → (∀ group ∈ done, group.1 ≠ k) →
    ∀ b ∈ m.source.store.stream.queue, b ∈ t.broker.queueOf k
  trails : ∀ group ∈ done, ∀ m, g.broker.registry.members[group.1]? = some m →
    m.source.store.Trails (t.broker.queueOf group.1) (t.broker.seqOf group.1) group.2

theorem queueOf_eq {m : Member Adapter} (hm : b.registry.members[k]? = some m) :
    b.queueOf k = m.source.store.stream.queue := by
  rw [Broker.queueOf, hm]
  rfl

theorem seqOf_eq {m : Member Adapter} (hm : b.registry.members[k]? = some m) :
    b.seqOf k = m.source.store.seq := by
  rw [Broker.seqOf, hm]
  rfl

theorem seqOf_le {P : Adapter → Prop} (h : t.Coherent) (hl : Later P t g) {m : Member Adapter}
    (hm : g.broker.registry.members[k]? = some m) : t.broker.seqOf k ≤ m.source.store.seq := by
  cases hk : t.broker.registry.members[k]? with
  | none => simp [Broker.seqOf, hk]
  | some old =>
    obtain ⟨m', hm', hc⟩ := member_later h hl hk
    cases hm.symm.trans hm'
    rw [seqOf_eq hk]
    exact hc.seq_le

theorem seq_le_seqOf (h : t.Coherent) {batch : Batch} (hb : batch ∈ t.broker.queueOf k) :
    batch.seq ≤ t.broker.seqOf k := by
  cases hk : t.broker.registry.members[k]? with
  | none => simp [Broker.queueOf, hk] at hb
  | some m =>
    rw [queueOf_eq hk] at hb
    rw [seqOf_eq hk]
    exact ((h.member k m hk).1.batch batch hb).2.1

theorem underway_start (t : Traffic) : Underway t [] t where
  later := .refl
  untouched k m hm _ b hb := by
    rw [queueOf_eq hm]
    exact hb
  trails := nofun

theorem Underway.step (h : Underway t done g) (hs : Step Adapter.Idle g g')
    (hd : ∀ k, Drains g g' k) : Underway t done g' := by
  refine ⟨h.later.tail hs, ?_, ?_⟩
  · intro k m' hm' hnot b hb
    obtain ⟨m, hm, hdrained⟩ := hd k m' hm'
    exact h.untouched k m hm hnot b (hdrained.mem hb)
  · intro group hg m' hm'
    obtain ⟨m, hm, hdrained⟩ := hd group.1 m' hm'
    exact hdrained.trails (h.trails group hg m hm)

theorem Underway.wrote (h : Underway t done g) (ht : Reached Adapter.Idle t) {owner : Nat}
    {m : Member Adapter} {source : Adapter} {files : Files} {seq : Nat}
    (hnew : ∀ group ∈ done, group.1 ≠ owner)
    (hm : g.broker.registry.members[owner]? = some m)
    (hset : SignalSource.set m.source g.broker.files values = .ok (source, files, .landed seq)) :
    Underway t (done ++ [(owner, values)])
      { g.put owner source files with landed := g.landed ++ [⟨owner, seq, values⟩] } := by
  refine ⟨h.later.tail (.wrote hm hset), ?_, ?_⟩
  · intro k mk hk hnot
    have hne : k ≠ owner := (hnot (owner, values) (by simp)).symm
    exact h.untouched k mk ((member_put_ne hne source files).symm.trans hk)
      fun group hg => hnot group (List.mem_append_left _ hg)
  · intro group hg mk hk
    obtain hg | hg := List.mem_append.mp hg
    · exact h.trails group hg mk ((member_put_ne (hnew group hg) source files).symm.trans hk)
    · cases List.mem_singleton.mp hg
      cases (member_put hm source files).symm.trans hk
      have hopen := ((fresh_of_reached (reached_later ht h.later)).member owner m hm).isOpen
      exact Store.trails_written (Store.written_of_write (Adapter.store_of_set hset)) hopen
        (h.untouched owner m hm hnew) (seqOf_le (coherent_of_reached ht) h.later hm)

/-- What has been told so far is of sources that have been written to, and settled since. A path that no
batch of before tells of has changed only in what has been told. -/
structure Accounted (sub : Subscription) (t : Traffic) (done : List (Nat × Values))
    (told : List Telling) (g : Traffic) : Prop where
  owners : ∀ x ∈ told, ∃ group ∈ done, group.1 = x.owner
  settled : ∀ x ∈ told, ∀ group ∈ done, group.1 = x.owner → g.Settled group.1 group.2
  quiet : told.Pairwise fun x y => x.owner = y.owner → y.Quiet
  faithful : ∀ x ∈ told, x.Faithful sub
  changed : ∀ path e, t.broker.registry.entries.find? path = some e →
    (∀ b ∈ t.broker.queueOf e.owner, b.values.find? path = none) →
    g.broker.registry.cached.find? path = t.broker.registry.cached.find? path ∨
      ∃ x ∈ told, x.owner = e.owner ∧
        x.after.find? path = g.broker.registry.cached.find? path ∧
        x.before.find? path ≠ x.after.find? path

theorem accounted_start (sub : Subscription) (t : Traffic) : Accounted sub t [] [] t :=
  ⟨nofun, nofun, .nil, nofun, fun _ _ _ _ => .inl rfl⟩

theorem Accounted.step (h : Accounted sub t done told g) (hs : Step Adapter.Idle g g')
    (hd : ∀ k, Drains g g' k)
    (hcached : ∀ path e, t.broker.registry.entries.find? path = some e →
      (∀ b ∈ t.broker.queueOf e.owner, b.values.find? path = none) →
      g'.broker.registry.cached.find? path = g.broker.registry.cached.find? path) :
    Accounted sub t done told g' := by
  refine ⟨h.owners, ?_, h.quiet, h.faithful, ?_⟩
  · intro x hx group hg howner
    exact (h.settled x hx group hg howner).step hs (hd _)
  · intro path e he hold
    rw [hcached path e he hold]
    exact h.changed path e he hold

theorem Accounted.wrote (h : Accounted sub t done told g) {owner : Nat} {m : Member Adapter}
    {source : Adapter} {files : Files} {seq : Nat} (hnew : ∀ group ∈ done, group.1 ≠ owner)
    (hm : g.broker.registry.members[owner]? = some m)
    (hset : SignalSource.set m.source g.broker.files values = .ok (source, files, .landed seq)) :
    Accounted sub t (done ++ [(owner, values)]) told
      { g.put owner source files with landed := g.landed ++ [⟨owner, seq, values⟩] } := by
  refine ⟨?_, ?_, h.quiet, h.faithful, h.changed⟩
  · intro x hx
    obtain ⟨group, hg, howner⟩ := h.owners x hx
    exact ⟨group, List.mem_append_left _ hg, howner⟩
  · intro x hx group hg howner
    obtain ⟨other, ho, hother⟩ := h.owners x hx
    obtain hg | hg := List.mem_append.mp hg
    · refine (h.settled x hx group hg howner).step
        (@Step.wrote Adapter.Idle _ _ _ _ _ _ _ hm hset) (drains_of_members ?_)
      exact member_put_ne (hnew group hg) source files
    · cases List.mem_singleton.mp hg
      exact absurd (hother.trans howner.symm) (hnew other ho)

/-- What is new of a path comes from its owner. -/
theorem owner_of_news {P : Adapter → Prop} (hl : Later P t g) {path : String} {e : Entry}
    {v : SignalValue} (he : t.broker.registry.entries.find? path = some e)
    (hnews : (g.broker.news c).values.find? path = some v) :
    c.owner = e.owner ∧ c.values.find? path = some v := by
  obtain ⟨hv, e', he', hheeds, -⟩ := (Registry.find?_news _ _ _ _ path v).mp hnews
  obtain ⟨e'', he'', howner, -⟩ := entry_later hl he
  cases he'.symm.trans he''
  exact ⟨((e'.heeds_iff c.owner c.seq).mp hheeds).1.symm.trans howner, hv⟩

theorem cached_applied_cases (ht : Reached Adapter.Idle t) (hl : Later Adapter.Idle t g)
    {path : String} {e : Entry} (he : t.broker.registry.entries.find? path = some e) :
    (g.broker.applied c).registry.cached.find? path = g.broker.registry.cached.find? path ∨
      c.owner = e.owner ∧ g.broker.registry.cached.find? path ≠
        (g.broker.applied c).registry.cached.find? path := by
  rw [Broker.find?_cached_applied]
  cases hnews : (g.broker.news c).values.find? path with
  | none => exact .inl rfl
  | some v =>
    have hanswered := answered_of_coherent (coherent_of_reached (reached_later ht hl))
    obtain ⟨u, hu, hne⟩ := Broker.ne_of_news hanswered hnews
    refine .inr ⟨(owner_of_news hl he hnews).1, ?_⟩
    rw [hu]
    intro hsame
    cases hsame
    simp at hne

/-- A change is told of that leaves its source settled. If something has been told of the source
before, it is settled already. -/
theorem Accounted.tell (h : Accounted sub t done told g) (ht : Reached Adapter.Idle t)
    (hl : Later Adapter.Idle t g) {m : Member Adapter}
    (hm : g.broker.registry.members[c.owner]? = some m)
    (ha : (g.past c.owner).Admits m.source.store c.seq c.values) (hseq : c.seq = m.source.store.seq)
    (hgroup : (c.owner, values) ∈ done)
    (hvalues : ∀ path v, c.values.find? path = some v → values.find? path = some v)
    (hr : g.broker.Receives id sub) (hr' : (g.broker.applied c).Receives id sub)
    (hs : Step Adapter.Idle g g') (hd : ∀ k, Drains g g' k)
    (hentries : g'.broker.registry.entries = (g.broker.applied c).registry.entries)
    (hsettled : ∀ group ∈ done, group.1 = c.owner → g'.Settled group.1 group.2) :
    Accounted sub t done (told ++ [g.broker.telling id sub c]) g' := by
  have hcached : g'.broker.registry.cached = (g.broker.applied c).registry.cached := by
    rw [Registry.cached, hentries]
    rfl
  refine ⟨?_, ?_, ?_, ?_, ?_⟩
  · intro x hx
    obtain hx | hx := List.mem_append.mp hx
    · exact h.owners x hx
    · cases List.mem_singleton.mp hx
      exact ⟨_, hgroup, rfl⟩
  · intro x hx group hg howner
    obtain hx | hx := List.mem_append.mp hx
    · exact (h.settled x hx group hg howner).step hs (hd _)
    · cases List.mem_singleton.mp hx
      exact hsettled group hg howner
  · refine List.pairwise_append.mpr ⟨h.quiet, List.pairwise_singleton _ _, ?_⟩
    intro x hx y hy howner
    cases List.mem_singleton.mp hy
    have hnone := news_of_settled (reached_later ht hl) hm ha hseq hvalues
      (h.settled x hx _ hgroup howner.symm)
    exact Broker.quiet_telling hr hr' hnone
  · intro x hx
    obtain hx | hx := List.mem_append.mp hx
    · exact h.faithful x hx
    · cases List.mem_singleton.mp hx
      exact Broker.faithful_telling hr hr'
  · intro path e he hold
    rw [hcached]
    obtain hsame | ⟨howner, hne⟩ := cached_applied_cases (c := c) ht hl he
    · rw [hsame]
      refine (h.changed path e he hold).imp_right ?_
      rintro ⟨x, hx, howner, hchanged⟩
      exact ⟨x, List.mem_append_left _ hx, howner, hchanged⟩
    · exact .inr ⟨_, List.mem_append_right _ (List.mem_singleton.mpr rfl), howner, rfl, hne⟩

/-- The broker of a write, where the write counts as begun in the traffic once it has found room. -/
inductive Seen (g : Traffic) (done : List (Nat × Values)) : Stage → Broker Adapter → Prop where
  | free : Seen g done .free g.broker
  | waits {owner : Nat} {values : Values} {batch : Batch} {m : Member Adapter}
    (hm : g.broker.registry.members[owner]? = some m)
    (hw : ∀ path v, values.find? path = some v → m.source.store.refusal? true path = none)
    (hb : (m.source.store.commit values).2 = some batch) :
    Seen g done (.waits owner values batch)
      (g.broker.put owner ⟨(m.source.store.commit values).1, m.source.backing⟩ g.broker.files)
  | landed {c : Change} {m : Member Adapter} (hc : c ∈ g.landed) (hg : (c.owner, c.values) ∈ done)
    (hm : g.broker.registry.members[c.owner]? = some m) (hseq : c.seq = m.source.store.seq) :
    Seen g done (.landed c) g.broker

theorem Seen.receives (h : Seen g done stage b) (hr : b.Receives id sub) :
    g.broker.Receives id sub := by
  cases h <;> exact hr

/-- While a write waits, what is fed from its source was there before. -/
theorem seen_fed_waiting {source source' : Adapter} {batch waiting : Batch} {m : Member Adapter}
    (hm : g.broker.registry.members[k]? = some m)
    (hw : ∀ path v, values.find? path = some v → m.source.store.refusal? true path = none)
    (hb : (m.source.store.commit values).2 = some waiting)
    (hs : source = ⟨(m.source.store.commit values).1, m.source.backing⟩)
    (hr : SignalSource.receive source = some (batch, source')) (c : Change) :
    ∃ a', SignalSource.receive m.source = some (batch, a') ∧
      Seen ((g.put k a' g.broker.files).apply c) done (.waits k values waiting)
        ((g.broker.put k source' g.broker.files).applied c) := by
  subst hs
  obtain ⟨stream, hp, rfl⟩ := Adapter.pop_of_receive hr
  let a' : Adapter := m.source.withStream stream
  have hp : m.source.store.stream.pop = some (batch, stream) := by
    rw [← hp]
    exact congrArg _ (Store.stream_commit _ _).symm
  have hcommit : a'.store.commit values = _ := m.source.store.commit_withStream values stream
  have hm' : ((g.put k a' g.broker.files).apply c).broker.registry.members[k]? =
      some { m with source := a' } := member_put hm a' g.broker.files
  have hseen : Seen ((g.put k a' g.broker.files).apply c) done (.waits k values waiting) _ :=
    .waits hm' hw ((congrArg Prod.snd hcommit).trans hb)
  have hsame : (⟨(a'.store.commit values).1, a'.backing⟩ : Adapter) =
      Adapter.withStream ⟨(m.source.store.commit values).1, m.source.backing⟩ stream := by
    rw [hcommit]
    rfl
  have hbroker : ((g.put k a' g.broker.files).apply c).broker.put k
      (Adapter.withStream ⟨(m.source.store.commit values).1, m.source.backing⟩ stream)
      g.broker.files = _ := congrArg (Broker.applied · c) (g.broker.put_put k a' _ _ _)
  refine ⟨a', Option.map_eq_some_iff.mpr ⟨_, hp, rfl⟩, ?_⟩
  rw [← hbroker, ← hsame]
  exact hseen

theorem Seen.fed (h : Seen g done stage b) {source source' : Adapter} {batch : Batch}
    (hm : b.registry.members[k]? = some ⟨source, true⟩)
    (hr : SignalSource.receive source = some (batch, source')) :
    ∃ a a', g.broker.registry.members[k]? = some ⟨a, true⟩ ∧
      SignalSource.receive a = some (batch, a') ∧
      Seen ((g.put k a' g.broker.files).apply ⟨k, batch.seq, batch.values⟩) done stage
        ((b.put k source' b.files).applied ⟨k, batch.seq, batch.values⟩) := by
  cases h with
  | free => exact ⟨source, source', hm, hr, .free⟩
  | @landed c m hc hg hmember hseq =>
    refine ⟨source, source', hm, hr, ?_⟩
    by_cases howner : c.owner = k
    · have hsame : (some m : Option (Member Adapter)) = some ⟨source, true⟩ := by
        rw [← hmember, howner, hm]
      cases hsame
      obtain ⟨stream, -, rfl⟩ := Adapter.pop_of_receive hr
      subst howner
      exact .landed hc hg (member_put hm _ g.broker.files) hseq
    · exact .landed hc hg ((member_put_ne howner _ g.broker.files).trans hmember) hseq
  | @waits owner values waiting m hmember hw hb =>
    by_cases howner : k = owner
    · subst howner
      have hput := (member_put hmember _ _).symm.trans hm
      rw [Option.some.injEq, Member.mk.injEq] at hput
      obtain ⟨hsource, hfed⟩ := hput
      obtain ⟨a', hr', hseen⟩ := seen_fed_waiting hmember hw hb hsource.symm hr
        ⟨k, batch.seq, batch.values⟩
      refine ⟨m.source, a', ?_, hr', ?_⟩
      · rw [hmember, ← hfed]
      · rw [Broker.put_put]
        exact hseen
    · have hput := (member_put_ne howner _ _).symm.trans hm
      refine ⟨source, source', hput, hr, ?_⟩
      rw [Broker.put_comm _ (Ne.symm howner), Broker.put_applied]
      exact .waits ((member_put_ne (Ne.symm howner) _ g.broker.files).trans hmember) hw hb

/-- The oldest batch of a stream was there before, or it is the echo of the write. -/
theorem Underway.old_or_echo (h : Underway t done g) {a : Adapter} {fed : Bool} {batch : Batch}
    {stream : ChangeStream} (hm : g.broker.registry.members[k]? = some ⟨a, fed⟩)
    (hp : a.store.stream.pop = some (batch, stream)) : batch ∈ t.broker.queueOf k ∨
      ∃ group ∈ done, group.1 = k ∧ stream.queue = [] ∧
        a.store.Echoes (t.broker.seqOf k) group.2 batch := by
  by_cases hnew : ∀ group ∈ done, group.1 ≠ k
  · refine .inl (h.untouched k _ hm hnew batch ?_)
    rw [Store.mem_of_pop hp]
    exact List.mem_cons_self
  · simp only [not_forall, not_not] at hnew
    obtain ⟨group, hg, rfl⟩ := hnew
    exact ((h.trails group hg _ hm).popped hp).2.imp_right fun hecho => ⟨group, hg, rfl, hecho⟩

theorem cached_of_old (hl : Later Adapter.Idle t g) {batch : Batch}
    (hb : batch ∈ t.broker.queueOf k) {path : String} {e : Entry}
    (he : t.broker.registry.entries.find? path = some e)
    (hold : ∀ b ∈ t.broker.queueOf e.owner, b.values.find? path = none) :
    (g.broker.applied ⟨k, batch.seq, batch.values⟩).registry.cached.find? path =
      g.broker.registry.cached.find? path := by
  rw [Broker.find?_cached_applied]
  cases hnews : (g.broker.news ⟨k, batch.seq, batch.values⟩).values.find? path with
  | none => rfl
  | some v =>
    obtain ⟨rfl, hv⟩ := owner_of_news hl he hnews
    rw [hold batch hb] at hv
    cases hv

structure Progress (id : SubscriptionId) (sub : Subscription) (t : Traffic) (groups : Table Nat Values)
    (b : Broker Adapter) (todo : List (Nat × Values)) (stage : Stage) (told : List Telling)
    (done : List (Nat × Values)) (g : Traffic) : Prop where
  groups : groups.toList = done ++ (stage.pending ++ todo)
  seen : Seen g done stage b
  underway : Underway t done g
  accounted : Accounted sub t done told g

theorem new_of_groups {table : Table Nat Values} {owner : Nat} {rest : List (Nat × Values)}
    (h : table.toList = done ++ (owner, values) :: rest) : ∀ group ∈ done, group.1 ≠ owner := by
  intro group hg
  have hascending : table.toList.Pairwise fun x y => x.1 < y.1 := table.ascending
  rw [h] at hascending
  exact Nat.ne_of_lt ((List.pairwise_append.mp hascending).2.2 group hg _ List.mem_cons_self)

theorem values_of_groups {table : Table Nat Values} {rest : List (Nat × Values)}
    (h : table.toList = done ++ rest) {group group' : Nat × Values} (hg : group ∈ done)
    (hg' : group' ∈ done) (howner : group.1 = group'.1) : group.2 = group'.2 := by
  have hfind : ∀ x ∈ done, table.find? x.1 = some x.2 := by
    intro x hx
    exact (table.mem_toList_iff _ _).mp (h ▸ List.mem_append_left _ hx)
  apply Option.some.inj
  rw [← hfind group hg, howner, hfind group' hg']

theorem Progress.wrote {table : Table Nat Values} {owner : Nat} {rest : List (Nat × Values)}
    {m : Member Adapter} {source : Adapter} {files : Files} {seq : Nat}
    (ht : Reached Adapter.Idle t) (hgroups : table.toList = done ++ (owner, values) :: rest)
    (hu : Underway t done g) (ha : Accounted sub t done told g)
    (hm : g.broker.registry.members[owner]? = some m)
    (hset : SignalSource.set m.source g.broker.files values = .ok (source, files, .landed seq)) :
    Progress id sub t table (g.broker.put owner source files) rest (.landed ⟨owner, seq, values⟩) told
      (done ++ [(owner, values)])
      { g.put owner source files with landed := g.landed ++ [⟨owner, seq, values⟩] } := by
  have hnew := new_of_groups hgroups
  refine ⟨?_, ?_, hu.wrote ht hnew hm hset, ha.wrote hnew hm hset⟩
  · rw [hgroups, List.append_assoc]
    rfl
  · have hlanded := (Store.written_of_write (Adapter.store_of_set hset)).landed
    exact .landed (by simp) (by simp) (member_put hm source files) hlanded

theorem Progress.resumed {table : Table Nat Values} {owner : Nat} {batch : Batch}
    {m : Member Adapter} {stream : ChangeStream} (ht : Reached Adapter.Idle t)
    (h : Progress id sub t table b todo (.waits owner values batch) told done g)
    (hm : b.registry.members[owner]? = some m)
    (ho : m.source.store.stream.offer batch = some stream) :
    ∃ done' g', Progress id sub t table
      (b.put owner (m.source.withStream stream)
        (Adapter.persist m.source.backing (m.source.withStream stream).store b.files))
      todo (.landed ⟨owner, m.source.store.seq, values⟩) told done' g' := by
  obtain ⟨hgroups, hseen, hu, ha⟩ := h
  cases hseen with
  | @waits _ _ _ mg hmember hw hb =>
    have hput := (member_put hmember _ _).symm.trans hm
    cases hput
    have hwrite : mg.source.store.set values =
        .ok ({ (mg.source.store.commit values).1 with stream },
          .landed (mg.source.store.commit values).1.seq) := by
      refine Store.write_eq_ok_iff.mpr ⟨hw, ?_⟩
      rw [hb, Store.deliver]
      simp only [ho]
    rw [Broker.put_put]
    exact ⟨_, _, Progress.wrote ht hgroups hu ha hmember (Adapter.set_lands g.broker.files hwrite)⟩

theorem Progress.applied {table : Table Nat Values} (ht : Reached Adapter.Idle t)
    (h : Progress id sub t table b todo (.landed c) told done g) (hr : b.Receives id sub)
    (hr' : (b.applied c).Receives id sub) :
    ∃ g', Progress id sub t table (b.applied c) todo .free (told ++ [b.telling id sub c]) done g' := by
  obtain ⟨hgroups, hseen, hu, ha⟩ := h
  cases hseen with
  | @landed _ m hc hg hm hseq =>
    obtain ⟨before, after, hl⟩ := List.append_of_mem hc
    have hcoherent := coherent_of_reached (reached_later ht hu.later)
    obtain ⟨m', hm', -, hadmits⟩ := hcoherent.landed c hc
    cases hm.symm.trans hm'
    have hs : Step Adapter.Idle g { g.apply c with landed := before ++ after } := .finished hl
    have hd : ∀ k, Drains g { g.apply c with landed := before ++ after } k :=
      fun _ => drains_of_members rfl
    refine ⟨_, hgroups, .free, hu.step hs hd,
      ha.tell ht hu.later hm hadmits hseq hg (fun _ _ hv => hv) hr hr' hs hd rfl ?_⟩
    intro group hgroup howner
    rw [howner, values_of_groups hgroups hgroup hg howner]
    exact settled_finished hcoherent hc hm hseq _

theorem Progress.fed {table : Table Nat Values} {source source' : Adapter} {batch : Batch}
    (ht : Reached Adapter.Idle t) (h : Progress id sub t table b todo stage told done g)
    (hm : b.registry.members[k]? = some ⟨source, true⟩)
    (hrec : SignalSource.receive source = some (batch, source')) (hr : b.Receives id sub)
    (hr' : ((b.put k source' b.files).applied ⟨k, batch.seq, batch.values⟩).Receives id sub) :
    ∃ g', Progress id sub t table ((b.put k source' b.files).applied ⟨k, batch.seq, batch.values⟩)
      todo stage
      (if t.broker.seqOf k < batch.seq then
        told ++ [(b.put k source' b.files).telling id sub ⟨k, batch.seq, batch.values⟩]
      else told) done g' := by
  obtain ⟨hgroups, hseen, hu, ha⟩ := h
  obtain ⟨a, a', hma, hreca, hnext⟩ := hseen.fed hm hrec
  let c : Change := ⟨k, batch.seq, batch.values⟩
  have hs : Step Adapter.Idle g ((g.put k a' g.broker.files).apply c) := .fed hma hreca
  have hd : ∀ j, Drains g ((g.put k a' g.broker.files).apply c) j :=
    fun _ => drains_fed hma hreca g.broker.files
  have hcoherent := coherent_of_reached (reached_later ht hu.later)
  obtain ⟨stream, hp, rfl⟩ := Adapter.pop_of_receive hreca
  refine ⟨_, hgroups, hnext, hu.step hs hd, ?_⟩
  obtain hold | ⟨group, hg, rfl, hq, hecho⟩ := hu.old_or_echo hma hp
  · rw [if_neg (Nat.not_lt.mpr (seq_le_seqOf (coherent_of_reached ht) hold))]
    exact ha.step hs hd fun path e he hquiet => cached_of_old hu.later hold he hquiet
  · have hadmits := admits_batch hcoherent hma (b := batch)
      (by rw [Store.mem_of_pop hp]; exact List.mem_cons_self)
    have htelling : (b.put group.1 source' b.files).telling id sub c = g.broker.telling id sub c := by
      cases hseen <;> rfl
    have hra : (g.broker.applied c).Receives id sub := by
      cases hseen <;> exact hr'
    rw [if_pos hecho.isNew, htelling]
    refine ha.tell ht hu.later hma hadmits hecho.last hg hecho.value (hseen.receives hr) hra hs hd
      rfl ?_
    intro other _ howner mo hmo
    rw [howner] at hmo
    have hput := (member_put hma (a.withStream stream) g.broker.files).symm.trans hmo
    cases hput
    exact .inl hq

theorem progress_of_course {table : Table Nat Values} (ht : Reached Adapter.Idle t)
    (hc : Course id sub t.broker table.toList b todo stage told) :
    ∃ done g, Progress id sub t table b todo stage told done g := by
  induction hc with
  | start => exact ⟨[], t, rfl, .free, underway_start t, accounted_start sub t⟩
  | wrote hc hm hset ih =>
    obtain ⟨done, g, hgroups, hseen, hu, ha⟩ := ih
    cases hseen
    exact ⟨_, _, Progress.wrote ht hgroups hu ha hm hset⟩
  | @stuck b owner values rest told m source files batch hc hm hset hb ih =>
    obtain ⟨done, g, hgroups, hseen, hu, ha⟩ := ih
    cases hseen
    refine ⟨done, g, hgroups, ?_, hu, ha⟩
    obtain ⟨hwrite, hdeliver⟩ := Store.write_eq_ok_iff.mp (Adapter.store_of_set hset)
    obtain ⟨hsource, rfl⟩ := Adapter.set_waits hset
    rw [hsource, Store.deliver_waits hdeliver.symm]
    exact .waits hm hwrite hb
  | resumed hc hm ho ih =>
    obtain ⟨done, g, h⟩ := ih
    exact h.resumed ht hm ho
  | applied hc hr ih =>
    obtain ⟨done, g, h⟩ := ih
    exact ⟨done, h.applied ht (Broker.receives_of_course hc) hr⟩
  | fed hc hm hrec hr ih =>
    obtain ⟨done, g, h⟩ := ih
    exact ⟨done, h.fed ht hm hrec (Broker.receives_of_course hc) hr⟩
  | moved hc subscriptions timers resolver clock outboxCapacity nextConnection files hr ih =>
    obtain ⟨done, g, hgroups, hseen, hu, ha⟩ := ih
    have hs : Step Adapter.Idle g _ :=
      .moved g subscriptions timers resolver clock outboxCapacity nextConnection files
    refine ⟨done, _, hgroups, ?_, hu.step hs fun _ => drains_of_members rfl,
      ha.step hs (fun _ => drains_of_members rfl) fun _ _ _ _ => rfl⟩
    cases hseen with
    | free => exact .free
    | landed hlanded hg hm hseq => exact .landed hlanded hg hm hseq
    | waits hm hw hb => exact .waits hm hw hb

def bonnet : Adapter :=
  ⟨(Store.ofName "bonnet").declare "Bonnet.IsOpen" ⟨.bool false, true, false⟩, .memory⟩

def openings : Pattern := ⟨"*.IsOpen", [.wildcard, .literal "IsOpen"], rfl⟩

def keeper : Rights := .ofGrants (.ofTable (.ofList [("*", .readWrite)])) 60

end Traffic

end SignalBroker
