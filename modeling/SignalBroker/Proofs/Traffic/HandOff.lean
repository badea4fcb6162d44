import SignalBroker.Proofs.Broker.TakingOver
import SignalBroker.Proofs.Traffic.Cache
import SignalBroker.Proofs.Traffic.News

/-!
The registration of an adapter that has something in its stream already. What its entries are first
given is what the adapter holds when it is read, under the sequence number zero, so the batches that
wait in its stream are applied over it. Nothing goes back if each of them tells what the adapter holds
by then, and something does if one of them tells otherwise.
-/

namespace SignalBroker

/-- Every batch in the stream tells what the store holds. -/
def Store.Current (s : Store) : Prop :=
  ∀ b ∈ s.stream.queue, ∀ path v, b.values.find? path = some v →
    ∃ u, s.value? path = some u ∧ (u == v) = true

namespace Traffic

/-- A step, or a write that waits for room and is given up. -/
inductive Turn (P : Adapter → Prop) : Traffic → Traffic → Prop where
  | step {t t' : Traffic} (hs : Step P t t') : Turn P t t'
  | gaveUp {t : Traffic} {owner m byClient values store} (backing : Backing) (files : Files)
    (hm : t.broker.registry.members[owner]? = some m)
    (hw : m.source.store.write byClient values = .ok (store, .waiting)) :
    Turn P t (t.put owner ⟨store, backing⟩ files)

def Onward (P : Adapter → Prop) : Traffic → Traffic → Prop := Relation.ReflTransGen (Turn P)

def enlisted (t : Traffic) (registry : Registry Adapter) (past : Past) : Traffic :=
  { t with
    broker := { t.broker with registry }
    past := Function.update t.past t.broker.registry.members.length past }

def Held (t : Traffic) (k : Nat) (path : String) (v : SignalValue) : Prop :=
  t.Had k (t.past k).first path v

def Agrees (t : Traffic) (k : Nat) (b : Batch) : Prop :=
  ∀ path v, b.values.find? path = some v → t.Held k path v

variable {P : Adapter → Prop} {t₀ t t' : Traffic} {k owner : Nat} {source : Adapter} {files : Files}

theorem coherent_turn (h : t.Coherent) (hs : Turn P t t') : t'.Coherent := by
  cases hs with
  | step hs => exact coherent_step h hs
  | gaveUp _ _ hm hw =>
    exact coherent_put h hm
      (Past.continues_written (h.member _ _ hm).1 (Store.written_of_write hw))

theorem ordered_turn (h : t.Ordered) (hcoherent : t.Coherent) (hs : Turn P t t') : t'.Ordered := by
  cases hs with
  | step hs => exact ordered_step h hcoherent hs
  | gaveUp => exact ⟨h.news, h.behind⟩

theorem onward_keeps (h : t.Coherent) (ho : t.Ordered) (hl : Onward P t t') :
    t'.Coherent ∧ t'.Ordered := by
  induction hl with
  | refl => exact ⟨h, ho⟩
  | tail _ hs ih => exact ⟨coherent_turn ih.1 hs, ordered_turn ih.2 ih.1 hs⟩

/-- Once a source has been registered, what it held then stays what it was. -/
theorem held_put (files : Files) (h : t.Coherent) {m mk : Member Adapter}
    (hm : t.broker.registry.members[owner]? = some m)
    (hc : (t.past owner).Continues m.source.store
      ⟨(t.past owner).first, (t.past owner).history.record source.store⟩ source.store)
    (hk : t.broker.registry.members[k]? = some mk) (path : String) (v : SignalValue) :
    (t.put owner source files).Held k path v ↔ t.Held k path v := by
  obtain ⟨mk', -, hcont⟩ := continues_put files h hm hc hk
  rw [Held, Held, Had, Had, hcont.first, hcont.value _ (h.member k mk hk).2]

/-- Nothing that a member has told since goes behind its registration. -/
structure Forward (t₀ t : Traffic) (k : Nat) : Prop where
  queue : ∀ m : Member Adapter, t.broker.registry.members[k]? = some m →
    ∀ b ∈ m.source.store.stream.queue, b.seq ≤ (t.past k).first → t.Agrees k b
  entry : ∀ path e, t.broker.registry.entries.find? path = some e → e.owner = k →
    e.seq ≤ (t.past k).first → t.Held k path e.value
  news : ∃ more, t.news = t₀.news ++ more ∧ ∀ c ∈ more, c.owner = k →
    ∀ path v, c.values.find? path = some v → (t.past k).first < c.seq

theorem Forward.put {m mk : Member Adapter} (h : Forward t₀ t k) (hcoherent : t.Coherent)
    (hm : t.broker.registry.members[owner]? = some m)
    (hc : (t.past owner).Continues m.source.store
      ⟨(t.past owner).first, (t.past owner).history.record source.store⟩ source.store)
    (hq : ∀ b ∈ source.store.stream.queue,
      b ∈ m.source.store.stream.queue ∨ m.source.store.seq < b.seq)
    (hk : t.broker.registry.members[k]? = some mk) : Forward t₀ (t.put owner source files) k := by
  have hheld := held_put files hcoherent hm hc hk
  have hfirst : ((t.put owner source files).past k).first = (t.past k).first := by
    rw [past_put]
    split
    · next heq => rw [heq]
    · rfl
  refine ⟨?_, ?_, ?_⟩
  · intro mk' hk' b hb hle path v hv
    rw [hheld]
    rw [hfirst] at hle
    by_cases howner : k = owner
    · subst howner
      cases hm.symm.trans hk
      cases (member_put hm source files).symm.trans hk'
      obtain hold | hnew := hq b hb
      · exact h.queue m hm b hold hle path v hv
      · have hlow := (hcoherent.member k m hm).2
        omega
    · have hsame := (member_put_ne howner source files).symm.trans hk'
      exact h.queue mk' hsame b hb hle path v hv
  · intro path e he howner hle
    rw [hheld]
    rw [hfirst] at hle
    exact h.entry path e he howner hle
  · rw [hfirst]
    exact h.news

theorem Forward.apply (h : Forward t₀ t k) (hcoherent : t.Coherent) {c : Change}
    (hc : c.owner = k → c.seq ≤ (t.past k).first →
      ∀ path v, c.values.find? path = some v → t.Held k path v) : Forward t₀ (t.apply c) k := by
  refine ⟨h.queue, ?_, ?_⟩
  · intro path e' he' howner hle
    rw [find?_apply] at he'
    obtain ⟨e, he, rfl⟩ := Option.map_eq_some_iff.mp he'
    rw [e.owner_hear] at howner
    obtain hsame | ⟨v, hv, hh, hseq, hvalue⟩ := e.hear_cases c.owner c.seq (c.values.find? path)
    · rw [hsame] at hle ⊢
      exact h.entry path e he howner hle
    · rw [hseq] at hle
      have hk := ((e.heeds_iff c.owner c.seq).mp hh).1.symm.trans howner
      obtain ⟨u, hu, huv⟩ := hc hk hle path v hv
      exact ⟨u, hu, BEq.trans huv (BEq.symm hvalue)⟩
  · obtain ⟨more, hnews, hmore⟩ := h.news
    refine ⟨more ++ [t.broker.news c], ?_, ?_⟩
    · rw [← List.append_assoc, ← hnews]
      rfl
    · intro d hd hk path v hv
      obtain hd | hd := List.mem_append.mp hd
      · exact hmore d hd hk path v hv
      · cases List.mem_singleton.mp hd
        obtain ⟨hvalue, e, he, hh, hdiffers⟩ := (Registry.find?_news _ _ _ _ path v).mp hv
        obtain ⟨howner, hle⟩ := (e.heeds_iff c.owner c.seq).mp hh
        obtain ⟨m, -, hmir⟩ := hcoherent.entry path e he
        by_contra hlate
        have hlate : c.seq ≤ (t.past k).first := Nat.le_of_not_lt hlate
        obtain ⟨u, hu, huv⟩ := hc hk hlate path v hvalue
        obtain ⟨w, hw, hwe⟩ := h.entry path e he (howner.trans hk) (Nat.le_trans hle hlate)
        cases hu.symm.trans hw
        simp [Entry.differs, hmir.initialized, BEq.trans (BEq.symm hwe) huv] at hdiffers

theorem Forward.registered {mk new : Member Adapter} {a : Adapter} {b' : Broker Adapter}
    (h : Forward t₀ t k) (hk : t.broker.registry.members[k]? = some mk)
    (hnew : t.broker.registry.Enrolled b'.registry a new) (past : Past) :
    Forward t₀ { t with
      broker := b', past := Function.update t.past t.broker.registry.members.length past } k := by
  have hne : k ≠ t.broker.registry.members.length := by
    rintro rfl
    simp at hk
  have hpast : Function.update t.past t.broker.registry.members.length past k = t.past k :=
    Function.update_of_ne hne _ _
  refine ⟨?_, ?_, ?_⟩
  · intro m hm b hb hle path v hv
    rw [getElem?_enrolled hnew, if_neg hne] at hm
    simp only [hpast, Held, Had] at hle ⊢
    exact h.queue m hm b hb hle path v hv
  · intro path e he howner hle
    simp only [hnew.entries] at he
    simp only [hpast, Held, Had] at hle ⊢
    obtain he | ⟨-, he⟩ := Option.or_eq_some_iff.mp he
    · obtain ⟨signal, -, rfl⟩ := Option.map_eq_some_iff.mp he
      exact absurd howner.symm hne
    · exact h.entry path e he howner hle
  · simp only [hpast]
    exact h.news

/-- Whatever happens, a member that has not gone back does not. -/
theorem forward_turn {mk : Member Adapter} (h : Forward t₀ t k) (hcoherent : t.Coherent)
    (hk : t.broker.registry.members[k]? = some mk) (hs : Turn P t t') : Forward t₀ t' k := by
  have hwritten : ∀ {owner : Nat} {m : Member Adapter} {s : Store} {values : Values} {d : Delivery}
      (backing : Backing) (files : Files), t.broker.registry.members[owner]? = some m →
      m.source.store.Written values s d → Forward t₀ (t.put owner ⟨s, backing⟩ files) k := by
    intro owner m s values d backing files hm hw
    refine h.put hcoherent hm (Past.continues_written (hcoherent.member owner m hm).1 hw) ?_ hk
    intro b hb
    exact (hw.mem_queue hb).imp_right fun hseq => by omega
  cases hs with
  | gaveUp backing files hm hw => exact hwritten backing files hm (Store.written_of_write hw)
  | step hs =>
    cases hs with
    | updated backing hm hu => exact hwritten backing _ hm (Store.written_of_write hu)
    | @wrote owner m values source files seq hm hw =>
      have hput := hwritten source.backing files hm
        (Store.written_of_write (Adapter.store_of_set hw))
      exact ⟨hput.queue, hput.entry, hput.news⟩
    | @finished before c after hl =>
      obtain ⟨m, hm, hlow, ha⟩ := hcoherent.landed c (by rw [hl]; simp)
      have happly : Forward t₀ (t.apply c) k := by
        apply h.apply hcoherent
        rintro rfl hle path v hv
        have hseq : c.seq = (t.past c.owner).first := Nat.le_antisymm hle hlow
        obtain ⟨u, hu, huv⟩ := ha.value path v hv
        rw [Past.value?, Past.stamp_of_first_le hlow, hseq] at hu
        exact ⟨u, hu, huv⟩
      exact ⟨happly.queue, happly.entry, happly.news⟩
    | @fed owner source batch source' hm hr =>
      obtain ⟨stream, hp, rfl⟩ := Adapter.pop_of_receive hr
      have hq := Store.mem_of_pop hp
      have hc := Past.continues_popped (hcoherent.member owner _ hm).1 hp
      have hput : Forward t₀ (t.put owner (source.withStream stream) t.broker.files) k := by
        refine h.put hcoherent hm hc ?_ hk
        intro b hb
        rw [hq]
        exact .inl (List.mem_cons_of_mem _ hb)
      refine hput.apply (admits_fed hcoherent hm hr).1 ?_
      rintro rfl hle path v hv
      rw [held_put _ hcoherent hm hc hm]
      refine h.queue _ hm batch (by rw [hq]; exact List.mem_cons_self) ?_ path v hv
      simpa [past_put] using hle
    | registered _ _ hr =>
      obtain ⟨new, hnew, -⟩ := register_eq_ok hr
      exact h.registered hk hnew _
    | moved => exact ⟨h.queue, h.entry, h.news⟩

theorem member_turn (h : t.Coherent) (hs : Turn P t t') {m : Member Adapter}
    (hk : t.broker.registry.members[k]? = some m) :
    ∃ m', t'.broker.registry.members[k]? = some m' ∧ (t'.past k).first = (t.past k).first := by
  cases hs with
  | step hs =>
    obtain ⟨m', hm', hc⟩ := member_step h hs hk
    exact ⟨m', hm', hc.first⟩
  | @gaveUp owner mo byClient values store backing files hm hw =>
    have hc : (t.past owner).Continues mo.source.store
        ⟨(t.past owner).first, (t.past owner).history.record (⟨store, backing⟩ : Adapter).store⟩
        (⟨store, backing⟩ : Adapter).store :=
      Past.continues_written (h.member owner mo hm).1 (Store.written_of_write hw)
    obtain ⟨m', hm', hc⟩ := continues_put files h hm hc hk
    exact ⟨m', hm', hc.first⟩

theorem forward_onward (h : Forward t₀ t k) (hcoherent : t.Coherent)
    {m : Member Adapter} (hk : t.broker.registry.members[k]? = some m) (hl : Onward P t t') :
    Forward t₀ t' k ∧ (t'.past k).first = (t.past k).first := by
  suffices hall : t'.Coherent ∧ Forward t₀ t' k ∧
      ∃ m', t'.broker.registry.members[k]? = some m' ∧ (t'.past k).first = (t.past k).first by
    obtain ⟨-, hforward, -, -, hfirst⟩ := hall
    exact ⟨hforward, hfirst⟩
  induction hl with
  | refl => exact ⟨hcoherent, h, m, hk, rfl⟩
  | tail _ hs ih =>
    obtain ⟨hcoherent, hforward, m', hk', hfirst⟩ := ih
    obtain ⟨m'', hk'', hfirst'⟩ := member_turn hcoherent hs hk'
    exact ⟨coherent_turn hcoherent hs, forward_turn hforward hcoherent hk' hs, m'', hk'',
      hfirst'.trans hfirst⟩

/-- Since a member was registered after some number of changes, subscribers have heard only of later
ones, each path in their order, and entries hold what the member had then or later. -/
structure Ahead (t₀ t : Traffic) (k n : Nat) : Prop where
  news : ∃ more, t.news = t₀.news ++ more ∧ more.Pairwise Change.Precedes ∧
    ∀ c ∈ more, c.owner = k → ∀ path v, c.values.find? path = some v → n < c.seq
  entry : ∀ path e, t.broker.registry.entries.find? path = some e → e.owner = k →
    t.Had k (max e.seq n) path e.value

theorem Forward.ahead (h : Forward t₀ t k) (hcoherent : t.Coherent) (ho : t.Ordered) :
    Ahead t₀ t k (t.past k).first := by
  obtain ⟨more, hnews, hmore⟩ := h.news
  refine ⟨⟨more, hnews, ?_, hmore⟩, ?_⟩
  · have hordered := ho.news
    rw [hnews] at hordered
    exact (List.pairwise_append.mp hordered).2.1
  · rintro path e he rfl
    by_cases hle : e.seq ≤ (t.past e.owner).first
    · rw [Nat.max_eq_right hle]
      exact h.entry path e he rfl hle
    · have hlow := Nat.le_of_not_le hle
      obtain ⟨m, -, hmir⟩ := hcoherent.entry path e he
      obtain ⟨v, hv, heq⟩ := hmir.value
      rw [Past.value?, Past.stamp_of_first_le hlow] at hv
      rw [Nat.max_eq_left hlow]
      exact ⟨v, hv, BEq.symm heq⟩

structure Heard (t t' : Traffic) (k : Nat) (c : Batch) (rest : List Batch) : Prop where
  member : ∃ a : Adapter, t'.broker.registry.members[k]? = some ⟨a, true⟩ ∧
    a.store.stream.queue = rest
  entry : ∀ path, t'.broker.registry.entries.find? path =
    (t.broker.registry.entries.find? path).map fun e => e.hear k c.seq (c.values.find? path)
  news : t'.news = t.news ++ [⟨k, c.seq, t.broker.registry.news k c.seq c.values⟩]
  held : ∀ path v, t'.Held k path v ↔ t.Held k path v

theorem exists_heard (hcoherent : t.Coherent) {a : Adapter} {c : Batch} {rest : List Batch}
    (hm : t.broker.registry.members[k]? = some ⟨a, true⟩)
    (hq : a.store.stream.queue = c :: rest) : ∃ t', Step P t t' ∧ Heard t t' k c rest := by
  let stream : ChangeStream := { a.store.stream with queue := rest }
  have hp : a.store.stream.pop = some (c, stream) := by
    rw [ChangeStream.pop, hq]
  have hr : SignalSource.receive a = some (c, a.withStream stream) :=
    Option.map_eq_some_iff.mpr ⟨_, hp, rfl⟩
  have hc := Past.continues_popped (hcoherent.member k _ hm).1 hp
  refine ⟨_, .fed hm hr, ⟨a.withStream stream, ?_, rfl⟩, find?_apply, rfl, ?_⟩
  · exact member_put hm (a.withStream stream) t.broker.files
  · exact held_put t.broker.files hcoherent hm hc hm

/-- The entries of a member are behind some batches, and hold what was held when it was registered. -/
def Pristine (t : Traffic) (k : Nat) (batches : List Batch) : Prop :=
  ∀ path e, t.broker.registry.entries.find? path = some e → e.owner = k →
    (∀ c ∈ batches, e.seq < c.seq) ∧ t.Held k path e.value

theorem Pristine.heard {c : Batch} {rest : List Batch} (h : t.Pristine k (c :: rest))
    (hh : Heard t t' k c rest) (hlater : ∀ d ∈ rest, c.seq < d.seq) (hc : t.Agrees k c) : t'.Pristine k rest := by
  intro path e' he' howner
  rw [hh.entry] at he'
  obtain ⟨e, he, rfl⟩ := Option.map_eq_some_iff.mp he'
  rw [e.owner_hear] at howner
  obtain ⟨hlt, hheld⟩ := h path e he howner
  rw [hh.held]
  obtain hsame | ⟨v, hv, -, hseq, hvalue⟩ := e.hear_cases k c.seq (c.values.find? path)
  · rw [hsame]
    exact ⟨fun d hd => hlt d (List.mem_cons_of_mem _ hd), hheld⟩
  · obtain ⟨u, hu, huv⟩ := hc path v hv
    rw [hseq]
    exact ⟨hlater, u, hu, BEq.trans huv (BEq.symm hvalue)⟩

theorem Pristine.news {c : Batch} {rest : List Batch} (h : t.Pristine k (c :: rest))
    {path : String} {v : SignalValue} (hv : c.values.find? path = some v) {e : Entry}
    (he : t.broker.registry.entries.find? path = some e) (howner : e.owner = k)
    (hnot : ¬ t.Held k path v) :
    (t.broker.registry.news k c.seq c.values).find? path = some v := by
  obtain ⟨hlt, u, hu, hue⟩ := h path e he howner
  have hheeds : e.heeds k c.seq = true :=
    (e.heeds_iff k c.seq).mpr ⟨howner, Nat.le_of_lt (hlt c List.mem_cons_self)⟩
  have hdiffers : e.differs v = true := by
    by_contra hsame
    simp only [Entry.differs, Bool.not_eq_true', Bool.not_eq_false, Bool.and_eq_true] at hsame
    exact hnot ⟨u, hu, BEq.trans hue hsame.2⟩
  exact (Registry.find?_news _ _ _ _ path v).mpr ⟨hv, e, he, hheeds, hdiffers⟩

/-- Where a batch tells something else than was held, and those before it do not, feeding them goes
back. -/
theorem exists_setback (hcoherent : t.Coherent) {a : Adapter} {before after : List Batch} {b : Batch}
    (hm : t.broker.registry.members[k]? = some ⟨a, true⟩)
    (hq : a.store.stream.queue = before ++ b :: after)
    (hasc : (before ++ b :: after).Pairwise fun b c => b.seq < c.seq)
    (hpristine : t.Pristine k (before ++ b :: after))
    (hbefore : ∀ c ∈ before, t.Agrees k c)
    {path : String} {v : SignalValue} (hv : b.values.find? path = some v)
    (hknown : ∃ e, t.broker.registry.entries.find? path = some e ∧ e.owner = k)
    (hnot : ¬ t.Held k path v) :
    ∃ t' more, Onward P t t' ∧ t'.news = t.news ++ more ∧
      ∃ c ∈ more, c.owner = k ∧ c.values.find? path = some v ∧ c.seq = b.seq := by
  induction before generalizing t a with
  | nil =>
    obtain ⟨t', hs, hh⟩ := exists_heard (P := P) hcoherent hm hq
    obtain ⟨e, he, howner⟩ := hknown
    exact ⟨t', _, .single (.step hs), hh.news, _, List.mem_singleton.mpr rfl, rfl,
      hpristine.news hv he howner hnot, rfl⟩
  | cons c before ih =>
    obtain ⟨hlater, hasc⟩ := List.pairwise_cons.mp hasc
    obtain ⟨hc, hbefore⟩ := List.forall_mem_cons.mp hbefore
    obtain ⟨t₁, hs, hh⟩ := exists_heard (P := P) hcoherent hm hq
    obtain ⟨a₁, hm₁, hq₁⟩ := hh.member
    obtain ⟨t', more, hl, hnews, d, hd, htells⟩ := ih (coherent_step hcoherent hs) hm₁ hq₁ hasc
      (hpristine.heard hh hlater hc) (fun d hd path v hv => (hh.held path v).mpr (hbefore d hd path v hv))
      (by
        obtain ⟨e, he, howner⟩ := hknown
        rw [hh.entry, he]
        exact ⟨_, rfl, (e.owner_hear _ _ _).trans howner⟩)
      (fun h => hnot ((hh.held path v).mp h))
    rw [hh.news, List.append_assoc] at hnews
    exact ⟨t', _, .head (.step hs) hl, hnews, d, List.mem_append_right _ hd, htells⟩

structure Joined (t : Traffic) (k : Nat) (s : Store) : Prop where
  coherent : t.Coherent
  ordered : t.Ordered
  member : ∃ a : Adapter, t.broker.registry.members[k]? = some ⟨a, true⟩ ∧
    a.store.stream.queue = s.stream.queue
  first : (t.past k).first = s.seq
  queued : s.Queued
  tells : (t.past k).history.Tells s
  pristine : t.Pristine k s.stream.queue
  entry : ∀ path signal, s.signals.find? path = some signal →
    ∃ e, t.broker.registry.entries.find? path = some e ∧ e.owner = k

theorem joined_of_takesOver (h : t.Coherent) (ho : t.Ordered) {a late : Adapter}
    {r' : Registry Adapter} {history : History} (hl : a.store.Lived history)
    (hr : t.broker.registry.TakesOver a late r') (hon : t.broker.registry.stopped = false)
    (hfree : a.store.stream.taken = false) :
    ∃ past, Joined (t.enlisted r' past) t.broker.registry.members.length late.store := by
  obtain ⟨history', hlived, haccepted⟩ := Registry.register_of_takesOver hl hr
  let whole : Adapter := ⟨late.store.withTaken a.store.stream.taken, late.backing⟩
  let past : Past := ⟨late.store.seq, history'⟩
  have hwhole : whole.store.Lived history' := hlived
  have hregister : t.broker.register whole = .ok { t.broker with registry := r' } := by
    simp only [Broker.register, whole, haccepted]
  have hs : Step (fun _ => True) t (t.enlisted r' past) :=
    @Step.registered _ _ whole _ _ trivial hwhole hregister
  obtain ⟨m, hm, -⟩ := register_eq_ok hregister
  have hself : (t.enlisted r' past).past t.broker.registry.members.length = past :=
    Function.update_self _ _ _
  have htells : history'.Tells late.store := hlived.tells.congr rfl rfl fun _ hb => hb
  refine ⟨past, coherent_step h hs, ordered_step ho h hs, ⟨m.source, ?_, ?_⟩, by rw [hself],
    ⟨hlived.queued.ascending, hlived.queued.known⟩, by rw [hself]; exact htells, ?_, ?_⟩
  · have hfed : m.fed = true := by
      rw [hm.fed, hon]
      exact congrArg not hfree
    show r'.members[t.broker.registry.members.length]? = _
    rw [hm.members, List.getElem?_concat_length, ← hfed]
  · obtain hstream | ⟨hstopped, -⟩ := hm.stream
    · rw [hstream]
      rfl
    · rw [hon] at hstopped
      cases hstopped
  · intro path e he howner
    obtain hnew | ⟨-, hold⟩ := Option.or_eq_some_iff.mp ((hm.entries path).symm.trans he)
    · obtain ⟨signal, hsignal, rfl⟩ := Option.map_eq_some_iff.mp hnew
      have hvalue : late.store.value? path = some signal.spec.value := by
        rw [Store.value?]
        exact congrArg (Option.map _) hsignal
      refine ⟨fun b hb => (htells.batch b hb).1, signal.spec.value, ?_, BEq.rfl⟩
      rw [hself]
      exact (htells.value? path).trans hvalue
    · obtain ⟨mo, hmo, -⟩ := h.entry path e hold
      rw [howner] at hmo
      simp at hmo
  · intro path signal hsignal
    refine ⟨signal.entry t.broker.registry.members.length, ?_, rfl⟩
    have hfind : whole.store.signals.find? path = some signal := hsignal
    show r'.entries.find? path = _
    rw [hm.entries, hfind]
    rfl

theorem Joined.held_iff {s : Store} (h : t.Joined k s) (path : String) (v : SignalValue) :
    t.Held k path v ↔ ∃ u, s.value? path = some u ∧ (u == v) = true := by
  rw [Held, Had, h.first, h.tells.value?]

theorem Joined.forward {s : Store} (h : t.Joined k s) (hc : s.Current) : Forward t t k where
  queue m hm b hb _ path v hv := by
    obtain ⟨a, ha, hq⟩ := h.member
    cases hm.symm.trans ha
    exact (h.held_iff path v).mpr (hc b (hq ▸ hb) path v hv)
  entry path e he howner _ := (h.pristine path e he howner).2
  news := ⟨[], (List.append_nil _).symm, by rintro c ⟨⟩⟩

theorem Joined.current {s : Store} (h : t.Joined k s)
    (hahead : ∀ t', Onward P t t' → Ahead t t' k s.seq) : s.Current := by
  classical
  by_contra hnot
  -- the first batch that tells something else is the one whose feeding goes back
  have hsome : (s.stream.queue.find? fun b => ¬ t.Agrees k b).isSome = true := by
    rw [List.find?_isSome]
    simp only [Store.Current, not_forall] at hnot
    obtain ⟨b, hb, path, v, hv, hne⟩ := hnot
    refine ⟨b, hb, decide_eq_true ?_⟩
    exact fun hall => hne ((h.held_iff path v).mp (hall path v hv))
  obtain ⟨b, hb⟩ := Option.isSome_iff_exists.mp hsome
  obtain ⟨hother, before, after, hq, hbefore⟩ := List.find?_eq_some_iff_append.mp hb
  have hother : ¬ t.Agrees k b := of_decide_eq_true hother
  simp only [Agrees, not_forall] at hother
  obtain ⟨path, v, hv, hnot⟩ := hother
  have hmem : b ∈ s.stream.queue := by simp [hq]
  obtain ⟨a, hm, hqueue⟩ := h.member
  obtain ⟨signal, hsignal⟩ := h.queued.known b hmem path v hv
  have hasc := h.queued.ascending
  have hpristine := h.pristine
  rw [hq] at hqueue hasc hpristine
  obtain ⟨t', more, honward, hnews, c, hc, howner, htells, hseq⟩ :=
    exists_setback (P := P) h.coherent hm hqueue hasc hpristine
      (fun c hc => by simpa using hbefore c hc) hv (h.entry path signal hsignal) hnot
  obtain ⟨⟨more', hnews', -, hlater⟩, -⟩ := hahead t' honward
  rw [hnews] at hnews'
  obtain rfl := List.append_cancel_left hnews'
  have hlt := hlater c hc howner path v htells
  have hle := (h.tells.batch b hmem).2.1
  omega

/-- A registration never goes back exactly if the stream of its source, at the time that the values
are read, tells of no other values than these. -/
theorem ahead_iff_current {resolver : Resolver} {clock : Clock} {outboxCapacity : Nat}
    {a late : Adapter} {r' : Registry Adapter} {history : History}
    (h : Onward P (start resolver clock outboxCapacity files) t) (hl : a.store.Lived history)
    (hr : t.broker.registry.TakesOver a late r') (hon : t.broker.registry.stopped = false)
    (hfree : a.store.stream.taken = false) :
    ∃ past : Past, past.first = late.store.seq ∧ past.history.Tells late.store ∧
      (late.store.Current ↔ ∀ t', Onward P (t.enlisted r' past) t' →
        Ahead (t.enlisted r' past) t' t.broker.registry.members.length late.store.seq) := by
  have hstart : Reached P _ := reached_start resolver clock outboxCapacity files
  obtain ⟨hcoherent, hordered⟩ :=
    onward_keeps (coherent_of_reached hstart) (ordered_of_reached hstart) h
  obtain ⟨past, hjoined⟩ := joined_of_takesOver hcoherent hordered hl hr hon hfree
  have hself : (t.enlisted r' past).past t.broker.registry.members.length = past :=
    Function.update_self _ _ _
  refine ⟨past, hself ▸ hjoined.first, hself ▸ hjoined.tells, ?_, hjoined.current⟩
  intro hcurrent t' honward
  obtain ⟨a', hm, -⟩ := hjoined.member
  obtain ⟨hforward, hfirst⟩ :=
    forward_onward (hjoined.forward hcurrent) hjoined.coherent hm honward
  obtain ⟨hcoherent, hordered⟩ := onward_keeps hjoined.coherent hjoined.ordered honward
  rw [← hjoined.first, ← hfirst]
  exact hforward.ahead hcoherent hordered

def restless : Adapter :=
  ⟨{ name := "trunk"
     signals := .ofList [("Trunk.IsLocked", ⟨⟨.bool false, true, false⟩, true⟩)]
     seq := 2
     stream := ⟨100, [⟨1, .ofList [("Trunk.IsLocked", .bool true)]⟩,
       ⟨2, .ofList [("Trunk.IsLocked", .bool false)]⟩], true, false⟩ }, .memory⟩

def crowded : Registry Adapter :=
  Registry.empty.enroll [⟨"Trunk.IsLocked", true, false⟩]
    (.ofList [("Trunk.IsLocked", .bool false)]) ⟨restless, true⟩ none

theorem takesOver_restless : Registry.empty.TakesOver trunk restless crowded := by
  refine ⟨_, _, rfl, rfl, rfl, ?_, rfl⟩
  refine .head (b := ⟨_, .memory⟩) ⟨false, .ofList [("Trunk.IsLocked", .bool true)], _, rfl⟩ ?_
  exact .single ⟨false, .ofList [("Trunk.IsLocked", .bool false)], _, rfl⟩

theorem ahead_iff_current_restless : ∃ (t : Traffic) (past : Past),
    Onward (fun _ => True) (start (.ofTable .empty 0) ⟨0⟩ 8 .empty) t ∧
    t.broker.registry.TakesOver trunk restless crowded ∧ past.first = 2 ∧
    (restless.store.Current ↔ ∀ t', Onward (fun _ => True) (t.enlisted crowded past) t' →
      Ahead (t.enlisted crowded past) t' 0 2) ∧ ¬ restless.store.Current := by
  obtain ⟨past, hfirst, -, hiff⟩ := ahead_iff_current (P := fun _ => True)
    (.refl (a := start (.ofTable .empty 0) ⟨0⟩ 8 .empty)) (.declared (.created _ _) _ _)
    takesOver_restless rfl rfl
  refine ⟨_, past, .refl, takesOver_restless, hfirst, hiff, ?_⟩
  intro hcurrent
  obtain ⟨u, hu, heq⟩ := hcurrent _ List.mem_cons_self "Trunk.IsLocked" (.bool true) rfl
  cases hu
  cases heq

/-- The trunk was idle, and it is unlocked when it is read. The first batch locks it in the cache, and
subscribers are told so. -/
theorem goes_back : ∃ (past : Past) (t : Traffic) (e : Entry) (c : Change),
    past.history.Tells restless.store ∧ trunk.Idle ∧
    Registry.empty.TakesOver trunk restless crowded ∧
    restless.store.value? "Trunk.IsLocked" = some (.bool false) ∧
    (crowded.entries.find? "Trunk.IsLocked").map (·.value) = some (.bool false) ∧
    Onward (fun _ => True)
      ((start (.ofTable .empty 0) ⟨0⟩ 8 .empty).enlisted crowded past) t ∧
    t.broker.registry.entries.find? "Trunk.IsLocked" = some e ∧ e.value = .bool true ∧
    e.seq = 1 ∧ restless.store.seq = 2 ∧ t.news = [c] ∧
    c.values.find? "Trunk.IsLocked" = some (.bool true) := by
  obtain ⟨history, hlived, -⟩ :=
    Registry.register_of_takesOver (.declared (.created _ _) _ _) takesOver_restless
  have htells : history.Tells restless.store := hlived.tells.congr rfl rfl fun _ hb => hb
  exact ⟨⟨2, history⟩, _, _, _, htells, ⟨rfl, rfl⟩, takesOver_restless, rfl, rfl,
    .single (.step (@Step.fed _ _ 0 _ _ _ rfl rfl)), rfl, rfl, rfl, rfl, rfl, rfl⟩

end Traffic

end SignalBroker
