import SignalBroker.Proofs.Session.Switchboard

namespace SignalBroker

variable {σ : Type}

namespace Subscriptions

variable (s : Subscriptions) (c : ConnectionId)

theorem queue_adjustOutbox (c : ConnectionId) {f : Outbox → Outbox} (hf : ∀ o, (f o).queue = o.queue)
    (k : ConnectionId) : (s.adjustOutbox c f).queue k = s.queue k := by
  unfold queue adjustOutbox
  rw [Table.find?_adjust]
  split
  · cases s.outboxes.find? k with
    | none => rfl
    | some o => exact hf o
  · rfl

theorem queue_connect (capacity : Nat) (k : ConnectionId) :
    (s.connect c capacity).queue k = if k = c then [] else s.queue k := by
  unfold queue connect
  rw [Table.find?_insert]
  split <;> rfl

theorem queue_drain (k : ConnectionId) :
    (s.drain c).2.queue k = if k = c then [] else s.queue k := by
  unfold queue drain adjustOutbox
  rw [Table.find?_adjust]
  split
  · cases s.outboxes.find? k <;> rfl
  · rfl

theorem find?_refresh (visible : Pattern → List String) (id : SubscriptionId) :
    (s.refresh c visible).rows.find? id = (s.rows.find? id).map fun sub =>
      if sub.connection = c then { sub with visible := some (visible sub.pattern) } else sub := by
  rw [refresh, Table.find?_map]

theorem find?_unsubscribeAll (id : SubscriptionId) :
    (s.unsubscribeAll c).2.rows.find? id =
      (s.rows.find? id).filter fun sub => sub.connection != c := by
  rw [unsubscribeAll, Table.find?_filter]

theorem unsubscribe_eq_ok_iff {s t : Subscriptions} {c : ConnectionId} {id : SubscriptionId} :
    s.unsubscribe c id = .ok t ↔ s.owns c id = true ∧ t = { s with rows := s.rows.erase id } := by
  unfold unsubscribe
  cases s.owns c id <;> simp [eq_comm]

theorem owns_iff {s : Subscriptions} {c : ConnectionId} {id : SubscriptionId} :
    s.owns c id = true ↔ ∃ sub, s.rows.find? id = some sub ∧ sub.connection = c := by
  simp [owns, Option.any_eq_true]

theorem find?_of_unsubscribe {s t : Subscriptions} {c : ConnectionId} {id : SubscriptionId}
    (h : s.unsubscribe c id = .ok t) : t.outboxes = s.outboxes ∧
      ∀ k sub, t.rows.find? k = some sub → s.rows.find? k = some sub := by
  obtain ⟨-, rfl⟩ := unsubscribe_eq_ok_iff.mp h
  refine ⟨rfl, ?_⟩
  intro k sub hk
  rw [Table.find?_erase] at hk
  split at hk
  · cases hk
  · exact hk

end Subscriptions

namespace Switchboard

/-- A subscription belongs to an open session and shows only what that session may read, and all of it
if it is settled. -/
def Shown (log : List (Event σ)) (w : Switchboard σ) (id : SubscriptionId) (sub : Subscription) :
    Prop :=
  ∃ s paths, w.sessions.find? sub.connection = some s ∧ s.isOpen = true ∧ sub.visible = some paths ∧
    (∀ path ∈ paths, w.broker.registry.Readable s.rights sub.pattern path) ∧
    (Settled log sub.connection id →
      ∀ path, w.broker.registry.Readable s.rights sub.pattern path → path ∈ paths)

structure Sound (log : List (Event σ)) (w : Switchboard σ) : Prop where
  keyed : ∀ c s, w.sessions.find? c = some s → s.connection = c ∧ c < w.broker.nextConnection
  shown : ∀ id sub, w.broker.subscriptions.rows.find? id = some sub → w.Shown log id sub

variable {log : List (Event σ)} {w w' : Switchboard σ} {e : Event σ}

theorem Shown.congr {id : SubscriptionId} {sub : Subscription} (h : w.Shown log id sub)
    (hs : w'.sessions.find? sub.connection = w.sessions.find? sub.connection)
    (hp : ∀ path, w'.broker.registry.publicity path = w.broker.registry.publicity path)
    (he : ¬ e.Refreshes sub.connection id) : w'.Shown (log ++ [e]) id sub := by
  obtain ⟨s, paths, hf, hopen, hv, hsound, hfull⟩ := h
  have hr : ∀ path, w'.broker.registry.Readable s.rights sub.pattern path ↔
      w.broker.registry.Readable s.rights sub.pattern path := by
    intro path
    rw [Registry.readable_iff, Registry.readable_iff, hp]
  refine ⟨s, paths, hs.trans hf, hopen, hv, ?_, ?_⟩
  · intro path hm
    exact (hr path).mpr (hsound path hm)
  · intro hl path hread
    exact hfull (settled_append he hl).2 path ((hr path).mp hread)

theorem Shown.of_visiblePaths {id : SubscriptionId} {sub : Subscription} {s : Session}
    (hs : w.sessions.find? sub.connection = some s) (hopen : s.isOpen = true)
    (hv : sub.visible = some (w.broker.registry.visiblePaths sub.pattern s.rights)) :
    w.Shown log id sub := by
  refine ⟨s, _, hs, hopen, hv, ?_, ?_⟩
  · intro path hm
    exact (w.broker.registry.mem_visiblePaths_iff sub.pattern s.rights path).mp hm
  · intro _ path hr
    exact (w.broker.registry.mem_visiblePaths_iff sub.pattern s.rights path).mpr hr

theorem find?_insert_self {t : Table ConnectionId Session} {c : ConnectionId} {s : Session}
    (h : t.find? c = some s) (k : ConnectionId) : (t.insert c s).find? k = t.find? k := by
  rw [Table.find?_insert]
  split
  · next hk => rw [hk, h]
  · rfl

theorem Sound.congr (h : w.Sound log)
    (hk : ∀ c s, w'.sessions.find? c = some s → s.connection = c ∧ c < w'.broker.nextConnection)
    (hr : ∀ id sub, w'.broker.subscriptions.rows.find? id = some sub →
      w.broker.subscriptions.rows.find? id = some sub ∧
        w'.sessions.find? sub.connection = w.sessions.find? sub.connection ∧
        ¬ e.Refreshes sub.connection id)
    (hp : ∀ path, w'.broker.registry.publicity path = w.broker.registry.publicity path) :
    w'.Sound (log ++ [e]) where
  keyed := hk
  shown id sub hrow := by
    obtain ⟨hold, hs, he⟩ := hr id sub hrow
    exact (h.shown id sub hold).congr hs hp he

theorem sound_opened (h : w.Sound log) :
    Sound (log ++ [.opened w.broker.nextConnection]) ⟨(Session.start w.broker).2,
      w.sessions.insert w.broker.nextConnection (Session.start w.broker).1⟩ := by
  apply h.congr
  · intro c s hs
    simp only [Table.find?_insert] at hs
    split at hs
    · next hc =>
      cases hs
      rw [hc]
      exact ⟨rfl, Nat.lt_succ_self _⟩
    · obtain ⟨hc, hlt⟩ := h.keyed c s hs
      exact ⟨hc, Nat.lt_succ_of_lt hlt⟩
  · intro id sub hrow
    obtain ⟨s, _, hs, _⟩ := h.shown id sub hrow
    have hne : sub.connection ≠ w.broker.nextConnection := Nat.ne_of_lt (h.keyed _ s hs).2
    refine ⟨hrow, ?_, ?_⟩
    · rw [Table.find?_insert, if_neg hne]
    · intro hr
      cases hr
  · intro path
    rfl

theorem close_keeps (s : Session) (b : Broker σ) :
    (s.close b).1.connection = s.connection ∧ (s.close b).2.nextConnection = b.nextConnection ∧
      (s.close b).2.registry = b.registry ∧
      ∀ k, (s.close b).2.subscriptions.queue k = b.subscriptions.queue k := by
  unfold Session.close
  split
  · refine ⟨rfl, rfl, rfl, ?_⟩
    intro k
    have hf : ∀ o : Outbox, o.forget.queue = o.queue := fun _ => rfl
    have hd : ∀ o : Outbox, o.dropSender.queue = o.queue := fun _ => rfl
    let released := b.subscriptions.adjustOutbox s.connection Outbox.dropSender
    exact (released.queue_adjustOutbox _ hf k).trans (b.subscriptions.queue_adjustOutbox _ hd k)
  · exact ⟨rfl, rfl, rfl, fun _ => rfl⟩

theorem find?_close {s : Session} {b : Broker σ} {id : SubscriptionId} {sub : Subscription}
    (h : (s.close b).2.subscriptions.rows.find? id = some sub) :
    b.subscriptions.rows.find? id = some sub ∧ (s.isOpen = true → sub.connection ≠ s.connection) := by
  unfold Session.close at h
  split at h
  · have hrow := ((b.subscriptions.adjustOutbox s.connection Outbox.dropSender).adjustOutbox
      s.connection Outbox.forget).find?_unsubscribeAll s.connection id
    rw [Subscriptions.disconnect, hrow] at h
    obtain ⟨hold, hc⟩ := Option.filter_eq_some_iff.mp h
    exact ⟨hold, fun _ => by simpa using hc⟩
  · next hopen => exact ⟨h, fun ho => absurd ho hopen⟩

theorem connection_ne_of_close (h : w.Sound log) {c : ConnectionId} {s : Session}
    (hs : w.sessions.find? c = some s) {id : SubscriptionId} {sub : Subscription}
    (hrow : (s.close w.broker).2.subscriptions.rows.find? id = some sub) :
    w.broker.subscriptions.rows.find? id = some sub ∧ sub.connection ≠ c := by
  obtain ⟨hold, hne⟩ := find?_close hrow
  refine ⟨hold, ?_⟩
  intro hc
  obtain ⟨s', _, hs', hopen, _⟩ := h.shown id sub hold
  rw [hc, hs] at hs'
  cases hs'
  exact hne hopen (hc.trans (h.keyed c s hs).1.symm)

/-- A session that leaves, whether it is remembered as closed or forgotten. -/
theorem sound_left (h : w.Sound log) {c : ConnectionId} {s : Session}
    (hs : w.sessions.find? c = some s) {sessions : Table ConnectionId Session}
    (hone : ∀ t, sessions.find? c = some t → t = (s.close w.broker).1)
    (helse : ∀ k, k ≠ c → sessions.find? k = w.sessions.find? k)
    (he : ∀ k id, ¬ e.Refreshes k id) : Sound (log ++ [e]) ⟨(s.close w.broker).2, sessions⟩ := by
  obtain ⟨hconn, hnext, hreg, -⟩ := close_keeps s w.broker
  apply h.congr
  · intro k t ht
    rw [hnext]
    by_cases hk : k = c
    · subst hk
      rw [hone t ht, hconn]
      exact h.keyed k s hs
    · exact h.keyed k t (helse k hk ▸ ht)
  · intro id sub hrow
    obtain ⟨hold, hne⟩ := connection_ne_of_close h hs hrow
    exact ⟨hold, helse sub.connection hne, he sub.connection id⟩
  · intro path
    rw [hreg]

theorem sound_closed (h : w.Sound log) {c : ConnectionId} {s : Session}
    (hs : w.sessions.find? c = some s) :
    Sound (log ++ [.closed c])
      ⟨(s.close w.broker).2, w.sessions.insert c (s.close w.broker).1⟩ := by
  refine sound_left h hs ?_ ?_ (fun _ _ => nofun)
  · intro t ht
    rw [Table.find?_insert, if_pos rfl] at ht
    exact (Option.some.inj ht).symm
  · intro k hk
    rw [Table.find?_insert, if_neg hk]

theorem sound_dropped (h : w.Sound log) {c : ConnectionId} {s : Session}
    (hs : w.sessions.find? c = some s) :
    Sound (log ++ [.dropped c]) ⟨(s.close w.broker).2, w.sessions.erase c⟩ := by
  refine sound_left h hs ?_ ?_ (fun _ _ => nofun)
  · intro t ht
    rw [Table.find?_erase, if_pos rfl] at ht
    cases ht
  · intro k hk
    rw [Table.find?_erase, if_neg hk]

/-- What leaves the sessions and the publicity of paths alone, and makes no subscription, keeps every
subscription within its bounds. -/
theorem sound_within (h : w.Sound log) {b' : Broker σ} {sessions : Table ConnectionId Session}
    (hsame : ∀ k, sessions.find? k = w.sessions.find? k)
    (hn : b'.nextConnection = w.broker.nextConnection)
    (hr : ∀ id sub, b'.subscriptions.rows.find? id = some sub →
      w.broker.subscriptions.rows.find? id = some sub)
    (hp : ∀ path, b'.registry.publicity path = w.broker.registry.publicity path)
    (he : ∀ c id, ¬ e.Refreshes c id) : Sound (log ++ [e]) ⟨b', sessions⟩ := by
  apply h.congr
  · intro c s hs
    rw [hn]
    exact h.keyed c s (hsame c ▸ hs)
  · intro id sub hrow
    exact ⟨hr id sub hrow, hsame sub.connection, he sub.connection id⟩
  · exact hp

theorem sound_told (h : w.Sound log) {b' : Broker σ} {sessions : Table ConnectionId Session}
    (hb : w.broker.Told b') (hsame : ∀ k, sessions.find? k = w.sessions.find? k)
    (he : ∀ c id, ¬ e.Refreshes c id) : Sound (log ++ [e]) ⟨b', sessions⟩ := by
  refine sound_within h hsame hb.nextConnection ?_ hb.publicity he
  intro id sub hrow
  rw [← hb.rows]
  exact hrow

theorem sound_authorized (h : w.Sound log) {c : ConnectionId} {s : Session} {rights : Rights}
    {request : Request} {answer : Option Response} (hs : w.sessions.find? c = some s)
    (hopen : s.isOpen = true)
    (he : ∀ k id, k ≠ c → ¬ (Event.asked (σ := σ) c request answer).Refreshes k id) :
    Sound (log ++ [.asked c request answer])
      ⟨{ w.broker with subscriptions := w.broker.subscriptions.refresh s.connection fun p =>
          w.broker.registry.visiblePaths p rights },
        w.sessions.insert c { s with rights }⟩ := by
  have hconn : s.connection = c := (h.keyed c s hs).1
  refine ⟨?_, ?_⟩
  · intro k t ht
    simp only [Table.find?_insert] at ht
    split at ht
    · next hk =>
      cases ht
      exact ⟨hconn.trans hk.symm, hk ▸ (h.keyed c s hs).2⟩
    · exact h.keyed k t ht
  · intro id sub hrow
    simp only [Subscriptions.find?_refresh] at hrow
    obtain ⟨old, hold, hsub⟩ := Option.map_eq_some_iff.mp hrow
    split at hsub
    · next hc =>
      subst hsub
      refine Shown.of_visiblePaths (s := { s with rights }) ?_ hopen rfl
      simp only [Table.find?_insert, hc, hconn, if_true]
    · next hc =>
      subst hsub
      have hne : old.connection ≠ c := fun hk => hc (hk.trans hconn.symm)
      refine (h.shown id old hold).congr ?_ (fun _ => rfl) (he _ _ hne)
      simp only [Table.find?_insert, if_neg hne]

theorem sound_subscribed (h : w.Sound log) {c : ConnectionId} {s : Session} {p : Pattern}
    {request : Request} {requestId : Json} {now : Int} (hs : w.sessions.find? c = some s)
    (hopen : s.isOpen = true) :
    Sound (log ++ [.asked c request
        (some (.subscription "subscribe" requestId w.broker.subscriptions.nextId now))])
      ⟨{ w.broker with subscriptions := (w.broker.subscriptions.subscribeTo s.connection p
          (w.broker.registry.visiblePaths p s.rights)).2 }, w.sessions.insert c s⟩ := by
  have hsame := find?_insert_self hs
  refine ⟨fun k t ht => h.keyed k t (hsame k ▸ ht), ?_⟩
  intro id sub hrow
  simp only [Subscriptions.subscribeTo, Subscriptions.add, Table.find?_insert] at hrow
  split at hrow
  · cases hrow
    refine Shown.of_visiblePaths ?_ hopen rfl
    rw [hsame, (h.keyed c s hs).1, hs]
  · next hne =>
    refine (h.shown id sub hrow).congr (hsame _) (fun _ => rfl) ?_
    intro hr
    cases hr
    exact hne rfl

variable [SignalSource σ]

/-- New paths are shown to nobody, and no subscription is settled any more. -/
theorem sound_registered (h : w.Sound log) {source : σ} {b' : Broker σ}
    (hr : w.broker.register source = .ok b') :
    Sound (log ++ [.registered source]) ⟨b', w.sessions⟩ := by
  obtain ⟨registry, hreg, rfl⟩ := Broker.register_eq_ok_iff.mp hr
  refine ⟨h.keyed, ?_⟩
  intro id sub hrow
  obtain ⟨s, paths, hs, hopen, hv, hsound, -⟩ := h.shown id sub hrow
  refine ⟨s, paths, hs, hopen, hv, ?_, ?_⟩
  · intro path hm
    obtain ⟨en, hen, hread⟩ := hsound path hm
    exact ⟨en, Registry.find?_register_of_some hreg hen, hread⟩
  · intro hl
    have hn : ¬ (Event.registered source).Refreshes sub.connection id := nofun
    exact absurd rfl ((settled_append hn hl).1 source)

theorem sound_asked (h : w.Sound log) {c : ConnectionId} {s s' : Session} {b' : Broker σ}
    {request : Request} {answer : Option Response} (hs : w.sessions.find? c = some s)
    (hh : s.handle w.broker request = (answer, s', b')) :
    Sound (log ++ [.asked c request answer]) ⟨b', w.sessions.insert c s'⟩ := by
  have hsame := find?_insert_self hs
  cases Session.handled_of_handle hh with
  | refused => exact sound_told h (.refl _) hsame (fun _ _ => nofun)
  | answered => exact sound_told h (.refl _) hsame (fun _ _ => nofun)
  | authorized hopen ha hr =>
    refine sound_authorized h hs hopen ?_
    intro k id hk hr
    cases hr
    exact hk rfl
  | @wrote path value write outcome b' hopen ha hw hset now =>
    have hb := Broker.told_of_set hset
    refine sound_told h hb hsame ?_
    intro k id
    cases outcome <;> nofun
  | subscribed hopen ha hp => exact sound_subscribed h hs hopen
  | unsubscribed hopen ha hn hu =>
    refine sound_within h hsame rfl (Subscriptions.find?_of_unsubscribe hu).2 (fun _ => rfl) ?_
    intro k id hr
    exact absurd hr.action_eq (by decide)
  | unsubscribedAll hopen ha =>
    refine sound_within h hsame rfl ?_ (fun _ => rfl) (fun _ _ => nofun)
    intro id sub hrow
    rw [Subscriptions.find?_unsubscribeAll] at hrow
    exact (Option.filter_eq_some_iff.mp hrow).1

end Switchboard

end SignalBroker
