import SignalBroker.Proofs.Session.Numbering

namespace SignalBroker

variable {σ : Type}

def Event.connection? : Event σ → Option ConnectionId
  | .opened c => some c
  | .asked c _ _ => some c
  | .closed c => some c
  | .dropped c => some c
  | .drained c => some c
  | _ => none

def Event.Ends (c : ConnectionId) (e : Event σ) : Prop :=
  e = .closed c ∨ e = .dropped c

namespace Subscriptions

variable {s t : Subscriptions} {c k : ConnectionId}

theorem ofConnection_congr (h : ∀ id sub, sub.connection = c →
    (t.rows.find? id = some sub ↔ s.rows.find? id = some sub)) :
    t.ofConnection c = s.ofConnection c := by
  ext id : 1
  rw [ofConnection, ofConnection, Table.find?_filter, Table.find?_filter]
  ext sub
  simp only [Option.filter_eq_some_iff, beq_iff_eq]
  exact and_congr_left (h id sub)

theorem ofConnection_add {sub : Subscription} (hnew : s.rows.find? s.nextId = none)
    (hc : sub.connection ≠ c) : (s.add sub).2.ofConnection c = s.ofConnection c := by
  apply ofConnection_congr
  intro id old hold
  show (s.rows.insert s.nextId sub).find? id = some old ↔ _
  rw [Table.find?_insert]
  split
  · next hid =>
    rw [hid, hnew]
    constructor
    · rintro ⟨⟩
      exact absurd hold hc
    · rintro ⟨⟩
  · exact Iff.rfl

theorem ofConnection_refresh (visible : Pattern → List String) (hc : c ≠ k) :
    (s.refresh k visible).ofConnection c = s.ofConnection c := by
  apply ofConnection_congr
  intro id sub hsub
  rw [find?_refresh, Option.map_eq_some_iff]
  constructor
  · rintro ⟨old, hold, hnew⟩
    split at hnew
    · next hk =>
      subst hnew
      exact absurd (hsub.symm.trans hk) hc
    · exact hnew ▸ hold
  · intro hold
    exact ⟨sub, hold, if_neg (hsub ▸ hc)⟩

theorem ofConnection_unsubscribe {id : SubscriptionId} (h : s.unsubscribe k id = .ok t)
    (hc : c ≠ k) : t.ofConnection c = s.ofConnection c := by
  obtain ⟨howns, rfl⟩ := unsubscribe_eq_ok_iff.mp h
  obtain ⟨mine, hmine, rfl⟩ := owns_iff.mp howns
  apply ofConnection_congr
  intro other sub hsub
  rw [Table.find?_erase]
  split
  · next hid =>
    rw [hid, hmine]
    constructor
    · rintro ⟨⟩
    · rintro ⟨⟩
      exact absurd hsub.symm hc
  · exact Iff.rfl

theorem ofConnection_unsubscribeAll (hc : c ≠ k) :
    (s.unsubscribeAll k).2.ofConnection c = s.ofConnection c := by
  apply ofConnection_congr
  intro id sub hsub
  rw [find?_unsubscribeAll, Option.filter_eq_some_iff]
  simp [hsub, hc]

end Subscriptions

namespace Session

variable {s s' : Session} {b b' : Broker σ} {c : ConnectionId}

theorem ofConnection_close (hc : c ≠ s.connection) :
    (s.close b).2.subscriptions.ofConnection c = b.subscriptions.ofConnection c := by
  unfold Session.close
  split
  · exact Subscriptions.ofConnection_unsubscribeAll hc
  · rfl

variable [SignalSource σ] {request : Request} {answer : Option Response}

theorem ofConnection_handle (hnew : b.subscriptions.rows.find? b.subscriptions.nextId = none)
    (hc : c ≠ s.connection) (h : s.handle b request = (answer, s', b')) :
    b'.subscriptions.ofConnection c = b.subscriptions.ofConnection c := by
  cases handled_of_handle h with
  | refused => rfl
  | authorized => exact Subscriptions.ofConnection_refresh _ hc
  | answered => rfl
  | @wrote path value write outcome b' hopen ha hw hset now =>
    rw [Subscriptions.ofConnection, (Broker.told_of_set hset).rows, Subscriptions.ofConnection]
  | subscribed => exact Subscriptions.ofConnection_add hnew hc.symm
  | unsubscribed hopen ha hn hu => exact Subscriptions.ofConnection_unsubscribe hu hc
  | unsubscribedAll => exact Subscriptions.ofConnection_unsubscribeAll hc

theorem isOpen_handle (h : s.handle b request = (answer, s', b')) : s'.isOpen = s.isOpen := by
  cases handled_of_handle h <;> rfl

theorem unsubscribe_cases (b : Broker σ) {named : Json} (hopen : s.isOpen = true)
    (ha : request.action = .unsubscribe named) :
    (∃ id, readSubscriptionId named = .ok id ∧ b.subscriptions.owns s.connection id = true ∧
      (s.handle b request).1 =
        some (.subscription "unsubscribe" request.requestId id b.clock.millis)) ∨
    (∀ id, readSubscriptionId named = .ok id → b.subscriptions.owns s.connection id = false) ∧
      ∃ r, s.handle b request = (some r, s, b) ∧ r.isError = true := by
  rw [handle_unsubscribe b hopen ha]
  cases hread : readSubscriptionId named with
  | error e => exact .inr ⟨nofun, _, rfl, rfl⟩
  | ok id =>
    cases howns : b.subscriptions.owns s.connection id with
    | true =>
      refine .inl ⟨id, rfl, howns, ?_⟩
      simp only [howns, if_true]
    | false =>
      refine .inr ⟨?_, ?_⟩
      · rintro _ ⟨⟩
        exact howns
      · simp only [howns, Bool.false_eq_true, if_false]
        exact ⟨_, rfl, rfl⟩

/-- A frame is a request, or it changes nothing and is refused unless it is a ping. -/
theorem handleFrame_cases (s : Session) (b : Broker σ) (frame : Frame) :
    (∃ request, s.handleFrame b frame = s.handle b request) ∨
      (frame = .ping ∧ s.handleFrame b frame = (none, s, b)) ∨
      ∃ r, s.handleFrame b frame = (some r, s, b) ∧ r.isError = true := by
  cases frame with
  | text text =>
    simp only [handleFrame, handleText]
    split
    · next request _ => exact .inl ⟨request, rfl⟩
    · exact .inr (.inr ⟨_, rfl, rfl⟩)
  | binary => exact .inr (.inr ⟨_, rfl, rfl⟩)
  | ping => exact .inr (.inl ⟨rfl, rfl⟩)

theorem handleFrame_of_not_isOpen (b : Broker σ) {frame : Frame} (hopen : s.isOpen = false)
    (hping : frame ≠ .ping) : ∃ r, s.handleFrame b frame = (some r, s, b) ∧ r.isError = true := by
  obtain ⟨request, hr⟩ | ⟨hp, -⟩ | herror := s.handleFrame_cases b frame
  · rw [hr, handle_of_not_isOpen b request hopen]
    exact ⟨_, rfl, rfl⟩
  · exact absurd hp hping
  · exact herror

end Session

namespace Switchboard

variable {log : List (Event σ)} {w w' : Switchboard σ} {e : Event σ} {c : ConnectionId}

variable [SignalSource σ]

/-- An event of one session leaves the others alone, with their rights and their subscriptions. -/
theorem apart_step (hn : w.Numbered log) (h : w.Sound log) (hs : Step w e w')
    (hc : e.connection? ≠ some c) : w'.sessions.find? c = w.sessions.find? c ∧
      w'.broker.subscriptions.ofConnection c = w.broker.subscriptions.ofConnection c := by
  have hnew : w.broker.subscriptions.rows.find? w.broker.subscriptions.nextId = none := by
    rw [Option.eq_none_iff_forall_ne_some]
    intro sub hrow
    exact Nat.lt_irrefl _ (hn.rows _ sub hrow)
  have hne : ∀ k, e.connection? = some k → c ≠ k := fun k hk hck => hc (hck ▸ hk)
  cases hs with
  | opened => exact ⟨by rw [Table.find?_insert, if_neg (hne _ rfl)], rfl⟩
  | @asked k s s' b' request answer hs hh =>
    refine ⟨by rw [Table.find?_insert, if_neg (hne k rfl)], ?_⟩
    exact Session.ofConnection_handle hnew ((h.keyed k s hs).1 ▸ hne k rfl) hh
  | @closed k s hs =>
    refine ⟨by rw [Table.find?_insert, if_neg (hne k rfl)], ?_⟩
    exact Session.ofConnection_close ((h.keyed k s hs).1 ▸ hne k rfl)
  | @dropped k s hs =>
    refine ⟨by rw [Table.find?_erase, if_neg (hne k rfl)], ?_⟩
    exact Session.ofConnection_close ((h.keyed k s hs).1 ▸ hne k rfl)
  | drained => exact ⟨rfl, rfl⟩
  | applied => exact ⟨rfl, rfl⟩
  | registered hr =>
    obtain ⟨registry, -, rfl⟩ := Broker.register_eq_ok_iff.mp hr
    exact ⟨rfl, rfl⟩
  | moved => exact ⟨rfl, rfl⟩

omit [SignalSource σ] in
theorem isOpen_close (s : Session) (b : Broker σ) : (s.close b).1.isOpen = false := by
  unfold Session.close
  split
  · rfl
  · next hopen => exact Bool.not_eq_true _ ▸ hopen

theorem nextConnection_le (hs : Step w e w') :
    w.broker.nextConnection ≤ w'.broker.nextConnection := by
  cases hs with
  | opened => exact Nat.le_succ _
  | asked hs hh =>
    cases Session.handled_of_handle hh with
    | wrote hopen ha hw hset => exact Nat.le_of_eq (Broker.told_of_set hset).nextConnection.symm
    | _ => exact Nat.le_refl _
  | @closed c s => exact Nat.le_of_eq (close_keeps s w.broker).2.1.symm
  | @dropped c s => exact Nat.le_of_eq (close_keeps s w.broker).2.1.symm
  | drained => exact Nat.le_refl _
  | applied => exact Nat.le_refl _
  | registered hr =>
    obtain ⟨registry, -, rfl⟩ := Broker.register_eq_ok_iff.mp hr
    exact Nat.le_refl _
  | moved => exact Nat.le_refl _

/-- A session that is open has been open before, unless it is new. -/
theorem isOpen_of_step (hn : w.Numbered log) (h : w.Sound log) (hs : Step w e w')
    (hlt : c < w.broker.nextConnection) {s' : Session} (hs' : w'.sessions.find? c = some s')
    (hopen : s'.isOpen = true) :
    ¬ e.Ends c ∧ ∃ s, w.sessions.find? c = some s ∧ s.isOpen = true := by
  by_cases hc : e.connection? = some c
  · cases hs with
    | opened =>
      cases hc
      exact absurd hlt (Nat.lt_irrefl _)
    | @asked k s t b' request answer hs hh =>
      cases hc
      rw [Table.find?_insert, if_pos rfl] at hs'
      cases hs'
      exact ⟨by simp [Event.Ends], s, hs, (Session.isOpen_handle hh).symm.trans hopen⟩
    | @closed k s hs =>
      cases hc
      rw [Table.find?_insert, if_pos rfl] at hs'
      cases hs'
      rw [isOpen_close] at hopen
      cases hopen
    | @dropped k s hs =>
      cases hc
      rw [Table.find?_erase, if_pos rfl] at hs'
      cases hs'
    | drained => exact ⟨by simp [Event.Ends], s', hs', hopen⟩
    | _ => cases hc
  · rw [(apart_step hn h hs hc).1] at hs'
    refine ⟨?_, s', hs', hopen⟩
    rintro (rfl | rfl)
    · exact hc rfl
    · exact hc rfl

theorem ended_of_run (h : Run log w) (hends : ∃ e ∈ log, e.Ends c) :
    c < w.broker.nextConnection ∧ ∀ s, w.sessions.find? c = some s → s.isOpen = false := by
  induction h with
  | start =>
    obtain ⟨e, he, -⟩ := hends
    cases he
  | @next log w e w' h hs ih =>
    have hn := numbered_of_run h
    have hsound := sound_of_run h
    have hlt : c < w.broker.nextConnection := by
      obtain ⟨e', he', hends⟩ := hends
      obtain hold | hnew := List.mem_append.mp he'
      · exact (ih ⟨e', hold, hends⟩).1
      · cases List.mem_singleton.mp hnew
        obtain rfl | rfl := hends
        · cases hs with
          | @closed k s hs => exact (hsound.keyed c s hs).2
        · cases hs with
          | @dropped k s hs => exact (hsound.keyed c s hs).2
    refine ⟨Nat.lt_of_lt_of_le hlt (nextConnection_le hs), ?_⟩
    intro s' hs'
    rw [← Bool.not_eq_true]
    intro hopen
    obtain ⟨hnot, s, hfind, hbefore⟩ := isOpen_of_step hn hsound hs hlt hs' hopen
    obtain ⟨e', he', hends⟩ := hends
    obtain hold | hnew := List.mem_append.mp he'
    · rw [(ih ⟨e', hold, hends⟩).2 s hfind] at hbefore
      cases hbefore
    · cases List.mem_singleton.mp hnew
      exact hnot hends

theorem givesUp_of_run (h : Run log w) {request : Request} {answer : Option Response}
    {id : SubscriptionId} (he : .asked c request answer ∈ log)
    (hid : (Event.asked (σ := σ) c request answer).acknowledged? "unsubscribe" = some id) :
    ∃ before after : Switchboard σ, before.GivesUp after c request id := by
  induction h with
  | start => cases he
  | @next log w e w' h hs ih =>
    obtain hold | hnew := List.mem_append.mp he
    · exact ih hold
    · cases List.mem_singleton.mp hnew
      exact ⟨w, w', givesUp_of_step (sound_of_run h) hs hid⟩

omit [SignalSource σ] in
theorem isOpen_of_owns (h : w.Sound log) {s : Session} (hs : w.sessions.find? c = some s)
    {id : SubscriptionId} (howns : w.broker.subscriptions.owns c id = true) : s.isOpen = true := by
  obtain ⟨sub, hrow, rfl⟩ := Subscriptions.owns_iff.mp howns
  obtain ⟨s', paths, hs', hopen, -⟩ := h.shown id sub hrow
  cases hs.symm.trans hs'
  exact hopen

/-- What sessions that share a broker can count on. -/
structure Isolated (log : List (Event σ)) (w : Switchboard σ) : Prop where
  owned : ∀ id sub, w.broker.subscriptions.rows.find? id = some sub →
    ∃ s, w.sessions.find? sub.connection = some s ∧ s.isOpen = true
  apart : ∀ e w', Step w e w' → ∀ c, e.connection? ≠ some c →
    w'.sessions.find? c = w.sessions.find? c ∧
      w'.broker.subscriptions.ofConnection c = w.broker.subscriptions.ofConnection c
  ascending : (log.filterMap (·.acknowledged? "subscribe")).Pairwise (· < ·)
  unsubscribed : ∀ c s request named id, w.sessions.find? c = some s →
    request.action = .unsubscribe named →
      ((s.handle w.broker request).1 =
          some (.subscription "unsubscribe" request.requestId id w.broker.clock.millis) ↔
        Session.readSubscriptionId named = .ok id ∧ w.broker.subscriptions.owns c id = true)
  refused : ∀ c s request named, w.sessions.find? c = some s →
    request.action = .unsubscribe named →
      (∀ id, Session.readSubscriptionId named = .ok id →
        w.broker.subscriptions.owns c id = false) →
      ∃ r, s.handle w.broker request = (some r, s, w.broker) ∧ r.isError = true
  givenUp : ∀ c request answer id, .asked c request answer ∈ log →
    (Event.asked (σ := σ) c request answer).acknowledged? "unsubscribe" = some id →
      (∀ s, w.sessions.find? c = some s →
        ∃ r, s.handle w.broker request = (some r, s, w.broker) ∧ r.isError = true) ∧
      ∀ e w', Step w e w' → ∀ k, ∃ kept new, w'.queue k = kept ++ new ∧ kept <:+ w.queue k ∧
        ∀ n ∈ new, n.id ≠ id
  frames : ∀ c s frame, w.sessions.find? c = some s →
    (∃ request, s.handleFrame w.broker frame = s.handle w.broker request) ∨
      (frame = .ping ∧ s.handleFrame w.broker frame = (none, s, w.broker)) ∨
      ∃ r, s.handleFrame w.broker frame = (some r, s, w.broker) ∧ r.isError = true
  ended : ∀ c s, (∃ e ∈ log, e.Ends c) → w.sessions.find? c = some s → s.isOpen = false
  silent : ∀ c s, w.sessions.find? c = some s → s.isOpen = false →
    s.close w.broker = (s, w.broker) ∧ ∀ frame ≠ .ping,
      ∃ r, s.handleFrame w.broker frame = (some r, s, w.broker) ∧ r.isError = true

theorem unsubscribed_of_sound (h : w.Sound log) {s : Session} {request : Request} {named : Json}
    (hs : w.sessions.find? c = some s) (ha : request.action = .unsubscribe named) :
    (∃ id, Session.readSubscriptionId named = .ok id ∧
      w.broker.subscriptions.owns c id = true ∧ (s.handle w.broker request).1 =
        some (.subscription "unsubscribe" request.requestId id w.broker.clock.millis)) ∨
    (∀ id, Session.readSubscriptionId named = .ok id →
        w.broker.subscriptions.owns c id = false) ∧
      ∃ r, s.handle w.broker request = (some r, s, w.broker) ∧ r.isError = true := by
  have hconn := (h.keyed c s hs).1
  cases hopen : s.isOpen with
  | true =>
    have hcases := Session.unsubscribe_cases w.broker hopen ha
    rwa [hconn] at hcases
  | false =>
    refine .inr ⟨?_, _, Session.handle_of_not_isOpen w.broker request hopen, rfl⟩
    intro id _
    rw [← Bool.not_eq_true]
    intro howns
    rw [isOpen_of_owns h hs howns] at hopen
    cases hopen

theorem unsubscribed_iff (h : w.Sound log) {s : Session} {request : Request} {named : Json}
    (hs : w.sessions.find? c = some s) (ha : request.action = .unsubscribe named)
    {id : SubscriptionId} : (s.handle w.broker request).1 =
        some (.subscription "unsubscribe" request.requestId id w.broker.clock.millis) ↔
      Session.readSubscriptionId named = .ok id ∧ w.broker.subscriptions.owns c id = true := by
  obtain ⟨mine, hread, howns, hanswer⟩ | ⟨hnot, r, hr, herror⟩ := unsubscribed_of_sound h hs ha
  · rw [hanswer, hread]
    constructor
    · rintro ⟨⟩
      exact ⟨rfl, howns⟩
    · rintro ⟨⟨⟩, -⟩
      rfl
  · rw [hr]
    constructor
    · rintro ⟨⟩
      cases herror
    · rintro ⟨hread, howns⟩
      rw [hnot id hread] at howns
      cases howns

theorem queue_step (h : w.Sound log) (hs : Step w e w') {id : SubscriptionId}
    (hnone : w.broker.subscriptions.rows.find? id = none) (k : ConnectionId) :
    ∃ kept new, w'.queue k = kept ++ new ∧ kept <:+ w.queue k ∧ ∀ n ∈ new, n.id ≠ id := by
  obtain ⟨kept, new, hq, hkept, hnew⟩ := discreet_step h hs k
  refine ⟨kept, new, hq, hkept, ?_⟩
  rintro n hn rfl
  obtain ⟨s, sub, -, -, hrow, -⟩ := hnew n hn
  rw [hnone] at hrow
  cases hrow

/-- Whatever the order of the events, sessions do not touch what belongs to others, a subscription
that is given up is never heard of again, and a session that has ended is silent. -/
theorem sessions_isolated (h : Run log w) : w.Isolated log ∧
    ∀ id < UInt64.size, Session.readSubscriptionId (.text (toString id)) = .ok id ∧
      Session.readSubscriptionId (Json.ofNat id) = .ok id := by
  have hn := numbered_of_run h
  have hsound := sound_of_run h
  refine ⟨⟨?_, ?_, hn.given, ?_, ?_, ?_, ?_, ?_, ?_⟩, fun id => Session.readSubscriptionId_eq_ok⟩
  · intro id sub hrow
    obtain ⟨s, paths, hs, hopen, -⟩ := hsound.shown id sub hrow
    exact ⟨s, hs, hopen⟩
  · exact fun e w' hs c => apart_step hn hsound hs
  · exact fun c s request named id hs ha => unsubscribed_iff hsound hs ha
  · intro c s request named hs ha hnot
    obtain ⟨id, hread, howns, -⟩ | ⟨-, herror⟩ := unsubscribed_of_sound hsound hs ha
    · rw [hnot id hread] at howns
      cases howns
    · exact herror
  · intro c request answer id he hid
    obtain ⟨-, hnone⟩ := hn.givenUp id (List.mem_filterMap.mpr ⟨_, he, hid⟩)
    refine ⟨?_, fun e w' hs k => queue_step hsound hs hnone k⟩
    intro s hs
    obtain ⟨before, after, ⟨named, ha, hread⟩, -, -⟩ := givesUp_of_run h he hid
    obtain ⟨id', hread', howns, -⟩ | ⟨-, herror⟩ := unsubscribed_of_sound hsound hs ha
    · cases hread.symm.trans hread'
      obtain ⟨sub, hrow, -⟩ := Subscriptions.owns_iff.mp howns
      rw [hnone] at hrow
      cases hrow
    · exact herror
  · exact fun c s frame _ => s.handleFrame_cases w.broker frame
  · exact fun c s hends hs => (ended_of_run h hends).2 s hs
  · intro c s hs hopen
    refine ⟨?_, fun frame => Session.handleFrame_of_not_isOpen w.broker hopen⟩
    rw [Session.close, hopen]
    rfl

/-- A driver gives up the first of two subscriptions, and the guest beside him leaves. -/
theorem sessions_isolated_trunk :
    ∃ (log : List (Event Adapter)) (w : Switchboard Adapter) (driver guest : Session),
      Run log w ∧ log.filterMap (·.acknowledged? "subscribe") = [1, 2, 3] ∧
      w.sessions.find? 0 = some driver ∧ w.sessions.find? 1 = some guest ∧
      guest.isOpen = false ∧ w.broker.subscriptions.rows.keys = [3] ∧
      w.broker.subscriptions.owns 0 3 = true ∧
      (∃ r, driver.handle w.broker ⟨.null, .unsubscribe (.text "1")⟩ =
        (some r, driver, w.broker) ∧ r.isError = true) ∧
      w.Isolated log := by
  have hstart := Run.start (σ := Adapter) trunkTokens ⟨0⟩ 8 .empty
  have hcabin := hstart.next (@Step.registered Adapter _ _ cabin _ rfl)
  have hopened := (hcabin.next (.opened _)).next (.opened _)
  have hdriver := hopened.next
    (@Step.asked Adapter _ _ 0 _ _ _ ⟨.null, .authorize "driver"⟩ _ rfl rfl)
  have hguest := hdriver.next
    (@Step.asked Adapter _ _ 1 _ _ _ ⟨.null, .authorize "guest"⟩ _ rfl rfl)
  have hfirst := hguest.next
    (@Step.asked Adapter _ _ 0 _ _ _ ⟨.null, .subscribe "Trunk.*" none⟩ _ rfl rfl)
  have hsecond := hfirst.next
    (@Step.asked Adapter _ _ 1 _ _ _ ⟨.null, .subscribe "Trunk.IsOpen" none⟩ _ rfl rfl)
  have hthird := hsecond.next
    (@Step.asked Adapter _ _ 0 _ _ _ ⟨.null, .subscribe "Trunk.IsLocked" none⟩ _ rfl rfl)
  have hgaveUp := hthird.next
    (@Step.asked Adapter _ _ 0 _ _ _ ⟨.null, .unsubscribe (.text "1")⟩ _ rfl rfl)
  have hleft := hgaveUp.next (@Step.closed Adapter _ _ 1 _ rfl)
  obtain ⟨hisolated, -⟩ := sessions_isolated hleft
  have hagain := (hisolated.givenUp 0 ⟨.null, .unsubscribe (.text "1")⟩ _ 1
    (List.mem_append_left _ List.mem_concat_self) rfl).1 _ rfl
  exact ⟨_, _, _, _, hleft, rfl, rfl, rfl, rfl, rfl, rfl, hagain, hisolated⟩

end Switchboard

end SignalBroker
