import SignalBroker.Proofs.Session.Visibility

namespace SignalBroker

namespace Switchboard

variable {σ : Type}

theorem sound_start (resolver : Resolver) (clock : Clock) (outboxCapacity : Nat) (files : Files) :
    (start resolver clock outboxCapacity files : Switchboard σ).Sound [] := by
  refine ⟨?_, ?_⟩
  · intro c s hs
    cases hs
  · intro id sub hrow
    cases hrow

variable [SignalSource σ] {log : List (Event σ)} {w w' : Switchboard σ} {e : Event σ}

theorem sound_step (h : w.Sound log) (hs : Step w e w') : w'.Sound (log ++ [e]) := by
  cases hs with
  | opened => exact sound_opened h
  | asked hs hh => exact sound_asked h hs hh
  | closed hs => exact sound_closed h hs
  | dropped hs => exact sound_dropped h hs
  | drained hs =>
    exact sound_within h (fun _ => rfl) rfl (fun _ _ hrow => hrow) (fun _ => rfl) (fun _ _ => nofun)
  | applied owner seq values =>
    exact sound_told h (w.broker.told_apply owner seq values) (fun _ => rfl) (fun _ _ => nofun)
  | registered hr => exact sound_registered h hr
  | moved =>
    exact sound_within h (fun _ => rfl) rfl (fun _ _ hrow => hrow) (fun _ => rfl) (fun _ _ => nofun)

theorem sound_of_run (h : Run log w) : w.Sound log := by
  induction h with
  | start resolver clock outboxCapacity files => exact sound_start resolver clock outboxCapacity files
  | next _ hs ih => exact sound_step ih hs

/-- A notification for a session that tells only what the session may read, under the grants that it
has at this time. -/
def Entitled (w w' : Switchboard σ) (c : ConnectionId) (n : Notification) : Prop :=
  ∃ s sub, w.sessions.find? c = some s ∧ w'.sessions.find? c = some s ∧
    w.broker.subscriptions.rows.find? n.id = some sub ∧ sub.connection = c ∧
    ∀ path v, n.values.find? path = some v → w.broker.registry.Readable s.rights sub.pattern path

/-- Nothing but entitled notifications enters an outbox. -/
def Discreet (w w' : Switchboard σ) : Prop :=
  ∀ c, ∃ kept new, w'.queue c = kept ++ new ∧ kept <:+ w.queue c ∧ ∀ n ∈ new, w.Entitled w' c n

omit [SignalSource σ] in
theorem entitled_of_addressed (h : w.Sound log) {c : ConnectionId} {n : Notification}
    (hsame : w'.sessions.find? c = w.sessions.find? c) (hn : w.broker.Addressed c n) :
    w.Entitled w' c n := by
  obtain ⟨sub, hsub, hc, hv⟩ := hn
  obtain ⟨s, paths, hs, -, hvis, hsound, -⟩ := h.shown n.id sub hsub
  rw [hc] at hs
  refine ⟨s, sub, hs, hsame.trans hs, hsub, hc, ?_⟩
  intro path v hp
  have ha := (hv path v hp).1
  simp only [Subscription.accepts, hvis, Bool.and_eq_true, List.contains_iff_mem] at ha
  exact hsound path ha.2

omit [SignalSource σ] in
theorem discreet_told (h : w.Sound log) (hb : w.broker.Told w'.broker)
    (hsame : ∀ k, w'.sessions.find? k = w.sessions.find? k) : w.Discreet w' := by
  intro c
  obtain ⟨new, hq, hnew⟩ := hb.queue c
  refine ⟨w.queue c, new, hq, List.suffix_refl _, ?_⟩
  intro n hn
  exact entitled_of_addressed h (hsame c) (hnew n hn)

omit [SignalSource σ] in
theorem discreet_of_queue (hq : ∀ c, w'.queue c = [] ∨ w'.queue c = w.queue c) : w.Discreet w' := by
  intro c
  refine ⟨w'.queue c, [], (List.append_nil _).symm, ?_, by simp⟩
  obtain hc | hc := hq c
  · rw [hc]
    exact List.nil_suffix
  · exact hc ▸ List.suffix_refl (w.queue c)

theorem discreet_asked (h : w.Sound log) {c : ConnectionId} {s s' : Session} {b' : Broker σ}
    {request : Request} {answer : Option Response} (hs : w.sessions.find? c = some s)
    (hh : s.handle w.broker request = (answer, s', b')) :
    w.Discreet ⟨b', w.sessions.insert c s'⟩ := by
  cases Session.handled_of_handle hh with
  | @wrote path value write outcome b' hopen ha hw hset now =>
    have hb := Broker.told_of_set hset
    exact discreet_told h hb (find?_insert_self hs)
  | unsubscribed hopen ha hn hu =>
    apply discreet_of_queue
    intro k
    right
    simp only [queue, Subscriptions.queue, (Subscriptions.find?_of_unsubscribe hu).1]
  | refused => exact discreet_of_queue fun _ => .inr rfl
  | authorized => exact discreet_of_queue fun _ => .inr rfl
  | answered => exact discreet_of_queue fun _ => .inr rfl
  | subscribed => exact discreet_of_queue fun _ => .inr rfl
  | unsubscribedAll => exact discreet_of_queue fun _ => .inr rfl

theorem discreet_registered {source : σ} {b' : Broker σ} (hr : w.broker.register source = .ok b') :
    w.Discreet ⟨b', w.sessions⟩ := by
  obtain ⟨registry, -, rfl⟩ := Broker.register_eq_ok_iff.mp hr
  exact discreet_of_queue fun _ => .inr rfl

theorem discreet_step (h : w.Sound log) (hs : Step w e w') : w.Discreet w' := by
  cases hs with
  | opened =>
    apply discreet_of_queue
    intro c
    simp only [queue, Session.start, Subscriptions.queue_connect]
    split
    · exact .inl rfl
    · exact .inr rfl
  | asked hs hh => exact discreet_asked h hs hh
  | @closed c s hs =>
    exact discreet_of_queue fun k => .inr ((close_keeps s w.broker).2.2.2 k)
  | @dropped c s hs =>
    exact discreet_of_queue fun k => .inr ((close_keeps s w.broker).2.2.2 k)
  | @drained c s hs =>
    apply discreet_of_queue
    intro k
    simp only [queue, Session.drain, Subscriptions.queue_drain]
    split
    · exact .inl rfl
    · exact .inr rfl
  | applied owner seq values =>
    exact discreet_told h (w.broker.told_apply owner seq values) fun _ => rfl
  | registered hr => exact discreet_registered hr
  | moved => exact discreet_of_queue fun _ => .inr rfl

/-- An answer to a reading that holds only what its session may read. -/
def Answered (w w' : Switchboard σ) (c : ConnectionId) (request : Request) (answer : Json) : Prop :=
  ∃ s path p values, w.sessions.find? c = some s ∧ w'.sessions.find? c = some s ∧
    request.action = .get path ∧ Pattern.ofText path = .ok p ∧
    answer = Session.valueAnswer path values ∧
    ∀ path v, values.find? path = some v → w.broker.registry.Readable s.rights p path

theorem answered_step {c : ConnectionId} {request : Request} {requestId answer : Json} {now : Int}
    (hs : Step w (.asked c request (some (.value requestId answer now))) w') :
    w.Answered w' c request answer := by
  generalize he : Event.asked (σ := σ) c request (some (.value requestId answer now)) = e at hs
  cases hs with
  | @asked c' s s' b' request' answer' hs hh =>
    cases he
    generalize ha : some (Response.value requestId answer now) = r at hh
    cases Session.handled_of_handle hh with
    | @answered path values hopen hact hg =>
      cases ha
      obtain ⟨p, hp, -⟩ := Registry.get_eq_ok hg
      refine ⟨s, path, p, values, hs, (find?_insert_self hs c).trans hs, hact, hp, rfl, ?_⟩
      intro k v hk
      obtain ⟨q, hq, hread, -⟩ := Registry.readable_of_get hg hk
      cases hp.symm.trans hq
      exact hread
    | @wrote path value write outcome => cases outcome <;> cases ha
    | refused => cases ha
    | authorized => cases ha
    | subscribed => cases ha
    | unsubscribed => cases ha
    | unsubscribedAll => cases ha
  | _ => cases he

/-- At every time of every run, subscriptions show what their sessions may read under their present
grants, and only that leaves the broker. -/
theorem visible_within_grants (h : Run log w) :
    (∀ id sub, w.broker.subscriptions.rows.find? id = some sub → w.Shown log id sub) ∧
      ∀ e w', Step w e w' → w.Discreet w' ∧
        ∀ c request requestId answer now,
          e = .asked c request (some (.value requestId answer now)) →
            w.Answered w' c request answer := by
  have hsound := sound_of_run h
  refine ⟨hsound.shown, ?_⟩
  intro e w' hs
  refine ⟨discreet_step hsound hs, ?_⟩
  rintro c request requestId answer now rfl
  exact answered_step hs

def cabin : Adapter :=
  ⟨((Store.ofName "cabin").declare "Trunk.IsLocked" ⟨.bool false, false, false⟩).declare
    "Trunk.IsOpen" ⟨.bool false, false, false⟩, .memory⟩

def trunkTokens : Resolver :=
  .ofTable (.ofList [("driver", .ofList [("Trunk.*", .read)]),
    ("guest", .ofList [("Trunk.IsOpen", .read)])]) 60

/-- A driver who has become a guest: the subscription made before shows less now. -/
theorem visible_within_grants_of_guest :
    ∃ (log : List (Event Adapter)) (w : Switchboard Adapter) (sub : Subscription),
      Run log w ∧ w.broker.subscriptions.rows.find? 1 = some sub ∧ Settled log 0 1 ∧
        sub.visible = some ["Trunk.IsOpen"] ∧ w.Shown log 1 sub ∧
        ∀ e w', Step w e w' → w.Discreet w' := by
  have hstart := Run.start (σ := Adapter) trunkTokens ⟨0⟩ 8 .empty
  have hcabin := hstart.next (@Step.registered Adapter _ _ cabin _ rfl)
  have hopened := hcabin.next (.opened _)
  have hdriver := hopened.next
    (@Step.asked Adapter _ _ 0 _ _ _ ⟨.null, .authorize "driver"⟩ _ rfl rfl)
  have hsubscribed := hdriver.next
    (@Step.asked Adapter _ _ 0 _ _ _ ⟨.null, .subscribe "Trunk.*" none⟩ _ rfl rfl)
  have hguest := hsubscribed.next
    (@Step.asked Adapter _ _ 0 _ _ _ ⟨.null, .authorize "guest"⟩ _ rfl rfl)
  obtain ⟨hshown, hnext⟩ := visible_within_grants hguest
  refine ⟨_, _, _, hguest, rfl, ?_, rfl, hshown 1 _ rfl, fun e w' hs => (hnext e w' hs).1⟩
  exact ⟨_, _, [], rfl, .authorized, by simp⟩

end Switchboard

end SignalBroker
