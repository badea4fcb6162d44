import SignalBroker.Proofs.Broker.Reading
import SignalBroker.Protocol.Session

namespace SignalBroker.Session

variable {σ : Type} [SignalSource σ]

def writeAnswer (request : Request) (now : Int) : WriteOutcome → Option Response
  | .done => some (.done "set" request.requestId now)
  | .refused e => some (.error request.action.name request.requestId (.ofError e) now)
  | .waiting => none

inductive Handled (s : Session) (b : Broker σ) (request : Request) :
    Option Response → Session → Broker σ → Prop where
  | refused {e} :
    Handled s b request
      (some (.error request.action.name request.requestId (.ofError e) b.clock.millis)) s b
  | authorized {token rights} (hopen : s.isOpen = true) (ha : request.action = .authorize token)
      (hr : Rights.ofToken b.resolver token = .ok rights) :
    Handled s b request
      (some (.authorized request.requestId rights.ttl rights.grants.toTable b.clock.millis))
      { s with rights }
      { b with subscriptions := b.subscriptions.refresh s.connection fun p =>
          b.registry.visiblePaths p rights }
  | answered {path values} (hopen : s.isOpen = true) (ha : request.action = .get path)
      (hg : b.registry.get path s.rights = .ok values) :
    Handled s b request
      (some (.value request.requestId (valueAnswer path values) b.clock.millis)) s b
  | wrote {path value write outcome b'} (hopen : s.isOpen = true)
      (ha : request.action = .set path value) (hw : WriteRequest.ofJson value = .ok write)
      (hs : b.set path write s.rights = (outcome, b')) (now : Int) :
    Handled s b request (writeAnswer request now outcome) s b'
  | subscribed {path filters p} (hopen : s.isOpen = true)
      (ha : request.action = .subscribe path filters)
      (hp : b.registry.readablePaths path s.rights = .ok (p, b.registry.visiblePaths p s.rights)) :
    Handled s b request
      (some (.subscription "subscribe" request.requestId b.subscriptions.nextId b.clock.millis)) s
      { b with subscriptions := (b.subscriptions.subscribeTo s.connection p
          (b.registry.visiblePaths p s.rights)).2 }
  | unsubscribed {named id subscriptions} (hopen : s.isOpen = true)
      (ha : request.action = .unsubscribe named) (hn : readSubscriptionId named = .ok id)
      (hs : b.subscriptions.unsubscribe s.connection id = .ok subscriptions) :
    Handled s b request
      (some (.subscription "unsubscribe" request.requestId id b.clock.millis)) s
      { b with subscriptions }
  | unsubscribedAll (hopen : s.isOpen = true) (ha : request.action = .unsubscribeAll) :
    Handled s b request (some (.done "unsubscribeAll" request.requestId b.clock.millis)) s
      { b with subscriptions := (b.subscriptions.unsubscribeAll s.connection).2 }

variable {s s' : Session} {b b' : Broker σ} {request : Request} {answer : Option Response}

theorem handled_of_reply {result : Except BrokerError (Response × Session × Broker σ)}
    (he : s.execute b request = s.reply b result)
    (hok : ∀ r t c, result = .ok (r, t, c) → s.Handled b request (some r) t c)
    (h : s.handle b request = (answer, s', b')) : s.Handled b request answer s' b' := by
  rw [handle, he] at h
  cases result with
  | error e => cases h; exact .refused
  | ok done => cases h; exact hok _ _ _ rfl

theorem handled_authorize {token : String} (hopen : s.isOpen = true)
    (ha : request.action = .authorize token) (h : s.handle b request = (answer, s', b')) :
    s.Handled b request answer s' b' := by
  refine handled_of_reply (by rw [execute, hopen, ha]; rfl) ?_ h
  intro r t c hr
  obtain ⟨⟨t', c'⟩, hauth, hr⟩ := bind_eq_ok_iff.mp hr
  obtain ⟨rights, hrights, hauth⟩ := bind_eq_ok_iff.mp hauth
  cases hauth
  cases hr
  exact .authorized hopen ha hrights

theorem handled_get {path : String} (hopen : s.isOpen = true) (ha : request.action = .get path)
    (h : s.handle b request = (answer, s', b')) : s.Handled b request answer s' b' := by
  refine handled_of_reply (by rw [execute, hopen, ha]; rfl) ?_ h
  intro r t c hr
  obtain ⟨values, hget, hr⟩ := bind_eq_ok_iff.mp hr
  cases hr
  exact .answered hopen ha hget

theorem handled_set {path : String} {value : Json} (hopen : s.isOpen = true)
    (ha : request.action = .set path value) (h : s.handle b request = (answer, s', b')) :
    s.Handled b request answer s' b' := by
  unfold handle execute at h
  simp only [hopen, ha, Bool.not_true, Bool.false_eq_true, if_false] at h
  cases hw : WriteRequest.ofJson value with
  | error e =>
    simp only [hw] at h
    cases h
    rw [← ha]
    exact .refused
  | ok write =>
    simp only [hw] at h
    rcases hs : b.set path write s.rights with ⟨outcome, c⟩
    rw [hs] at h
    cases outcome with
    | done => cases h; exact .wrote hopen ha hw hs b.clock.millis
    | refused e =>
      cases h
      rw [← ha]
      exact .wrote hopen ha hw hs _
    | waiting => cases h; exact .wrote hopen ha hw hs 0

theorem handled_subscribe {path : String} {filters : Option Json} (hopen : s.isOpen = true)
    (ha : request.action = .subscribe path filters) (h : s.handle b request = (answer, s', b')) :
    s.Handled b request answer s' b' := by
  refine handled_of_reply (by rw [execute, hopen, ha]; rfl) ?_ h
  intro r t c hr
  obtain ⟨⟨id, c'⟩, hsub, hr⟩ := bind_eq_ok_iff.mp hr
  obtain ⟨⟨p, visible⟩, hp, hsub⟩ := bind_eq_ok_iff.mp hsub
  cases hsub
  cases hr
  obtain ⟨-, rfl⟩ := Registry.readablePaths_eq_ok hp
  exact .subscribed hopen ha hp

theorem handled_unsubscribe {named : Json} (hopen : s.isOpen = true)
    (ha : request.action = .unsubscribe named) (h : s.handle b request = (answer, s', b')) :
    s.Handled b request answer s' b' := by
  refine handled_of_reply (by rw [execute, hopen, ha]; rfl) ?_ h
  intro r t c hr
  obtain ⟨⟨id, c'⟩, hsub, hr⟩ := bind_eq_ok_iff.mp hr
  obtain ⟨id', hn, hsub⟩ := bind_eq_ok_iff.mp hsub
  obtain ⟨subscriptions, hs, hsub⟩ := bind_eq_ok_iff.mp hsub
  cases hsub
  cases hr
  exact .unsubscribed hopen ha hn hs

theorem handled_of_handle (h : s.handle b request = (answer, s', b')) :
    s.Handled b request answer s' b' := by
  cases hopen : s.isOpen with
  | false =>
    rw [handle, execute, hopen] at h
    cases h
    exact .refused
  | true =>
    cases ha : request.action with
    | authorize token => exact handled_authorize hopen ha h
    | get path => exact handled_get hopen ha h
    | set path value => exact handled_set hopen ha h
    | subscribe path filters => exact handled_subscribe hopen ha h
    | unsubscribe named => exact handled_unsubscribe hopen ha h
    | unsubscribeAll =>
      rw [handle, execute, hopen, ha] at h
      cases h
      exact .unsubscribedAll hopen ha

def refusal (request : Request) (e : BrokerError) (now : Int) : Response :=
  .error request.action.name request.requestId (.ofError e) now

theorem handle_of_not_isOpen (b : Broker σ) (request : Request) (hopen : s.isOpen = false) :
    s.handle b request =
      (some (refusal request (.badRequest "session is closed") b.clock.millis), s, b) := by
  rw [handle, execute, hopen]
  rfl

theorem handle_get (b : Broker σ) {path : String} (hopen : s.isOpen = true)
    (ha : request.action = .get path) : s.handle b request =
      (some (match b.registry.get path s.rights with
        | .ok values => .value request.requestId (valueAnswer path values) b.clock.millis
        | .error e => refusal request e b.clock.millis), s, b) := by
  rw [handle, execute, hopen, ha]
  cases hg : b.registry.get path s.rights <;> simp [reply, hg, refusal, ha]

theorem handle_subscribe (b : Broker σ) {path : String} {filters : Option Json}
    (hopen : s.isOpen = true) (ha : request.action = .subscribe path filters) :
    s.handle b request = match b.registry.readablePaths path s.rights with
      | .ok (p, visible) =>
        (some (.subscription "subscribe" request.requestId b.subscriptions.nextId
          b.clock.millis), s,
          { b with subscriptions := (b.subscriptions.subscribeTo s.connection p visible).2 })
      | .error e => (some (refusal request e b.clock.millis), s, b) := by
  rw [handle, execute, hopen, ha]
  cases hp : b.registry.readablePaths path s.rights with
  | error e => simp [reply, subscribe, hp, refusal, ha]
  | ok found =>
    simp [reply, subscribe, hp]
    rfl

theorem handle_unsubscribe (b : Broker σ) {named : Json} (hopen : s.isOpen = true)
    (ha : request.action = .unsubscribe named) :
    s.handle b request = match readSubscriptionId named with
      | .ok id =>
        if b.subscriptions.owns s.connection id then
          (some (.subscription "unsubscribe" request.requestId id b.clock.millis), s,
            { b with subscriptions :=
              { b.subscriptions with rows := b.subscriptions.rows.erase id } })
        else (some (refusal request (.subscriptionNotFound (toString id)) b.clock.millis), s, b)
      | .error e => (some (refusal request e b.clock.millis), s, b) := by
  rw [handle, execute, hopen, ha]
  cases hn : readSubscriptionId named with
  | error e =>
    have hfails : s.unsubscribe b named = .error e := by
      rw [unsubscribe, hn]
      rfl
    simp [reply, hfails, refusal, ha]
  | ok id =>
    cases howns : b.subscriptions.owns s.connection id with
    | true =>
      have hworks : s.unsubscribe b named = .ok (id, { b with subscriptions :=
          { b.subscriptions with rows := b.subscriptions.rows.erase id } }) :=
        bind_eq_ok_iff.mpr ⟨id, hn, bind_eq_ok_iff.mpr ⟨_, if_pos howns, rfl⟩⟩
      simp [reply, hworks, howns]
    | false =>
      have hfails : s.unsubscribe b named = .error (.subscriptionNotFound (toString id)) := by
        rw [unsubscribe, hn]
        show (do let subscriptions ← b.subscriptions.unsubscribe s.connection id; _) = _
        rw [Subscriptions.unsubscribe, howns]
        rfl
      simp [reply, hfails, refusal, ha, howns]

theorem handle_unsubscribeAll (b : Broker σ) (hopen : s.isOpen = true)
    (ha : request.action = .unsubscribeAll) : s.handle b request =
      (some (.done "unsubscribeAll" request.requestId b.clock.millis), s,
        { b with subscriptions := (b.subscriptions.unsubscribeAll s.connection).2 }) := by
  rw [handle, execute, hopen, ha]
  rfl

end SignalBroker.Session
