import SignalBroker.Proofs.Broker.Likeness
import SignalBroker.Proofs.Session.Confidentiality
import SignalBroker.Proofs.Session.Refusal

namespace SignalBroker

/-- Actions that neither change what may be read nor write anything. -/
def Action.isPassive : Action → Bool
  | .authorize _ => false
  | .set .. => false
  | _ => true

namespace Session

variable {σ : Type} {hidden : String → Prop} {c : ConnectionId} {b b' : Broker σ} {s : Session}

/-- What alike brokers make of one request: the session stays as it is, the brokers stay alike, and the
answers are the same if the session may not read what is hidden. -/
structure Matched (s : Session) (hidden : String → Prop) (c : ConnectionId) (b : Broker σ)
    (result result' : Option Response × Session × Broker σ) : Prop where
  session : result.2.1 = s
  session' : result'.2.1 = s
  registry : result.2.2.registry = b.registry
  brokers : result.2.2.Alike hidden c result'.2.2
  answer : b.registry.Withholds hidden s.rights → result'.1 = result.1

theorem matched_of_answer (h : b.Alike hidden c b') {answer answer' : Option Response}
    (ha : b.registry.Withholds hidden s.rights → answer' = answer) :
    Matched s hidden c b (answer, s, b) (answer', s, b') :=
  ⟨rfl, rfl, rfl, h, ha⟩

theorem matched_of_subscriptions (h : b.Alike hidden c b') {answer answer' : Option Response}
    (ha : answer' = answer) {t t' : Subscriptions} (hrows : t'.rows = t.rows)
    (hnext : t'.nextId = t.nextId) (hout : t'.outboxes.find? c = t.outboxes.find? c) :
    Matched s hidden c b (answer, s, { b with subscriptions := t })
      (answer', s, { b' with subscriptions := t' }) :=
  ⟨rfl, rfl, rfl, ⟨h.registry, h.clock, hrows, hnext, hout⟩, fun _ => ha⟩

variable [SignalSource σ] {request : Request}

theorem matched_handle (h : b.Alike hidden c b') (hp : request.action.isPassive = true) :
    Matched s hidden c b (s.handle b request) (s.handle b' request) := by
  cases hopen : s.isOpen with
  | false =>
    rw [handle_of_not_isOpen b request hopen, handle_of_not_isOpen b' request hopen, h.clock]
    exact matched_of_answer h fun _ => rfl
  | true =>
    cases ha : request.action with
    | authorize token =>
      rw [ha] at hp
      cases hp
    | set path value =>
      rw [ha] at hp
      cases hp
    | get path =>
      rw [handle_get b hopen ha, handle_get b' hopen ha, h.clock]
      apply matched_of_answer h
      intro hw
      rw [h.registry.get hw]
    | subscribe path filters =>
      rw [handle_subscribe b hopen ha, handle_subscribe b' hopen ha, h.registry.readablePaths]
      cases b.registry.readablePaths path s.rights with
      | error e => exact matched_of_answer h fun _ => by rw [h.clock]
      | ok found =>
        refine matched_of_subscriptions h (by rw [h.nextId, h.clock]) ?_ ?_ ?_
        · simp only [Subscriptions.subscribeTo, Subscriptions.add, h.rows, h.nextId]
        · simp only [Subscriptions.subscribeTo, Subscriptions.add, h.nextId]
        · exact h.outbox
    | unsubscribe named =>
      rw [handle_unsubscribe b hopen ha, handle_unsubscribe b' hopen ha]
      cases readSubscriptionId named with
      | error e => exact matched_of_answer h fun _ => by rw [h.clock]
      | ok id =>
        have howns : b'.subscriptions.owns s.connection id =
            b.subscriptions.owns s.connection id := by
          rw [Subscriptions.owns, Subscriptions.owns, h.rows]
        simp only [howns]
        split
        · refine matched_of_subscriptions h (by rw [h.clock]) ?_ ?_ ?_
          · exact congrArg (fun rows => rows.erase id) h.rows
          · exact h.nextId
          · exact h.outbox
        · exact matched_of_answer h fun _ => by rw [h.clock]
    | unsubscribeAll =>
      rw [handle_unsubscribeAll b hopen ha, handle_unsubscribeAll b' hopen ha]
      refine matched_of_subscriptions h (by rw [h.clock]) ?_ ?_ ?_
      · simp only [Subscriptions.unsubscribeAll, h.rows]
      · exact h.nextId
      · exact h.outbox

theorem matched_handleText (h : b.Alike hidden c b') {text : String}
    (hp : ∀ request, Request.decode text = .ok request → request.action.isPassive = true) :
    Matched s hidden c b (s.handleText b text) (s.handleText b' text) := by
  unfold handleText
  cases hd : Request.decode text with
  | ok request => exact matched_handle h (hp request hd)
  | error u =>
    rw [h.clock]
    exact matched_of_answer h fun _ => rfl

end Session

/-- What happens at a switchboard from outside: a frame comes in, changes of a source are applied, a
client takes its notifications, and time passes. -/
inductive Deed where
  | framed (c : ConnectionId) (text : String)
  | applied (owner seq : Nat) (values : Values)
  | drained (c : ConnectionId)
  | passed (clock : Clock)

namespace Deed

def Passive : Deed → Prop
  | framed _ text => ∀ request, Request.decode text = .ok request → request.action.isPassive = true
  | _ => True

/-- The same deeds, up to hidden values in the changes of a source. -/
inductive Alike (hidden : String → Prop) : Deed → Deed → Prop where
  | same (d : Deed) : Alike hidden d d
  | applied (owner seq : Nat) {values values' : Values} (hv : values.Alike hidden values') :
    Alike hidden (.applied owner seq values) (.applied owner seq values')

end Deed

namespace Switchboard

variable {σ : Type} [SignalSource σ]

def perform (w : Switchboard σ) : Deed → Option Response × Switchboard σ
  | .framed c text =>
    match w.sessions.find? c with
    | some s =>
      let (answer, s, b) := s.handleText w.broker text
      (answer, ⟨b, w.sessions.insert c s⟩)
    | none => (none, w)
  | .applied owner seq values => (none, ⟨(w.broker.apply owner seq values).2, w.sessions⟩)
  | .drained c =>
    match w.sessions.find? c with
    | some s => (none, ⟨(s.drain w.broker).2, w.sessions⟩)
    | none => (none, w)
  | .passed clock => (none, ⟨{ w.broker with clock }, w.sessions⟩)

def answerTo (w : Switchboard σ) (c : ConnectionId) : Deed → Option Response
  | .framed k text => if k = c then (w.perform (.framed k text)).1 else none
  | _ => none

/-- What a connection sees of one deed after another: the answers to its frames, and after each deed
the notifications that wait for it. -/
def view (c : ConnectionId) (w : Switchboard σ) :
    List Deed → List (Option Response × List Notification)
  | [] => []
  | d :: ds => (w.answerTo c d, (w.perform d).2.queue c) :: view c (w.perform d).2 ds

def after (w : Switchboard σ) : List Deed → Switchboard σ
  | [] => w
  | d :: ds => (w.perform d).2.after ds

variable {log : List (Event σ)} {w w' : Switchboard σ}

theorem insert_self {t : Table ConnectionId Session} {c : ConnectionId} {s : Session}
    (h : t.find? c = some s) : t.insert c s = t := by
  ext k : 1
  exact find?_insert_self h k

/-- A deed is an event, or it changes nothing. -/
theorem run_perform (h : Run log w) (d : Deed) : ∃ log', Run log' (w.perform d).2 := by
  cases d with
  | framed c text =>
    simp only [perform]
    split
    · next s hs =>
      rcases hh : s.handleText w.broker text with ⟨answer, s', b'⟩
      unfold Session.handleText at hh
      split at hh
      · exact ⟨_, h.next (.asked hs hh)⟩
      · cases hh
        rw [insert_self hs]
        exact ⟨log, h⟩
    · exact ⟨log, h⟩
  | applied owner seq values => exact ⟨_, h.next (.applied w owner seq values)⟩
  | drained c =>
    simp only [perform]
    split
    · next s hs => exact ⟨_, h.next (.drained hs)⟩
    · exact ⟨log, h⟩
  | passed clock =>
    exact ⟨_, h.next (.moved w w.broker.registry.members w.broker.registry.timers
      w.broker.registry.stopped w.broker.resolver clock w.broker.files)⟩

/-- Switchboards with the same sessions, at brokers that a connection cannot tell apart. -/
structure Alike (hidden : String → Prop) (c : ConnectionId) (w w' : Switchboard σ) : Prop where
  sessions : w'.sessions = w.sessions
  broker : w.broker.Alike hidden c w'.broker

theorem run_after (h : Run log w) (ds : List Deed) : ∃ log', Run log' (w.after ds) := by
  induction ds generalizing log w with
  | nil => exact ⟨log, h⟩
  | cons d ds ih =>
    obtain ⟨log', hnext⟩ := run_perform h d
    exact ih hnext

variable {hidden : String → Prop} {c : ConnectionId} {s : Session} {d d' : Deed}

omit [SignalSource σ] in
theorem Alike.refl (w : Switchboard σ) : w.Alike hidden c w :=
  ⟨rfl, ⟨⟨fun _ => rfl, fun _ _ => rfl⟩, rfl, rfl, rfl, rfl⟩⟩

omit [SignalSource σ] in
/-- Subscriptions show nothing that their session may not read. -/
theorem deaf_of_sound (h : w.Sound log) (hs : w.sessions.find? c = some s)
    (hw : w.broker.registry.Withholds hidden s.rights) : w.broker.Deaf hidden c := by
  rintro id sub hrow rfl path hp
  obtain ⟨s', paths, hs', -, hvisible, hsound, -⟩ := h.shown id sub hrow
  cases hs.symm.trans hs'
  rw [← Bool.not_eq_true]
  intro haccepts
  simp only [Subscription.accepts, hvisible, Bool.and_eq_true, List.contains_iff_mem] at haccepts
  exact hw.not_readable hp sub.pattern (hsound path haccepts.2)

/-- What becomes of alike switchboards by like deeds. They stay alike, and what may be read by whom
stays as it is. -/
structure Unmoved (hidden : String → Prop) (c : ConnectionId) (w w' : Switchboard σ) (d d' : Deed) :
    Prop where
  alike : (w.perform d).2.Alike hidden c (w'.perform d').2
  answer : w'.answerTo c d' = w.answerTo c d
  sessions : (w.perform d).2.sessions = w.sessions
  publicity : ∀ path, (w.perform d).2.broker.registry.publicity path =
    w.broker.registry.publicity path

theorem perform_framed {k : ConnectionId} {t : Session} (ht : w.sessions.find? k = some t)
    (text : String) : w.perform (.framed k text) =
      ((t.handleText w.broker text).1, ⟨(t.handleText w.broker text).2.2,
        w.sessions.insert k (t.handleText w.broker text).2.1⟩) := by
  simp only [perform, ht]

theorem unmoved_framed (h : w.Alike hidden c w') (hs : w.sessions.find? c = some s)
    (hw : w.broker.registry.Withholds hidden s.rights) {k : ConnectionId} {text : String}
    (hp : (Deed.framed k text).Passive) :
    Unmoved hidden c w w' (.framed k text) (.framed k text) := by
  cases ht : w.sessions.find? k with
  | none =>
    have hnone : ∀ {v : Switchboard σ}, v.sessions = w.sessions →
        v.perform (.framed k text) = (none, v) := by
      intro v hv
      simp only [perform, hv, ht]
    refine ⟨?_, ?_, ?_, ?_⟩
    · rw [hnone rfl, hnone h.sessions]
      exact h
    · rw [answerTo, answerTo, hnone rfl, hnone h.sessions]
    · rw [hnone rfl]
    · rw [hnone rfl]
      exact fun _ => rfl
  | some t =>
    have ht' : w'.sessions.find? k = some t := h.sessions ▸ ht
    have hmatched := Session.matched_handleText (s := t) h.broker hp
    have hsame : w.sessions.insert k (t.handleText w.broker text).2.1 = w.sessions := by
      rw [hmatched.session, insert_self ht]
    have hsame' : w'.sessions.insert k (t.handleText w'.broker text).2.1 = w'.sessions := by
      rw [hmatched.session', insert_self ht']
    refine ⟨?_, ?_, ?_, ?_⟩
    · rw [perform_framed ht, perform_framed ht', hsame, hsame']
      exact ⟨h.sessions, hmatched.brokers⟩
    · rw [answerTo, answerTo, perform_framed ht, perform_framed ht']
      split
      · next hk =>
        -- it is the frame of the session itself
        rw [hk] at ht
        cases hs.symm.trans ht
        exact hmatched.answer hw
      · rfl
    · rw [perform_framed ht, hsame]
    · rw [perform_framed ht, hmatched.registry]
      exact fun _ => rfl

theorem unmoved_drained (h : w.Alike hidden c w') (k : ConnectionId) :
    Unmoved hidden c w w' (.drained k) (.drained k) := by
  refine ⟨?_, rfl, ?_, ?_⟩
  · simp only [perform, h.sessions]
    split
    · next t ht =>
      refine ⟨rfl, h.broker.registry, h.broker.clock, h.broker.rows, h.broker.nextId, ?_⟩
      simp only [Session.drain, Subscriptions.drain, Subscriptions.adjustOutbox, Table.find?_adjust,
        h.broker.outbox]
    · exact h
  · simp only [perform]
    split <;> rfl
  · simp only [perform]
    split <;> exact fun _ => rfl

theorem unmoved_of_alike (h : w.Alike hidden c w') (hd : d.Alike hidden d') (hp : d.Passive)
    (hdeaf : w.broker.Deaf hidden c) (hs : w.sessions.find? c = some s)
    (hw : w.broker.registry.Withholds hidden s.rights) : Unmoved hidden c w w' d d' := by
  have happlied : ∀ owner seq {values values' : Values}, values.Alike hidden values' →
      Unmoved hidden c w w' (.applied owner seq values) (.applied owner seq values') := by
    intro owner seq values values' hv
    exact ⟨⟨h.sessions, h.broker.apply hdeaf hv owner seq⟩, rfl, rfl,
      w.broker.registry.publicity_apply owner seq values⟩
  cases hd with
  | applied owner seq hv => exact happlied owner seq hv
  | same =>
    cases d with
    | framed k text => exact unmoved_framed h hs hw hp
    | applied owner seq values => exact happlied owner seq ⟨rfl, fun _ _ => rfl⟩
    | drained k => exact unmoved_drained h k
    | passed clock =>
      obtain ⟨hregistry, -, hrows, hnext, hout⟩ := h.broker
      exact ⟨⟨h.sessions, hregistry, rfl, hrows, hnext, hout⟩, rfl, rfl, fun _ => rfl⟩

/-- As long as frames only read and subscribe, a session sees the same at two switchboards that differ
in nothing but values which it may not read, whatever becomes of these values. -/
theorem view_eq_of_alike (h : Run log w) (halike : w.Alike hidden c w')
    (hs : w.sessions.find? c = some s) (hw : w.broker.registry.Withholds hidden s.rights)
    {ds ds' : List Deed} (hds : List.Forall₂ (Deed.Alike hidden) ds ds')
    (hp : ∀ d ∈ ds, d.Passive) :
    view c w' ds' = view c w ds ∧ (w.after ds).Alike hidden c (w'.after ds') := by
  induction hds generalizing log w w' with
  | nil => exact ⟨rfl, halike⟩
  | @cons d d' ds ds' hd _ ih =>
    obtain ⟨hpassive, hrest⟩ := List.forall_mem_cons.mp hp
    have hdeaf := deaf_of_sound (sound_of_run h) hs hw
    obtain ⟨hnext, hanswer, hsessions, hpublic⟩ :=
      unmoved_of_alike halike hd hpassive hdeaf hs hw
    obtain ⟨log', hrun⟩ := run_perform h d
    have hw' : (w.perform d).2.broker.registry.Withholds hidden s.rights := by
      intro path hpath
      rw [hpublic]
      exact hw path hpath
    have hqueue : (w'.perform d').2.queue c = (w.perform d).2.queue c := by
      rw [queue, queue, Subscriptions.queue, Subscriptions.queue, hnext.broker.outbox]
    obtain ⟨hview, hafter⟩ := ih hrun hnext (hsessions ▸ hs) hw' hrest
    refine ⟨?_, hafter⟩
    rw [view, view, hanswer, hqueue, hview]

def enter (w : Switchboard σ) : Switchboard σ :=
  ⟨(Session.start w.broker).2,
    w.sessions.insert w.broker.nextConnection (Session.start w.broker).1⟩

def turned (seq : Nat) (isLocked : Bool) : Deed :=
  .applied 0 seq (.ofList [("Trunk.IsLocked", .bool isLocked)])

def opened (seq : Nat) (isLocked : Bool) : Deed :=
  .applied 0 seq (.ofList [("Trunk.IsLocked", .bool isLocked), ("Trunk.IsOpen", .bool true)])

def showToken (c : ConnectionId) (token : String) : Deed :=
  .framed c
    ("\x7b\"action\":\"authorize\",\"tokens\":\x7b\"authorization\":\"" ++ token ++ "\"\x7d\x7d")

def readTrunk : String := "\x7b\"action\":\"get\",\"path\":\"Trunk.*\"\x7d"

def watchTrunk : String := "\x7b\"action\":\"subscribe\",\"path\":\"Trunk.*\"\x7d"

/-- A guest, who may not read whether the trunk is locked, beside a driver, who may. -/
def visited : Switchboard Adapter :=
  (((start trunkTokens ⟨0⟩ 8 .empty).join cabin).enter).enter.after
    [showToken 0 "guest", showToken 1 "driver"]

def shared (isLocked : Bool) : Switchboard Adapter :=
  visited.after [turned 1 isLocked, .framed 0 watchTrunk, .framed 1 watchTrunk]

theorem run_visited : ∃ log, Run log visited := by
  have hstart := Run.start (σ := Adapter) trunkTokens ⟨0⟩ 8 .empty
  have hcabin : Run _ (Switchboard.join _ cabin) :=
    hstart.next (@Step.registered _ _ _ cabin _ rfl)
  exact run_after ((hcabin.next (.opened _)).next (.opened _)) _

theorem exists_guest {w : Switchboard Adapter}
    (hs : (w.sessions.find? 0).any (!·.rights.grants.canRead "Trunk.IsLocked") = true)
    (hp : w.broker.registry.publicity "Trunk.IsLocked" = some false) :
    ∃ guest, w.sessions.find? 0 = some guest ∧
      w.broker.registry.Withholds (· = "Trunk.IsLocked") guest.rights := by
  obtain ⟨guest, hg, hgrant⟩ := (Option.any_eq_true _ _).mp hs
  refine ⟨guest, hg, ?_⟩
  rintro path rfl
  exact ⟨by rw [hp]; decide, by simpa using hgrant⟩

theorem alike_turned (seq : Nat) (isLocked isLocked' : Bool) :
    (turned seq isLocked).Alike (· = "Trunk.IsLocked") (turned seq isLocked') := by
  refine .applied 0 seq ⟨rfl, ?_⟩
  intro path hp
  simp [Table.ofList, hp]

theorem alike_opened (seq : Nat) (isLocked isLocked' : Bool) :
    (opened seq isLocked).Alike (· = "Trunk.IsLocked") (opened seq isLocked') := by
  refine .applied 0 seq ⟨by cases isLocked <;> cases isLocked' <;> rfl, ?_⟩
  intro path hp
  simp [Table.ofList, hp]

theorem passive_framed {c : ConnectionId} {text : String}
    (h : (Request.decode text).toOption.all (·.action.isPassive) = true) :
    (Deed.framed c text).Passive := by
  intro request hd
  rw [hd] at h
  exact h

/-- The guest sees the same whether the trunk is locked or not. The driver does not. -/
theorem view_eq_of_alike_guest : ∃ (log : List (Event Adapter)) (guest : Session),
    Run log (shared false) ∧ (shared false).Alike (· = "Trunk.IsLocked") 0 (shared true) ∧
    (shared false).sessions.find? 0 = some guest ∧
    (shared false).broker.registry.Withholds (· = "Trunk.IsLocked") guest.rights ∧
    view 0 (shared true) [.framed 0 readTrunk, turned 2 false, opened 3 false] =
      view 0 (shared false) [.framed 0 readTrunk, turned 2 false, opened 3 true] ∧
    (view 0 (shared false) [.framed 0 readTrunk, turned 2 false, opened 3 true]).map
      (·.2.length) = [0, 0, 1] ∧
    (view 1 (shared false) [.framed 0 readTrunk, turned 2 false, opened 3 true]).map
      (·.2.length) = [0, 0, 1] ∧
    (view 1 (shared true) [.framed 0 readTrunk, turned 2 false, opened 3 false]).map
      (·.2.length) = [0, 1, 2] := by
  obtain ⟨log, hvisited⟩ := run_visited
  obtain ⟨log', hshared⟩ := run_after hvisited
    [turned 1 false, .framed 0 watchTrunk, .framed 1 watchTrunk]
  obtain ⟨early, hearly, hw⟩ := exists_guest (w := visited) (by decide +kernel) (by decide +kernel)
  obtain ⟨guest, hs, hwithholds⟩ :=
    exists_guest (w := shared false) (by decide +kernel) (by decide +kernel)
  have hwatch : ∀ c, (Deed.framed c watchTrunk).Passive :=
    fun c => passive_framed (by decide +kernel)
  have hread : (Deed.framed 0 readTrunk).Passive := passive_framed (by decide +kernel)
  have halike : (shared false).Alike (· = "Trunk.IsLocked") 0 (shared true) := by
    refine (view_eq_of_alike hvisited (.refl _) hearly hw ?_ ?_).2
    · exact .cons (alike_turned 1 false true) (.cons (.same _) (.cons (.same _) .nil))
    · simp only [List.forall_mem_cons, List.not_mem_nil, false_implies, implies_true, and_true]
      exact ⟨trivial, hwatch 0, hwatch 1⟩
  have hview := view_eq_of_alike hshared halike hs hwithholds
    (.cons (.same (.framed 0 readTrunk)) (.cons (.same (turned 2 false))
      (.cons (alike_opened 3 true false) .nil))) (by
        simp only [List.forall_mem_cons, List.not_mem_nil, false_implies, implies_true, and_true]
        exact ⟨hread, trivial, trivial⟩)
  exact ⟨log', guest, hshared, halike, hs, hwithholds, hview.1, by decide +kernel⟩

end Switchboard

end SignalBroker
