import SignalBroker.Proofs.Broker.Ownership
import SignalBroker.Proofs.Session.Visibility

namespace SignalBroker

namespace Session

variable {s s' : Session} {b b' : Broker Adapter} {request : Request} {answer : Option Response}

theorem stays_handled (h : s.Handled b request answer s' b') : b.registry.Stays b'.registry := by
  cases h with
  | @wrote path value write outcome _ _ _ _ hs =>
    unfold Broker.set at hs
    split at hs
    · cases hs
      exact .refl _
    · exact Broker.stays_writeGroups hs
  | _ => exact .refl _

theorem handled_error (h : s.Handled b request answer s' b') (hb : b.registry.Owned) {r : Response}
    (hr : answer = some r) (he : r.isError = true) : s' = s ∧ b' = b := by
  cases h with
  | refused => exact ⟨rfl, rfl⟩
  | answered => exact ⟨rfl, rfl⟩
  | @wrote path value write outcome _ _ _ _ hs =>
    cases outcome with
    | refused e => exact ⟨rfl, Broker.set_eq_refused hb hs⟩
    | done =>
      cases hr
      cases he
    | waiting => cases hr
  | _ =>
    cases hr
    cases he

end Session

namespace Switchboard

variable {w w' : Switchboard Adapter}

/-- One event, or one move of the surroundings. Adapters become only what they can: they write, also
in turns of their own and where a write has waited, their streams are filled, emptied and closed, and
what is subscribed of them changes. -/
inductive Move : Switchboard Adapter → Switchboard Adapter → Prop where
  | happened {w w' : Switchboard Adapter} {e} (hs : Step w e w') (he : e ≠ .moved) :
    Move w w'
  | worked {w : Switchboard Adapter} {members : List (Member Adapter)}
    (hm : List.Forall₂ (fun m m' => m.source.Becomes m'.source) w.broker.registry.members members)
    (timers stopped resolver clock files) :
    Move w ⟨{ w.broker with
      registry := { w.broker.registry with members, timers, stopped }
      resolver, clock, files }, w.sessions⟩

def Later : Switchboard Adapter → Switchboard Adapter → Prop := Relation.ReflTransGen Move

def Reached (w : Switchboard Adapter) : Prop :=
  ∃ resolver clock outboxCapacity files, Later (start resolver clock outboxCapacity files) w

/-- A move registers a source or leaves alone what never changes. -/
theorem stays_or_registers (h : Move w w') :
    w.broker.registry.Stays w'.broker.registry ∨ ∃ a, Step w (.registered a) w' := by
  cases h with
  | worked hm => exact .inl (Registry.stays_becomes _ _ hm)
  | happened hs he =>
    cases hs with
    | opened => exact .inl (.refl _)
    | asked _ hh => exact .inl (Session.stays_handled (Session.handled_of_handle hh))
    | @closed _ s =>
      rw [(close_keeps s w.broker).2.2.1]
      exact .inl (.refl _)
    | @dropped _ s =>
      rw [(close_keeps s w.broker).2.2.1]
      exact .inl (.refl _)
    | drained => exact .inl (.refl _)
    | applied owner seq values => exact .inl (Registry.stays_apply _ owner seq values)
    | @registered source b' hr => exact .inr ⟨source, .registered hr⟩
    | moved => exact absurd rfl he

theorem registers_of_step {a : Adapter} (h : Step w (.registered a) w') :
    w.broker.registry.register a = .accepted w'.broker.registry ∧ w'.sessions = w.sessions := by
  cases h with
  | @registered source b' hr =>
    obtain ⟨registry, haccepted, rfl⟩ := Broker.register_eq_ok_iff.mp hr
    exact ⟨haccepted, rfl⟩

theorem keeps_move (h : Move w w') : w.broker.registry.Keeps w'.broker.registry := by
  obtain hstays | ⟨a, hs⟩ := stays_or_registers h
  · exact hstays.keeps
  · exact Registry.keeps_register (registers_of_step hs).1

theorem keeps_later (h : Later w w') : w.broker.registry.Keeps w'.broker.registry := by
  induction h with
  | refl => exact .refl _
  | tail _ hm ih => exact ih.trans (keeps_move hm)

theorem owned_of_reached (h : Reached w) : w.broker.registry.Owned := by
  obtain ⟨resolver, clock, outboxCapacity, files, h⟩ := h
  refine (keeps_later h).owned ?_
  intro path e he
  cases he

section Work

-- What a broker does of itself, feeding and stopping included, is made of moves, so it is among what
-- `Later` allows.
variable (b : Broker Adapter) (sessions : Table ConnectionId Session)

theorem move_setSource {k : Nat} {m : Member Adapter} {source : Adapter}
    (hm : b.registry.members[k]? = some m) (h : m.source.Becomes source) :
    Move ⟨b, sessions⟩ ⟨{ b with registry := b.registry.setSource k source }, sessions⟩ :=
  .worked (Registry.becomes_setSource hm h) b.registry.timers b.registry.stopped b.resolver b.clock
    b.files

theorem later_feed (owner : Nat) : Later ⟨b, sessions⟩ ⟨b.feed owner, sessions⟩ := by
  unfold Broker.feed
  split
  · next source hm =>
    split
    · next batch source' hr =>
      refine .tail (.single (move_setSource b sessions hm (.single (Adapter.turn_of_receive hr)))) ?_
      exact .happened (.applied ⟨_, sessions⟩ owner batch.seq batch.values) nofun
    · exact .refl
  · exact .refl

theorem later_feedTimes (owner n : Nat) :
    Later ⟨b, sessions⟩ ⟨b.feedTimes owner n, sessions⟩ := by
  induction n generalizing b with
  | zero => exact .refl
  | succ n ih => exact (later_feed b sessions owner).trans (ih _)

theorem later_settle : Later ⟨b, sessions⟩ ⟨b.settle, sessions⟩ := by
  unfold Broker.settle
  generalize List.range b.registry.members.length = owners
  induction owners generalizing b with
  | nil => exact .refl
  | cons owner owners ih =>
    refine Relation.ReflTransGen.trans ?_ (ih _)
    dsimp only
    split
    · exact later_feedTimes b sessions owner _
    · exact .refl

theorem later_shutdown : Later ⟨b, sessions⟩ ⟨b.shutdown, sessions⟩ := by
  refine .single (.worked ?_ [] true b.resolver b.clock b.files)
  rw [List.forall₂_map_right_iff, List.forall₂_same]
  intro m _
  have hclosed : m.source.Becomes
      (if m.fed then SignalSource.closeStream m.source else m.source) := by
    split
    · exact .single (.streamed m.source _)
    · exact .refl
  exact hclosed.tail (.released _)

theorem becomes_takeTurns (a : Adapter) (steps turns : Nat) :
    a.Becomes (Broker.takeTurns a steps turns).1 := by
  induction turns generalizing a steps with
  | zero => exact .refl
  | succ turns ih =>
    simp only [Broker.takeTurns]
    split
    · exact a.becomes_tick.trans (ih _ _)
    · exact .refl

theorem later_workShift (l : Backlog) : Later ⟨b, sessions⟩ ⟨(b.workShift l).1, sessions⟩ := by
  unfold Broker.workShift
  split
  · exact .refl
  · next m hm =>
    exact (Relation.ReflTransGen.single
      (move_setSource b sessions hm (becomes_takeTurns m.source _ _))).trans
        (later_feedTimes _ sessions l.owner _)

theorem later_workRound (ls : List Backlog) :
    Later ⟨b, sessions⟩ ⟨(b.workRound ls).1, sessions⟩ := by
  induction ls generalizing b with
  | nil => exact .refl
  | cons l ls ih => exact (later_workShift b sessions l).trans (ih _)

theorem later_workOff (timers : List Timer) (rounds : Nat) (ls : List Backlog) :
    Later ⟨b, sessions⟩ ⟨b.workOff timers rounds ls, sessions⟩ := by
  have hset : ∀ (b : Broker Adapter) timers, Later ⟨b, sessions⟩
      ⟨{ b with registry := { b.registry with timers } }, sessions⟩ := by
    intro b timers
    exact .single (.worked (List.forall₂_same.mpr fun _ _ => .refl) timers b.registry.stopped
      b.resolver b.clock b.files)
  induction rounds generalizing b timers ls with
  | zero => exact hset b timers
  | succ rounds ih =>
    unfold Broker.workOff
    split
    · exact hset b timers
    · exact (later_workRound b sessions ls).trans (ih _ _ _)

/-- The background work of the adapters is made of moves. -/
theorem later_advance (ms : Nat) : Later ⟨b, sessions⟩ ⟨b.advance ms, sessions⟩ :=
  later_workOff b sessions _ _ _

end Work

/-- A frame that is answered by an error leaves its session and the whole broker as they are, with
every entry, source, subscription and outbox. And a write that has passed its checks is not refused
later: whichever of its groups are still to be written, and whatever happens before they are, no
adapter refuses them. -/
theorem error_changes_nothing (h : Reached w) :
    (∀ (s : Session) (text : String) (r : Response) (s' : Session) (b' : Broker Adapter),
      s.handleText w.broker text = (some r, s', b') → r.isError = true →
        s' = s ∧ b' = w.broker) ∧
    ∀ pattern write rights targets,
      w.broker.registry.targets pattern write rights = .ok targets →
        ∀ w', Later w w' → ∀ groups ⊆ (Registry.groups targets).toList,
          ∀ e b', w'.broker.writeGroups groups ≠ (.refused e, b') := by
  have howned := owned_of_reached h
  constructor
  · intro s text r s' b' hh he
    unfold Session.handleText at hh
    split at hh
    · exact Session.handled_error (Session.handled_of_handle hh) howned rfl he
    · cases hh
      exact ⟨rfl, rfl⟩
  · intro pattern write rights targets ht w' hl groups hg
    apply Broker.writeGroups_ne_refused
    intro group hm
    exact (Broker.takes_of_targets howned ht group (hg hm)).keeps (keeps_later hl)

def lock : Adapter :=
  ⟨(Store.ofName "lock").declare "Trunk.IsLocked" ⟨.bool false, true, false⟩, .memory⟩

def lamp : Adapter :=
  ⟨(Store.ofName "lamp").declare "Trunk.IsLit" ⟨.bool false, true, false⟩, .memory⟩

def scale : Adapter :=
  ⟨(Store.ofName "scale").declare "Trunk.Weight" ⟨.null, true, true⟩, .memory⟩

def join (w : Switchboard Adapter) (a : Adapter) : Switchboard Adapter :=
  ⟨(w.broker.register a).toOption.getD w.broker, w.sessions⟩

def loaded : Switchboard Adapter :=
  (((start (.ofTable .empty 0) ⟨0⟩ 8 .empty).join lock).join lamp).join scale

theorem reached_loaded : Reached loaded := by
  have hstart : Later _ (start (.ofTable .empty 0) ⟨0⟩ 8 .empty) := .refl
  have hlock : Later _ (join _ lock) :=
    hstart.tail (.happened (@Step.registered _ _ _ lock _ rfl) nofun)
  have hlamp : Later _ (join _ lamp) :=
    hlock.tail (.happened (@Step.registered _ _ _ lamp _ rfl) nofun)
  have hscale : Later _ (join _ scale) :=
    hlamp.tail (.happened (@Step.registered _ _ _ scale _ rfl) nofun)
  exact ⟨_, _, _, _, hscale⟩

def loader : Session :=
  ⟨0, .ofGrants (.ofTable (.ofList [("Trunk.*", .readWrite)])) 60, true⟩

def everything : String :=
  "\x7b\"action\":\"set\",\"path\":\"Trunk.*\",\"value\":true\x7d"

/-- A write to everything fails at the scale. One to the lock and the lamp does not fail. -/
theorem error_changes_nothing_loaded : ∃ (r : Response) (targets : Table String Target),
    Reached loaded ∧ loader.handleText loaded.broker everything = (some r, loader, loaded.broker) ∧
    r.isError = true ∧
    loaded.broker.registry.targets "Trunk.*"
      (.suffixes [("IsLocked", .bool true), ("IsLit", .bool true)]) loader.rights = .ok targets ∧
    (Registry.groups targets).size = 2 ∧
    ∀ e b', loaded.broker.writeGroups (Registry.groups targets).toList ≠ (.refused e, b') := by
  obtain ⟨hframe, hwrite⟩ := error_changes_nothing reached_loaded
  have herror : (loader.handleText loaded.broker everything).1.map Response.isError = some true := by
    decide +kernel
  rcases hh : loader.handleText loaded.broker everything with ⟨answer, s', b'⟩
  rw [hh] at herror
  obtain ⟨r, rfl, he⟩ := Option.map_eq_some_iff.mp herror
  obtain ⟨rfl, rfl⟩ := hframe loader everything r s' b' hh he
  have hpassed := hwrite "Trunk.*" (.suffixes [("IsLocked", .bool true), ("IsLit", .bool true)])
    loader.rights _ rfl loaded .refl
  exact ⟨r, _, reached_loaded, rfl, he, rfl, rfl, hpassed _ (List.Subset.refl _)⟩

end Switchboard

end SignalBroker
