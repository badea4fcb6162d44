import SignalBroker.Proofs.Traffic.Cache
import SignalBroker.Proofs.Traffic.News

namespace SignalBroker

namespace Traffic

open Broker (Watched Replayed)

/-- Steps without registrations during which a subscription stays as it is and always has room. -/
inductive Attended (id : SubscriptionId) (sub : Subscription) : Traffic → Traffic → Prop where
  | refl {t : Traffic} (hr : t.broker.Receives id sub) : Attended id sub t t
  | tail {t₀ t t' : Traffic} (h : Attended id sub t₀ t) (hs : Step (fun _ => False) t t')
    (hr : t'.broker.Receives id sub) : Attended id sub t₀ t'

variable {t t' t₀ : Traffic} {id : SubscriptionId} {sub : Subscription}

theorem later_of_attended (h : Attended id sub t₀ t) : Later (fun _ => False) t₀ t := by
  induction h with
  | refl => exact .refl
  | tail _ hs _ ih => exact ih.tail hs

/-- Every step leaves the entries alone, or applies one change to them. -/
theorem watched_of_attended (h : Attended id sub t₀ t) :
    ∃ notes changes, Watched id sub t₀.broker notes changes t.broker ∧ t.news = t₀.news ++ changes := by
  induction h with
  | refl hr => exact ⟨[], [], .refl hr, (List.append_nil _).symm⟩
  | @tail t t' h hs hr ih =>
    obtain ⟨notes, changes, hw, hnews⟩ := ih
    cases hs with
    | registered hp => exact hp.elim
    | updated => exact ⟨notes, changes, hw.aside rfl hr, hnews⟩
    | wrote => exact ⟨notes, changes, hw.aside rfl hr, hnews⟩
    | moved => exact ⟨notes, changes, hw.aside rfl hr, hnews⟩
    | finished =>
      refine ⟨_, _, hw.applied _ hr, ?_⟩
      rw [← List.append_assoc, ← hnews]
      rfl
    | @fed owner source batch source' =>
      obtain ⟨hrow, hroom⟩ := Broker.receives_of_watched hw
      have hput : Watched id sub t₀.broker notes changes
          (t.put owner source' t.broker.files).broker :=
        hw.aside rfl ⟨hrow, hroom⟩
      refine ⟨_, _, hput.applied _ hr, ?_⟩
      rw [← List.append_assoc, ← hnews]
      rfl

theorem answered_of_coherent (h : t.Coherent) : t.broker.registry.Answered := by
  intro path e he
  obtain ⟨m, -, hmir⟩ := h.entry path e he
  exact hmir.initialized

/-- The notifications for a subscription replay to the cache, and each value in them is new, whatever
the sources are that have answered. Where they are adapters, what is new of a path comes from ever
later changes, so that a write and its echo are never both told. -/
theorem notifications_replay :
    (∀ {σ : Type} {b₀ b : Broker σ} {id sub notes changes}, b₀.registry.Answered →
      Watched id sub b₀ notes changes b → Replayed id sub b₀ b notes changes) ∧
    ∀ {P : Adapter → Prop} {t₀ t : Traffic} {id sub}, Reached P t₀ → Attended id sub t₀ t →
      ∃ notes changes, Watched id sub t₀.broker notes changes t.broker ∧
        Replayed id sub t₀.broker t.broker notes changes ∧ changes.Pairwise Change.Precedes := by
  refine ⟨Broker.replayed_of_watched, ?_⟩
  intro P t₀ t id sub h ha
  have hstart := coherent_of_reached h
  obtain ⟨notes, changes, hw, hnews⟩ := watched_of_attended ha
  have hordered := ordered_later (ordered_of_reached h) hstart (later_of_attended ha)
  have hnewer := hordered.news
  rw [hnews] at hnewer
  refine ⟨notes, changes, hw, Broker.replayed_of_watched (answered_of_coherent hstart) hw, ?_⟩
  exact (List.pairwise_append.mp hnewer).2.1

def lockPattern : Pattern := ⟨"Trunk.IsLocked", [.literal "Trunk", .literal "IsLocked"], rfl⟩

/-- The lock of a trunk is turned, and of the write and its echo only one is told. -/
theorem notifications_replay_lock : ∃ (t₀ t : Traffic) (sub : Subscription),
    Reached Adapter.Idle t₀ ∧ Attended 1 sub t₀ t ∧ t.news.length = 2 ∧
    (t.broker.subscriptions.queue 0).length = 1 ∧
    ∃ notes changes, Watched 1 sub t₀.broker notes changes t.broker ∧
      Replayed 1 sub t₀.broker t.broker notes changes := by
  have hstart : Reached Adapter.Idle (start (.ofTable .empty 0) ⟨0⟩ 8 .empty) :=
    ⟨_, _, _, _, .refl⟩
  have htrunk := reached_later hstart (.single
    (@Step.registered _ _ trunk _ _ ⟨rfl, rfl⟩ (.declared (.created _ _) _ _) rfl))
  let subscriptions :=
    ((Subscriptions.empty.connect 0 8).subscribeTo 0 lockPattern ["Trunk.IsLocked"]).2
  have hsubscribed := reached_later htrunk (.single
    (.moved _ subscriptions [] (.ofTable .empty 0) ⟨0⟩ 8 1 .empty))
  have hattend : ∀ t, Reached Adapter.Idle t →
      t.broker.Receives 1 ⟨0, lockPattern, some ["Trunk.IsLocked"]⟩ → Attended 1 _ t t :=
    fun _ _ hr => .refl hr
  have hstay := hattend _ hsubscribed ⟨rfl, _, rfl, rfl⟩
  have hlocked := hstay.tail
    (@Step.wrote _ _ 0 _ (.ofList [("Trunk.IsLocked", .bool true)]) _ _ _ rfl rfl) ⟨rfl, _, rfl, rfl⟩
  have happlied := hlocked.tail (@Step.finished _ _ [] _ [] rfl) ⟨rfl, _, rfl, rfl⟩
  have hechoed := happlied.tail (@Step.fed _ _ 0 _ _ _ rfl rfl) ⟨rfl, _, rfl, rfl⟩
  obtain ⟨notes, changes, hw, -, -⟩ := notifications_replay.2 hsubscribed hechoed
  have hreplayed := notifications_replay.1 (answered_of_coherent (coherent_of_reached hsubscribed)) hw
  exact ⟨_, _, _, hsubscribed, hechoed, rfl, rfl, notes, changes, hw, hreplayed⟩

end Traffic

end SignalBroker
