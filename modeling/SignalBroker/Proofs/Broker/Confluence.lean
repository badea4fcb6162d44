import SignalBroker.Broker.Basic
import SignalBroker.Proofs.Broker.Applying
import SignalBroker.Proofs.Broker.Fanout
import SignalBroker.Proofs.Signal.Equality

namespace SignalBroker

/-- Batches of one number tell one value of a path. -/
def Agreeing (batches : List Batch) : Prop :=
  ∀ b ∈ batches, ∀ c ∈ batches, b.seq = c.seq → ∀ path v w,
    b.values.find? path = some v → c.values.find? path = some w → (v == w) = true

theorem agreeing_of_nodup {batches : List Batch} (h : (batches.map (·.seq)).Nodup) :
    Agreeing batches := by
  intro b hb c hc hseq path v w hv hw
  cases List.inj_on_of_nodup_map h hb hc hseq
  rw [hv] at hw
  cases hw
  exact BEq.rfl

namespace Entry

variable {e e' e'' : Entry} {owner : Nat} {path : String} {batches others : List Batch}

/-- What becomes of an entry that is told of some batches of a source. If the entry belongs to another
source, or all that the batches tell of its path is older, it stays. Otherwise it has the value and the
number of the latest batch that tells of its path. -/
inductive Settles (e : Entry) (owner : Nat) (path : String) (batches : List Batch) : Entry → Prop where
  | foreign (h : e.owner ≠ owner) : Settles e owner path batches e
  | kept (h : e.owner = owner)
    (hold : ∀ b ∈ batches, ∀ v, b.values.find? path = some v → b.seq < e.seq) :
    Settles e owner path batches e
  | moved {b v u} (h : e.owner = owner) (hb : b ∈ batches) (hv : b.values.find? path = some v)
    (hle : e.seq ≤ b.seq)
    (hlast : ∀ c ∈ batches, ∀ w, c.values.find? path = some w → c.seq ≤ b.seq)
    (hu : (u == v) = true) :
    Settles e owner path batches { e with value := u, initialized := true, seq := b.seq }

/-- Two entries are the same up to the equality of values. -/
structure Matches (e e' : Entry) : Prop where
  value : (e.value == e'.value) = true
  seq : e.seq = e'.seq
  initialized : e.initialized = e'.initialized
  owner : e.owner = e'.owner
  isPublic : e.isPublic = e'.isPublic
  isReadOnly : e.isReadOnly = e'.isReadOnly

theorem matches_self (e : Entry) : e.Matches e :=
  ⟨BEq.rfl, rfl, rfl, rfl, rfl, rfl⟩

def hearAll (e : Entry) (owner : Nat) (path : String) (batches : List Batch) : Entry :=
  batches.foldl (fun e b => e.hear owner b.seq (b.values.find? path)) e

theorem exists_advance (e : Entry) (seq : Nat) (v : SignalValue) : ∃ u, (u == v) = true ∧
    e.advance seq v = { e with value := u, initialized := true, seq } := by
  unfold advance
  split
  · exact ⟨v, BEq.rfl, rfl⟩
  · next h =>
    obtain ⟨hinit, hsame⟩ : e.initialized = true ∧ (e.value == v) = true := by
      simpa [differs] using h
    exact ⟨e.value, hsame, by rw [← hinit]⟩

theorem forall_tells_snoc {p : Batch → Prop} {b : Batch}
    (h : ∀ c ∈ batches, ∀ w, c.values.find? path = some w → p c)
    (hb : ∀ w, b.values.find? path = some w → p b) :
    ∀ c ∈ batches ++ [b], ∀ w, c.values.find? path = some w → p c := by
  intro c hc
  obtain hc | hc := List.mem_append.mp hc
  · exact h c hc
  · cases List.mem_singleton.mp hc
    exact hb

theorem Settles.aside (h : e.Settles owner path batches e') {b : Batch}
    (hb : ∀ v, b.values.find? path = some v → b.seq < e'.seq) :
    e.Settles owner path (batches ++ [b]) e' := by
  cases h with
  | foreign h => exact .foreign h
  | kept h hold => exact .kept h (forall_tells_snoc hold hb)
  | moved h hc hv hle hlast hu =>
    exact .moved h (List.mem_append_left _ hc) hv hle
      (forall_tells_snoc hlast fun v hv => Nat.le_of_lt (hb v hv)) hu

theorem Settles.onward (h : e.Settles owner path batches e') (howner : e'.owner = owner) {b : Batch}
    {u v : SignalValue} (hv : b.values.find? path = some v) (hle : e'.seq ≤ b.seq)
    (hu : (u == v) = true) : e.Settles owner path (batches ++ [b])
      { e' with value := u, initialized := true, seq := b.seq } := by
  have hb : b ∈ batches ++ [b] := List.mem_append_right _ (List.mem_singleton.mpr rfl)
  cases h with
  | foreign h => exact absurd howner h
  | kept h hold =>
    refine .moved h hb hv hle (forall_tells_snoc ?_ fun _ _ => Nat.le_refl _) hu
    intro c hc w hw
    exact Nat.le_trans (Nat.le_of_lt (hold c hc w hw)) hle
  | @moved c v' u' h hc hv' hle' hlast hu' =>
    have hcb : c.seq ≤ b.seq := hle
    refine .moved h hb hv (Nat.le_trans hle' hcb) (forall_tells_snoc ?_ fun _ _ => Nat.le_refl _) hu
    intro d hd w hw
    exact Nat.le_trans (hlast d hd w hw) hcb

theorem Settles.hear (h : e.Settles owner path batches e') (b : Batch) :
    e.Settles owner path (batches ++ [b]) (e'.hear owner b.seq (b.values.find? path)) := by
  cases hv : b.values.find? path with
  | none => exact h.aside (by simp [hv])
  | some v =>
    cases hheeds : e'.heeds owner b.seq with
    | true =>
      obtain ⟨howner, hle⟩ := (e'.heeds_iff owner b.seq).mp hheeds
      obtain ⟨u, hu, hadvance⟩ := e'.exists_advance b.seq v
      rw [hear_of_heeds hheeds, hadvance]
      exact h.onward howner hv hle hu
    | false =>
      rw [hear_of_not_heeds _ hheeds]
      by_cases howner : e'.owner = owner
      · refine h.aside fun w hw => ?_
        have hnot : ¬ e'.seq ≤ b.seq := fun hle => by simp [heeds, howner, hle] at hheeds
        omega
      · have hsame : e' = e := by
          cases h with
          | foreign => rfl
          | kept => rfl
          | moved h => exact absurd h howner
        rw [hsame] at howner ⊢
        exact .foreign howner

theorem settles_hearAll (e : Entry) (owner : Nat) (path : String) (batches : List Batch) :
    e.Settles owner path batches (e.hearAll owner path batches) := by
  -- from the end of the list, since what the entry has settled to so far tells whether it heeds the next
  induction batches using List.reverseRecOn with
  | nil =>
    by_cases howner : e.owner = owner
    · exact .kept howner (by simp)
    · exact .foreign howner
  | append_singleton batches b ih =>
    rw [hearAll, List.foldl_append]
    exact ih.hear b

/-- What becomes of an entry depends only on which batches there are. -/
theorem Settles.matches (h : e.Settles owner path batches e') (h' : e.Settles owner path others e'')
    (hagree : Agreeing batches) (hsame : ∀ b, b ∈ others ↔ b ∈ batches) : e'.Matches e'' := by
  cases h with
  | foreign h =>
    cases h' with
    | foreign => exact e.matches_self
    | kept => exact e.matches_self
    | moved h' => exact absurd h' h
  | kept h hold =>
    cases h' with
    | foreign => exact e.matches_self
    | kept => exact e.matches_self
    | moved _ hb hv hle =>
      -- the batch that it would have moved to is in both lists
      have hlt := hold _ ((hsame _).mp hb) _ hv
      omega
  | @moved b v u h hb hv hle hlast hu =>
    cases h' with
    | foreign h' => exact absurd h h'
    | kept _ hold =>
      have hlt := hold b ((hsame b).mpr hb) v hv
      omega
    | @moved c w x _ hc hw _ hlast' hx =>
      have hseq : b.seq = c.seq := Nat.le_antisymm (hlast' b ((hsame b).mpr hb) v hv)
        (hlast c ((hsame c).mp hc) w hw)
      have hvw := hagree b hb c ((hsame c).mp hc) hseq path v w hv hw
      exact ⟨BEq.trans hu (BEq.trans hvw (BEq.symm hx)), hseq, rfl, rfl, rfl, rfl⟩

theorem differs_advance (e : Entry) (seq : Nat) (v : SignalValue) :
    (e.advance seq v).differs v = false := by
  obtain ⟨u, hu, hadvance⟩ := e.exists_advance seq v
  simp [hadvance, differs, hu]

theorem not_differs_hear {e : Entry} {owner seq : Nat} {v : SignalValue}
    (h : e.heeds owner seq = true) : (e.hear owner seq (some v)).differs v = false := by
  rw [hear_of_heeds h]
  exact e.differs_advance seq v

theorem heeds_hear (e : Entry) (owner seq : Nat) (v : Option SignalValue) :
    (e.hear owner seq v).heeds owner seq = e.heeds owner seq := by
  cases h : e.heeds owner seq with
  | false => rw [hear_of_not_heeds v h, h]
  | true =>
    cases v with
    | none => exact h
    | some v =>
      refine (heeds_iff _ _ _).mpr ⟨?_, ?_⟩
      · rw [owner_hear]
        exact ((e.heeds_iff owner seq).mp h).1
      · rw [hear_of_heeds h, seq_advance]

theorem hear_hear (e : Entry) (owner seq : Nat) (v : Option SignalValue) :
    (e.hear owner seq v).hear owner seq v = e.hear owner seq v := by
  cases h : e.heeds owner seq with
  | false => rw [hear_of_not_heeds v h, hear_of_not_heeds v h]
  | true =>
    cases v with
    | none => rfl
    | some v =>
      have hagain := (e.heeds_hear owner seq (some v)).trans h
      rw [hear_of_heeds hagain, advance, not_differs_hear h, if_neg Bool.false_ne_true,
        hear_of_heeds h]
      have hseq := e.seq_advance seq v
      cases hadvance : e.advance seq v
      rw [hadvance] at hseq
      rw [← hseq]

end Entry

namespace Subscriptions

theorem tell_of_isEmpty (timestamp : Int) {changes : Values} (h : changes.isEmpty = true)
    (state : Nat × Table ConnectionId Outbox) (row : SubscriptionId × Subscription) :
    tell timestamp changes state row = state := by
  have hnone : notification? timestamp changes row.1 row.2 = none := by
    refine Option.eq_none_iff_forall_ne_some.mpr fun n hn => ?_
    obtain ⟨-, path, v, hv, -⟩ := notification?_eq_some_iff.mp hn
    rw [(Table.isEmpty_iff changes).mp h path] at hv
    cases hv
  rw [tell, hnone]

theorem dispatch_of_isEmpty (s : Subscriptions) (timestamp : Int) {changes : Values}
    (h : changes.isEmpty = true) : s.dispatch timestamp changes = (0, s) := by
  have hfold : s.rows.toList.foldl (tell timestamp changes) (0, s.outboxes) = (0, s.outboxes) :=
    List.foldl_fixed' (tell_of_isEmpty timestamp h _) _
  rw [dispatch, hfold]

end Subscriptions

namespace Registry

variable {σ : Type} (r : Registry σ) (owner seq : Nat) (values : Values)

theorem apply_apply : (r.apply owner seq values).apply owner seq values =
    r.apply owner seq values := by
  have hentries : ((r.apply owner seq values).apply owner seq values).entries =
      (r.apply owner seq values).entries := by
    ext path : 1
    rw [find?_apply, find?_apply, Option.map_map]
    congr 1
    funext e
    exact e.hear_hear owner seq _
  exact congrArg (fun entries => { r with entries }) hentries

theorem news_apply : ((r.apply owner seq values).news owner seq values).isEmpty = true := by
  refine (Table.isEmpty_iff _).mpr fun path => Option.eq_none_iff_forall_ne_some.mpr fun v hv => ?_
  obtain ⟨hv, e', he', hheeds, hdiffers⟩ := (find?_news _ _ _ _ _ _).mp hv
  rw [find?_apply, hv] at he'
  obtain ⟨e, -, rfl⟩ := Option.map_eq_some_iff.mp he'
  rw [Entry.heeds_hear] at hheeds
  rw [Entry.not_differs_hear hheeds] at hdiffers
  cases hdiffers

end Registry

namespace Broker

variable {σ : Type} {b : Broker σ} {owner : Nat} {batches : List Batch}

theorem apply_apply (b : Broker σ) (owner seq : Nat) (values : Values) :
    (b.apply owner seq values).2.apply owner seq values = (0, (b.apply owner seq values).2) := by
  have hnews := b.registry.news_apply owner seq values
  have hsize : ((b.registry.apply owner seq values).news owner seq values).size = 0 :=
    List.length_eq_zero_iff.mpr (List.isEmpty_iff.mp hnews)
  simp only [apply, hsize, b.registry.apply_apply owner seq values,
    Subscriptions.dispatch_of_isEmpty _ b.clock.millis hnews]

def applyAll (b : Broker σ) (owner : Nat) (batches : List Batch) : Broker σ :=
  batches.foldl (fun b batch => (b.apply owner batch.seq batch.values).2) b

theorem entry_applyAll (b : Broker σ) (owner : Nat) (batches : List Batch) (path : String) :
    (b.applyAll owner batches).registry.entries.find? path =
      (b.registry.entries.find? path).map fun e => e.hearAll owner path batches := by
  induction batches generalizing b with
  | nil => exact Option.map_id_apply.symm
  | cons batch batches ih =>
    have happly : (b.apply owner batch.seq batch.values).2.registry.entries.find? path = _ :=
      b.registry.find?_apply owner batch.seq batch.values path
    refine (ih _).trans ?_
    rw [happly, Option.map_map]
    rfl

/-- What becomes of the entries when batches of a source are applied. No path is added or removed. Each
entry settles to what the latest batch tells of its path, and any other list of the same batches, in
another order or with some of them repeated, has it settle to the same. A batch that has just been
applied makes no difference when it is applied again: nothing is news, and nobody is told. -/
theorem applyAll_confluent (b : Broker σ) (owner : Nat) {batches : List Batch}
    (h : Agreeing batches) :
    (∀ path, (b.applyAll owner batches).registry.entries.find? path = none ↔
      b.registry.entries.find? path = none) ∧
    (∀ path e, b.registry.entries.find? path = some e →
      ∃ e', (b.applyAll owner batches).registry.entries.find? path = some e' ∧
        e.Settles owner path batches e' ∧
        ∀ others, (∀ batch, batch ∈ others ↔ batch ∈ batches) →
          ∃ e'', (b.applyAll owner others).registry.entries.find? path = some e'' ∧
            e'.Matches e'') ∧
    ∀ batch : Batch, (b.apply owner batch.seq batch.values).2.apply owner batch.seq batch.values =
      (0, (b.apply owner batch.seq batch.values).2) := by
  refine ⟨?_, ?_, fun batch => b.apply_apply owner batch.seq batch.values⟩
  · intro path
    rw [entry_applyAll, Option.map_eq_none_iff]
  · intro path e he
    have hsettles := e.settles_hearAll owner path
    refine ⟨_, by rw [entry_applyAll, he, Option.map_some], hsettles batches, ?_⟩
    intro others hsame
    refine ⟨_, by rw [entry_applyAll, he, Option.map_some], ?_⟩
    exact (hsettles batches).matches (hsettles others) h hsame

def twoSources : Broker Unit :=
  let b := ofResolver (.ofTable .empty 0) ⟨0⟩ 8 .empty
  { b with registry.entries := .ofList [
      ("Gear", ⟨.number (.natural 1), true, false, true, 1, 7⟩),
      ("Speed", ⟨.number (.natural 20), true, false, true, 0, 2⟩)] }

def history : List Batch := [
  ⟨1, .ofList [("Speed", .number (.natural 10))]⟩,
  ⟨2, .ofList [("Gear", .number (.natural 5)), ("Speed", .number (.natural 20))]⟩,
  ⟨4, .ofList [("Speed", .number (.natural 40))]⟩]

theorem applyAll_confluent_twoSources : Agreeing history ∧
    (∀ batch, batch ∈ history.reverse ++ history ↔ batch ∈ history) ∧
    ∃ e e', (twoSources.applyAll 0 history).registry.entries.find? "Speed" = some e ∧
      (twoSources.applyAll 0 (history.reverse ++ history)).registry.entries.find? "Speed" = some e' ∧
      e.seq = 4 ∧ (e.value == .number (.natural 40)) = true ∧ e.Matches e' := by
  have hagree : Agreeing history := agreeing_of_nodup (by decide)
  have hsame : ∀ batch, batch ∈ history.reverse ++ history ↔ batch ∈ history := by simp
  obtain ⟨-, hsettles, -⟩ := applyAll_confluent twoSources 0 hagree
  obtain ⟨e, he, -, hothers⟩ := hsettles "Speed" _ rfl
  obtain ⟨e', he', hmatches⟩ := hothers _ hsame
  refine ⟨hagree, hsame, e, e', he, he', ?_, ?_, hmatches⟩ <;> cases he <;> rfl

end Broker

end SignalBroker
