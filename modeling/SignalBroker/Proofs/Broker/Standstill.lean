import SignalBroker.Proofs.Broker.Filling
import SignalBroker.Proofs.Broker.Intake

namespace SignalBroker

def Phase.Fits (r : Registry Adapter) (listed : List String) (taken : Bool) : Phase → Prop
  | listing => taken = false
  | comparing paths => paths = listed ∧ taken = false
  | flagging paths _ _ _ => paths = listed ∧ r.conflict? listed = none ∧ taken = false
  | taking paths _ => paths = listed ∧ r.conflict? listed = none ∧ taken = false
  | subscribing paths _ given => paths = listed ∧ r.conflict? listed = none ∧ given = true
  | reading paths _ given => paths = listed ∧ r.conflict? listed = none ∧ given = true
  | entering .. => r.conflict? listed = none
  | starting .. => r.conflict? listed = none
  | ended _ => True

theorem Phase.Fits.conflict?_eq_none {r : Registry Adapter} {listed : List String} {taken : Bool}
    {phase : Phase} (h : phase.Fits r listed taken) (hs : phase.hasSubscribed = true)
    (hgoing : phase.isEnded = false) : r.conflict? listed = none := by
  cases phase with
  | reading => exact h.2.1
  | entering => exact h
  | starting => exact h
  | ended => cases hgoing
  | _ => cases hs

namespace Intake

/-- A writer waits for room in the stream, and the registration for the store. -/
def Standstill (t : Intake) : Prop :=
  t.waiting.isSome = true ∧ t.phase.needsStore = true

/-- A registration that has not ended. Only what was subscribed before is, until it has subscribed. -/
structure Underway (r : Registry Adapter) (a : Adapter) (t : Intake) : Prop where
  unread : a.store.Unread t.source.store t.waiting
  before : t.phase.hasSubscribed = false →
    ∀ path, t.source.store.isSubscribed path = a.store.isSubscribed path
  fits : t.phase.Fits r (SignalSource.paths a) t.source.store.stream.taken

variable {r : Registry Adapter} {a : Adapter} {t t' : Intake}

theorem underway_start (hopen : a.store.stream.closed = false)
    (hfree : a.store.stream.taken = false) : Underway r a (start a) :=
  ⟨Store.unread_refl hopen, fun _ _ => rfl, hfree⟩

theorem Underway.written (h : Underway r a t) {values : Values} {s : Store} {d : Delivery}
    {waiting : Option Batch} (hw : t.source.store.Written values s d)
    (hunread : a.store.Unread s waiting) :
    Underway r a { t with source := ⟨s, t.source.backing⟩, waiting } where
  unread := hunread
  before := by
    intro hphase path
    exact (hw.isSubscribed path).trans (h.before hphase path)
  fits := by
    have hfits := h.fits
    rw [← hw.taken] at hfits
    exact hfits

theorem Underway.proceed (h : Underway r a t)
    (hlock : t.phase.needsStore = true → t.waiting = none)
    (hgoing : (t.phase.proceed r t.source).1.isEnded = false) :
    Underway r a { t with
      phase := (t.phase.proceed r t.source).1, source := (t.phase.proceed r t.source).2 } := by
  obtain ⟨phase, source, waiting⟩ := t
  obtain ⟨hunread, hbefore, hfits⟩ := h
  cases phase with
  | listing => exact ⟨hunread, hbefore, hunread.paths, hfits⟩
  | comparing paths =>
    obtain ⟨rfl, hfree⟩ := hfits
    simp only [Phase.proceed] at hgoing ⊢
    cases hc : r.conflict? (SignalSource.paths a) with
    | some e => simp [hc, Phase.isEnded] at hgoing
    | none => exact ⟨hunread, hbefore, rfl, hc, hfree⟩
  | flagging paths read left isPublic =>
    cases left with
    | nil => exact ⟨hunread, hbefore, hfits⟩
    | cons path left =>
      cases isPublic with
      | none =>
        simp only [Phase.proceed] at hgoing ⊢
        cases hp : SignalSource.isPublic source path with
        | error e => simp [hp, Phase.isEnded] at hgoing
        | ok isPublic => exact ⟨hunread, hbefore, hfits⟩
      | some isPublic =>
        simp only [Phase.proceed] at hgoing ⊢
        cases hr : SignalSource.isReadOnly source path with
        | error e => simp [hr, Phase.isEnded] at hgoing
        | ok isReadOnly => exact ⟨hunread, hbefore, hfits⟩
  | taking paths flags =>
    obtain ⟨rfl, hc, hfree⟩ := hfits
    refine ⟨hunread.withTaken true, hbefore, rfl, hc, ?_⟩
    show (!source.store.stream.taken) = true
    rw [hfree]
    rfl
  | subscribing paths flags given =>
    have hidle : waiting = none := hlock rfl
    simp only [Phase.proceed] at hgoing ⊢
    cases hs : SignalSource.subscribe source paths with
    | error e => simp [hs, Phase.isEnded] at hgoing
    | ok subscribed =>
      obtain ⟨store, hstore, rfl⟩ := Adapter.subscribe_eq_ok hs
      subst hidle
      exact ⟨hunread.marked hstore, by simp [Phase.hasSubscribed], hfits⟩
  | reading paths flags given =>
    exact ⟨hunread, by simp [Phase.proceed, Phase.hasSubscribed], hfits.2.1⟩
  | entering flags values given =>
    exact ⟨hunread, by simp [Phase.proceed, Phase.hasSubscribed], hfits⟩
  | starting flags values given => cases hgoing
  | ended outcome => cases hgoing

/-- Every step keeps it, but for the one with which the registration ends. -/
theorem Underway.step (h : Underway r a t) (hs : Step r t t') (hgoing : t'.phase.isEnded = false) :
    Underway r a t' := by
  cases hs with
  | wrote hidle hw =>
    have hw := Store.written_of_write hw
    have hunread := h.unread
    rw [hidle] at hunread
    have hnext := h.written hw (hunread.wrote hw)
    rw [← hidle] at hnext
    exact hnext
  | stuck hidle hw =>
    have hw := Store.written_of_write hw
    have hunread := h.unread
    rw [hidle] at hunread
    exact h.written hw (hunread.stuck hw)
  | resumed hb ho =>
    rw [h.unread.full _ hb] at ho
    cases ho
  | proceeded _ hlock => exact h.proceed hlock hgoing
  | fed hended =>
    rw [hended] at hgoing
    cases hgoing

theorem isEnded_of_step (hs : Step r t t') (hgoing : t'.phase.isEnded = false) :
    t.phase.isEnded = false := by
  cases hs with
  | wrote => exact hgoing
  | stuck => exact hgoing
  | resumed => exact hgoing
  | proceeded hbefore _ => exact hbefore
  | fed => exact hgoing

theorem underway_of_reaches (hopen : a.store.stream.closed = false)
    (hfree : a.store.stream.taken = false) (h : Reaches r (start a) t)
    (hgoing : t.phase.isEnded = false) : Underway r a t := by
  induction h with
  | refl => exact underway_start hopen hfree
  | tail _ hs ih => exact (ih (isEnded_of_step hs hgoing)).step hs hgoing

theorem Standstill.isEnded (h : t.Standstill) : t.phase.isEnded = false := by
  obtain ⟨-, hphase⟩ := h
  cases hs : t.phase with
  | ended outcome =>
    rw [hs] at hphase
    cases hphase
  | _ => rfl

/-- In a standstill the writer needs room, and everybody else the store. In any other state the
registration can proceed. -/
theorem Underway.standstill_iff_halted (h : Underway r a t) (hgoing : t.phase.isEnded = false) :
    t.Standstill ↔ ¬ ∃ t', Step r t t' := by
  constructor
  · rintro ⟨hwaiting, hneeds⟩ ⟨t', hs⟩
    obtain ⟨b, hb⟩ := Option.isSome_iff_exists.mp hwaiting
    cases hs with
    | wrote hidle => simp [hidle] at hb
    | stuck hidle => simp [hidle] at hb
    | resumed hb ho =>
      rw [h.unread.full _ hb] at ho
      cases ho
    | proceeded _ hlock => simp [hlock hneeds] at hb
    | fed hended =>
      rw [hended] at hgoing
      cases hgoing
  · intro hhalted
    by_contra hstill
    refine hhalted ⟨_, .proceeded hgoing ?_⟩
    intro hneeds
    by_contra hwaiting
    exact hstill ⟨Option.isSome_iff_ne_none.mpr hwaiting, hneeds⟩

theorem reaches_waiting (phase : Phase) {path : String} (hopen : a.store.stream.closed = false)
    (h : a.store.isSubscribed path = true) :
    ∃ late b, Reaches r ⟨phase, a, none⟩ ⟨phase, late, some b⟩ := by
  obtain ⟨full, values, late, hrun, hlate⟩ := Store.exists_waits hopen h
  have hfull : Reaches r ⟨phase, a, none⟩ ⟨phase, ⟨full, a.backing⟩, none⟩ := by
    refine hrun.lift (fun s => (⟨phase, ⟨s, a.backing⟩, none⟩ : Intake)) ?_
    rintro s s' ⟨byClient, values, n, hw⟩
    exact .wrote rfl hw
  have hwaiting := Step.stuck (r := r) (t := ⟨phase, ⟨full, a.backing⟩, none⟩) rfl hlate
  rw [(Store.written_of_write hlate).commit] at hwaiting
  exact ⟨_, _, hfull.tail hwaiting⟩

theorem standstill_of_subscribed {phase : Phase} {path : String}
    (hreach : Reaches r t ⟨phase, a, none⟩) (hneeds : phase.needsStore = true)
    (hopen : a.store.stream.closed = false) (h : a.store.isSubscribed path = true) :
    ∃ t', Reaches r t t' ∧ t'.Standstill := by
  obtain ⟨late, b, hwaiting⟩ := reaches_waiting (r := r) phase hopen h
  exact ⟨_, hreach.trans hwaiting, rfl, hneeds⟩

theorem standstill_of_paths (hopen : a.store.stream.closed = false)
    (hc : r.conflict? (SignalSource.paths a) = none) (hpaths : SignalSource.paths a ≠ []) :
    ∃ t, Reaches r (start a) t ∧ t.Standstill := by
  obtain ⟨flags, subscribed, -, hs, hreading⟩ := reaches_reading hc
  obtain ⟨store, hstore, rfl⟩ := Adapter.subscribe_eq_ok hs
  have hsub : (a.store.withTaken true).subscribe a.store.paths = .ok store := hstore
  obtain ⟨path, hpath⟩ := List.exists_mem_of_ne_nil _ hpaths
  obtain ⟨signal, hsignal⟩ := Table.exists_of_mem_keys hpath
  have hstill : store.stream.closed = false := by
    rw [(Store.setSubscribed_eq_ok hsub).2.1]
    exact hopen
  have hsubscribed : store.isSubscribed path = true := by
    refine store.isSubscribed_iff.mpr ⟨{ signal with subscribed := true }, ?_, rfl⟩
    rw [Registry.subscribe_paths hsub]
    exact congrArg _ hsignal
  exact standstill_of_subscribed hreading rfl hstill hsubscribed

theorem Underway.origin (h : Underway r a t) (hstill : t.Standstill) :
    (∃ path, a.store.isSubscribed path = true) ∨
      (r.conflict? (SignalSource.paths a) = none ∧ SignalSource.paths a ≠ []) := by
  obtain ⟨path, hpath⟩ := h.unread.heard hstill.1
  cases hs : t.phase.hasSubscribed with
  | false => exact .inl ⟨path, (h.before hs path).symm.trans hpath⟩
  | true =>
    refine .inr ⟨h.fits.conflict?_eq_none hs hstill.isEnded, ?_⟩
    obtain ⟨signal, hsignal, -⟩ := (Store.isSubscribed_iff _).mp hpath
    have hlisted : path ∈ t.source.store.paths := Table.mem_keys_of_find? hsignal
    rw [h.unread.paths] at hlisted
    exact List.ne_nil_of_mem hlisted

theorem Underway.reading (h : Underway r a t) (hstill : t.Standstill)
    (hquiet : ∀ path, a.store.isSubscribed path = false) :
    ∃ flags, t.phase = .reading (SignalSource.paths a) flags true := by
  obtain ⟨path, hpath⟩ := h.unread.heard hstill.1
  have hsubscribed : t.phase.hasSubscribed = true := by
    by_contra hbefore
    have hsame := h.before (Bool.eq_false_iff.mpr hbefore) path
    rw [hpath, hquiet path] at hsame
    cases hsame
  obtain ⟨-, hneeds⟩ := hstill
  have hfits := h.fits
  cases hs : t.phase with
  | reading paths flags given =>
    rw [hs] at hfits
    obtain ⟨rfl, -, rfl⟩ := hfits
    exact ⟨flags, rfl⟩
  | entering => simp [hs, Phase.needsStore] at hneeds
  | starting => simp [hs, Phase.needsStore] at hneeds
  | ended => simp [hs, Phase.needsStore] at hneeds
  | _ => simp [hs, Phase.hasSubscribed] at hsubscribed

/-- Whatever the capacity of its stream, the registration of an adapter with free paths can come to a
standstill, and so can any if something was subscribed before. There is no way out of it, and the
registration gets on in all other states. -/
theorem standstill_iff (hopen : a.store.stream.closed = false)
    (hfree : a.store.stream.taken = false) :
    ((∃ t, Reaches r (start a) t ∧ t.Standstill) ↔
      (∃ path, a.store.isSubscribed path = true) ∨
        (r.conflict? (SignalSource.paths a) = none ∧ SignalSource.paths a ≠ [])) ∧
    (∀ t, Reaches r (start a) t → t.phase.isEnded = false →
      (t.Standstill ↔ ¬ ∃ t', Step r t t')) ∧
    ∀ t, Reaches r (start a) t → t.Standstill →
      a.store.stream.capacity + a.store.seq < t.source.store.seq + a.store.stream.queue.length ∧
      ((∀ path, a.store.isSubscribed path = false) →
        ∃ flags, t.phase = .reading (SignalSource.paths a) flags true) := by
  have hunderway : ∀ t, Reaches r (start a) t → t.Standstill → Underway r a t :=
    fun t h hstill => underway_of_reaches hopen hfree h hstill.isEnded
  refine ⟨⟨?_, ?_⟩, ?_, ?_⟩
  · rintro ⟨t, h, hstill⟩
    exact (hunderway t h hstill).origin hstill
  · have hlisting : Reaches r (start a) ⟨.listing, a, none⟩ := .refl
    rintro (⟨path, hpath⟩ | ⟨hc, hpaths⟩)
    · exact standstill_of_subscribed hlisting rfl hopen hpath
    · exact standstill_of_paths hopen hc hpaths
  · intro t h hgoing
    exact (underway_of_reaches hopen hfree h hgoing).standstill_iff_halted hgoing
  · intro t h hstill
    have hu := hunderway t h hstill
    exact ⟨hu.unread.lt_seq hstill.1, hu.reading hstill⟩

def tiny : Adapter :=
  { store :=
      { name := "tiny"
        signals := .ofList [("Signal.Speed", ⟨⟨.number (.natural 0), false, false⟩, false⟩)]
        seq := 0
        stream := .ofCapacity 1 }
    backing := .memory }

theorem standstill_iff_tiny : tiny.store.stream.closed = false ∧ tiny.store.stream.taken = false ∧
    (∃ t, Reaches .empty (start tiny) t ∧ t.Standstill) ∧
    ∀ t, Reaches .empty (start tiny) t → t.Standstill → 1 < t.source.store.seq ∧
      ∃ flags, t.phase = .reading ["Signal.Speed"] flags true := by
  obtain ⟨hreached, -, hwhere⟩ := standstill_iff (r := .empty) (a := tiny) rfl rfl
  refine ⟨rfl, rfl, hreached.mpr (.inr ⟨rfl, nofun⟩), ?_⟩
  intro t h hstill
  obtain ⟨hseq, hreading⟩ := hwhere t h hstill
  have hquiet : ∀ path, tiny.store.isSubscribed path = false := by
    intro path
    by_cases hpath : path = "Signal.Speed"
    · rw [hpath]
      rfl
    · simp [Store.isSubscribed, tiny, Table.ofList, hpath]
  exact ⟨hseq, hreading hquiet⟩

/-- Two writers come between the subscription and the reading of the values. The first one fills the
stream, the second one waits, and so does the registration. -/
theorem standstill_tiny : ∃ t, Reaches .empty (start tiny) t ∧ t.Standstill ∧
    t.phase = .reading ["Signal.Speed"] [⟨"Signal.Speed", false, false⟩] true ∧
    t.source.store.stream.queue.length = 1 ∧ t.source.store.seq = 2 := by
  have hlisted : Reaches .empty (start tiny) ⟨.comparing ["Signal.Speed"], tiny, none⟩ :=
    reaches_of_proceed rfl rfl
  have hcompared := hlisted.trans (reaches_of_proceed rfl rfl)
  have hpublic := hcompared.trans (reaches_of_proceed rfl rfl)
  have hlocked := hpublic.trans (reaches_of_proceed rfl rfl)
  have hflagged := hlocked.trans (reaches_of_proceed rfl rfl)
  have htaken := hflagged.trans (reaches_of_proceed rfl rfl)
  have hsubscribed := htaken.trans (reaches_of_proceed rfl rfl)
  have hfilled := hsubscribed.tail
    (@Step.wrote _ _ false (.ofList [("Signal.Speed", .number (.natural 1))]) _ _ rfl rfl)
  have hwaiting := hfilled.tail
    (@Step.stuck _ _ false (.ofList [("Signal.Speed", .number (.natural 2))]) _ rfl rfl)
  exact ⟨_, hwaiting, ⟨rfl, rfl⟩, rfl, rfl, rfl⟩

end Intake

end SignalBroker
