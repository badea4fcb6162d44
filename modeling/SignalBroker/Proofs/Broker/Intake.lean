import Mathlib.Logic.Relation
import SignalBroker.Proofs.Broker.Partition

namespace SignalBroker

inductive Phase where
  | listing
  | comparing (paths : List String)
  /-- One flag of one path at a time: the paths that are left, and the public flag of the first of
  them once it is read. -/
  | flagging (paths : List String) (read : List PathFlags) (left : List String)
    (isPublic : Option Bool)
  | taking (paths : List String) (flags : List PathFlags)
  /-- From here on it is known whether the receiving end of the stream was given. -/
  | subscribing (paths : List String) (flags : List PathFlags) (given : Bool)
  | reading (paths : List String) (flags : List PathFlags) (given : Bool)
  | entering (flags : List PathFlags) (values : Values) (given : Bool)
  /-- The entries are there, and nobody drains the stream yet. -/
  | starting (flags : List PathFlags) (values : Values) (given : Bool)
  | ended (outcome : Registration Adapter)

namespace Phase

def needsStore : Phase → Bool
  | listing => true
  | flagging _ _ left _ => !left.isEmpty
  | subscribing .. => true
  | reading .. => true
  | _ => false

def isEnded : Phase → Bool
  | ended _ => true
  | _ => false

def hasSubscribed : Phase → Bool
  | reading .. => true
  | entering .. => true
  | starting .. => true
  | ended _ => true
  | _ => false

def proceed (r : Registry Adapter) (a : Adapter) : Phase → Phase × Adapter
  | listing => (comparing (SignalSource.paths a), a)
  | comparing paths =>
    match r.conflict? paths with
    | some e => (ended (.refused e a), a)
    | none => (flagging paths [] paths none, a)
  | flagging paths read [] _ => (taking paths read, a)
  | flagging paths read (path :: left) none =>
    match SignalSource.isPublic a path with
    | .error e => (ended (.refused (.ofAdapter e) a), a)
    | .ok isPublic => (flagging paths read (path :: left) (some isPublic), a)
  | flagging paths read (path :: left) (some isPublic) =>
    match SignalSource.isReadOnly a path with
    | .error e => (ended (.refused (.ofAdapter e) a), a)
    | .ok isReadOnly => (flagging paths (read ++ [⟨path, isPublic, isReadOnly⟩]) left none, a)
  | taking paths flags =>
    let (given, a) := SignalSource.takeStream a
    (subscribing paths flags given, a)
  | subscribing paths flags given =>
    match SignalSource.subscribe a paths with
    | .error e =>
      let a := if given then SignalSource.closeStream a else a
      (ended (.refused (.ofAdapter e) a), a)
    | .ok a => (reading paths flags given, a)
  | reading paths flags given => (entering flags (Registry.firstValues a paths) given, a)
  | entering flags values given => (starting flags values given, a)
  | starting flags values given =>
    let m := r.memberOf a given
    (ended (.accepted (r.enroll flags values m (r.timerOf a))), m.source)
  | ended outcome => (ended outcome, a)

end Phase

/-- A registration, its source as it is by now, and the batch of a writer that waits. -/
structure Intake where
  phase : Phase
  source : Adapter
  waiting : Option Batch

namespace Intake

def start (a : Adapter) : Intake := ⟨.listing, a, none⟩

/-- One step of a writer, of the registration, or of the feed that a registration starts. -/
inductive Step (r : Registry Adapter) : Intake → Intake → Prop where
  | wrote {t : Intake} {byClient values s n} (hidle : t.waiting = none)
    (hw : t.source.store.write byClient values = .ok (s, .landed n)) :
    Step r t { t with source := ⟨s, t.source.backing⟩ }
  | stuck {t : Intake} {byClient values s} (hidle : t.waiting = none)
    (hw : t.source.store.write byClient values = .ok (s, .waiting)) :
    Step r t { t with
      source := ⟨s, t.source.backing⟩, waiting := (t.source.store.commit values).2 }
  | resumed {t : Intake} {b stream} (hb : t.waiting = some b)
    (ho : t.source.store.stream.offer b = some stream) :
    Step r t { t with source := t.source.withStream stream, waiting := none }
  | proceeded {t : Intake} (hgoing : t.phase.isEnded = false)
    (hlock : t.phase.needsStore = true → t.waiting = none) :
    Step r t { t with
      phase := (t.phase.proceed r t.source).1, source := (t.phase.proceed r t.source).2 }
  | fed {t : Intake} {r' b a} (hended : t.phase = .ended (.accepted r'))
    (hfed : r'.members.getLast?.any (·.fed) = true)
    (hp : SignalSource.receive t.source = some (b, a)) : Step r t { t with source := a }

abbrev Reaches (r : Registry Adapter) : Intake → Intake → Prop := Relation.ReflTransGen (Step r)

variable {r : Registry Adapter} {a : Adapter}

theorem reaches_of_proceed {phase next : Phase} {a' : Adapter} (hgoing : phase.isEnded = false)
    (h : phase.proceed r a = (next, a')) : Reaches r ⟨phase, a, none⟩ ⟨next, a', none⟩ := by
  have hstep : Step r ⟨phase, a, none⟩ _ := .proceeded hgoing fun _ => rfl
  simp only [h] at hstep
  exact .single hstep

theorem reaches_flags (paths : List String) {left : List String} {flags : List PathFlags}
    (h : Registry.readFlags a left = .ok flags) (read : List PathFlags) :
    Reaches r ⟨.flagging paths read left none, a, none⟩
      ⟨.flagging paths (read ++ flags) [] none, a, none⟩ := by
  have hall := mapM_eq_ok_iff.mp h
  clear h
  induction hall generalizing read with
  | nil =>
    rw [List.append_nil]
  | @cons path f left flags hf _ ih =>
    obtain ⟨isPublic, hp, hf⟩ := bind_eq_ok_iff.mp hf
    obtain ⟨isReadOnly, hr, hf⟩ := bind_eq_ok_iff.mp hf
    cases hf
    have hfirst : Reaches r ⟨.flagging paths read (path :: left) none, a, none⟩
        ⟨.flagging paths read (path :: left) (some isPublic), a, none⟩ :=
      reaches_of_proceed rfl (by simp only [Phase.proceed, hp])
    have hsecond : Reaches r ⟨.flagging paths read (path :: left) (some isPublic), a, none⟩
        ⟨.flagging paths (read ++ [⟨path, isPublic, isReadOnly⟩]) left none, a, none⟩ :=
      reaches_of_proceed rfl (by simp only [Phase.proceed, hr])
    have hrest := ih (read ++ [⟨path, isPublic, isReadOnly⟩])
    rw [List.append_assoc] at hrest
    exact (hfirst.trans hsecond).trans hrest

theorem reaches_reading (hc : r.conflict? (SignalSource.paths a) = none) :
    ∃ flags subscribed, Registry.readFlags a (SignalSource.paths a) = .ok flags ∧
      SignalSource.subscribe (SignalSource.takeStream a).2 (SignalSource.paths a) = .ok subscribed ∧
      Reaches r (start a)
        ⟨.reading (SignalSource.paths a) flags (SignalSource.takeStream a).1, subscribed, none⟩ := by
  obtain ⟨flags, hf⟩ := Registry.exists_readFlags a
  obtain ⟨store, hs⟩ := (a.store.withTaken true).exists_subscribe_paths
  have hsub : SignalSource.subscribe (SignalSource.takeStream a).2 (SignalSource.paths a) =
      .ok { (SignalSource.takeStream a).2 with store } := bind_eq_ok_iff.mpr ⟨store, hs, rfl⟩
  refine ⟨flags, _, hf, hsub, ?_⟩
  have hlisted : Reaches r (start a) ⟨.comparing (SignalSource.paths a), a, none⟩ :=
    reaches_of_proceed rfl rfl
  have hcompared : Reaches r ⟨.comparing (SignalSource.paths a), a, none⟩
      ⟨.flagging (SignalSource.paths a) [] (SignalSource.paths a) none, a, none⟩ :=
    reaches_of_proceed rfl (by simp only [Phase.proceed, hc])
  have hflagged := (hlisted.trans hcompared).trans (reaches_flags _ hf [])
  have hread : Reaches r _ ⟨.taking (SignalSource.paths a) flags, a, none⟩ :=
    hflagged.trans (reaches_of_proceed rfl rfl)
  have htaken : Reaches r _ ⟨.subscribing (SignalSource.paths a) flags
      (SignalSource.takeStream a).1, (SignalSource.takeStream a).2, none⟩ :=
    hread.trans (reaches_of_proceed rfl rfl)
  exact htaken.trans (reaches_of_proceed rfl (by simp only [Phase.proceed, hsub]))

/-- A registration that nobody writes beside comes to what it is when it is taken as one step. -/
theorem reaches_register (r : Registry Adapter) (a : Adapter) :
    ∃ late, Reaches r (start a) ⟨.ended (r.register a), late, none⟩ := by
  cases hc : r.conflict? (SignalSource.paths a) with
  | some e =>
    have hrefused : r.register a = .refused e a := by simp only [Registry.register, hc]
    have hlisted : Reaches r (start a) ⟨.comparing (SignalSource.paths a), a, none⟩ :=
      reaches_of_proceed rfl rfl
    rw [hrefused]
    exact ⟨a, hlisted.trans (reaches_of_proceed rfl (by simp only [Phase.proceed, hc]))⟩
  | none =>
    obtain ⟨flags, subscribed, hf, hsub, hreading⟩ := reaches_reading hc
    have haccepted : r.register a = .accepted (r.enroll flags
        (Registry.firstValues subscribed (SignalSource.paths a))
        (r.memberOf subscribed (SignalSource.takeStream a).1) (r.timerOf subscribed)) := by
      simp only [Registry.register, hc, hf, hsub]
      rfl
    rw [haccepted]
    have hentering := hreading.trans (reaches_of_proceed rfl rfl)
    have hstarting := hentering.trans (reaches_of_proceed rfl rfl)
    exact ⟨_, hstarting.trans (reaches_of_proceed rfl rfl)⟩

end Intake

end SignalBroker
