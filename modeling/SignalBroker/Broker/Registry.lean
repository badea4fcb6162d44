import SignalBroker.Adapter.Basic
import SignalBroker.Broker.Rights
import SignalBroker.Broker.Timer
import SignalBroker.Broker.Write

/-!
The registry: every path of the registered sources, each with the value last heard of. A path belongs
to one source. Changes carry the sequence number that the source gave them, and an entry only moves
forward: a change older than the last one applied to a path is ignored.
-/

namespace SignalBroker

/-- What is known of a path. Before its source has told a value the entry is not initialized. -/
structure Entry where
  value : SignalValue
  isPublic : Bool
  isReadOnly : Bool
  initialized : Bool
  /-- The place of the owner among the registered sources. -/
  owner : Nat
  /-- The sequence number of the last change applied. -/
  seq : Nat

namespace Entry

def heeds (e : Entry) (owner seq : Nat) : Bool :=
  e.owner == owner && e.seq ≤ seq

def differs (e : Entry) (value : SignalValue) : Bool :=
  !(e.initialized && e.value == value)

def advance (e : Entry) (seq : Nat) (value : SignalValue) : Entry :=
  if e.differs value then { e with seq, value, initialized := true } else { e with seq }

end Entry

structure PathFlags where
  path : String
  isPublic : Bool
  isReadOnly : Bool

/-- A registered source. If it is fed, its change stream is drained into the registry. -/
structure Member (σ : Type) where
  source : σ
  fed : Bool

/-- The timers are those of the members that work by themselves, in the order in which they were
set. -/
structure Registry (σ : Type) where
  entries : Table String Entry
  members : List (Member σ)
  timers : List Timer
  stopped : Bool

/-- How a registration ended. A source that is refused is given back. -/
inductive Registration (σ : Type) where
  | accepted (registry : Registry σ)
  | refused (e : BrokerError) (source : σ)

structure Target where
  value : SignalValue
  owner : Nat
  isReadOnly : Bool

namespace Registry

variable {σ : Type}

def empty : Registry σ := ⟨.empty, [], [], false⟩

instance : Inhabited (Registry σ) := ⟨empty⟩

def size (r : Registry σ) : Nat := r.entries.size

def isEmpty (r : Registry σ) : Bool := r.entries.isEmpty

def paths (r : Registry σ) : List String := r.entries.keys

def entry? (r : Registry σ) (path : String) : Option Entry := r.entries.find? path

section Registration

variable [SignalSource σ]

def names (r : Registry σ) : List String :=
  r.members.map fun m => SignalSource.name m.source

def nameOf (r : Registry σ) (owner : Nat) : String :=
  ((r.members[owner]?).map fun m => SignalSource.name m.source).getD ""

def conflict? (r : Registry σ) (paths : List String) : Option BrokerError :=
  paths.findSome? fun path =>
    (r.entries.find? path).map fun e => .duplicatePath path (r.nameOf e.owner)

def readFlags (source : σ) (paths : List String) : Except AdapterError (List PathFlags) :=
  paths.mapM fun path => do
    let isPublic ← SignalSource.isPublic source path
    let isReadOnly ← SignalSource.isReadOnly source path
    return ⟨path, isPublic, isReadOnly⟩

/-- The first entry of a path. Without a value from the source it is not initialized. -/
def firstEntry (flags : PathFlags) (owner : Nat) (value : Option SignalValue) : Entry :=
  ⟨value.getD .null, flags.isPublic, flags.isReadOnly, value.isSome, owner, 0⟩

def enroll (r : Registry σ) (flags : List PathFlags) (values : Values) (member : Member σ)
    (timer : Option Timer) : Registry σ :=
  { r with
    entries := flags.foldl (fun entries f =>
      entries.insert f.path (firstEntry f r.members.length (values.find? f.path))) r.entries
    members := r.members ++ [member]
    timers := r.timers ++ timer.toList }

/-- The member that a source becomes. In a registry that was stopped its stream is closed at once. -/
def memberOf (r : Registry σ) (source : σ) (given : Bool) : Member σ :=
  if r.stopped then ⟨if given then SignalSource.closeStream source else source, false⟩
  else ⟨source, given⟩

/-- The first timer of a source that becomes the next member, if it works by itself. In a registry that
was stopped it does not. -/
def timerOf (r : Registry σ) (source : σ) : Option Timer :=
  if r.stopped then none
  else (SignalSource.period source).map fun ms => ⟨r.members.length, ms⟩

/-- Take over a source with all of its paths, or refuse it without changing anything. The paths are
subscribed before they are read, so that no change falls between the two. A source that cannot be
read is registered without values. -/
def register (r : Registry σ) (source : σ) : Registration σ :=
  let paths := SignalSource.paths source
  match r.conflict? paths with
  | some e => .refused e source
  | none =>
    match readFlags source paths with
    | .error e => .refused (.ofAdapter e) source
    | .ok flags =>
      let (given, source) := SignalSource.takeStream source
      match SignalSource.subscribe source paths with
      | .error e =>
        .refused (.ofAdapter e) (if given then SignalSource.closeStream source else source)
      | .ok source =>
        let values := match SignalSource.get source paths with
          | .ok values => values
          | .error _ => Table.empty
        .accepted (r.enroll flags values (r.memberOf source given) (r.timerOf source))

end Registration

def news (r : Registry σ) (owner seq : Nat) (values : Values) : Values :=
  values.filter fun path value =>
    match r.entries.find? path with
    | some e => e.heeds owner seq && e.differs value
    | none => false

/-- Apply changes of a source. Paths that are not registered, or belong to another source, are
skipped. -/
def apply (r : Registry σ) (owner seq : Nat) (values : Values) : Registry σ :=
  { r with entries := r.entries.map fun path e =>
      match values.find? path with
      | some value => if e.heeds owner seq then e.advance seq value else e
      | none => e }

/-- The entries whose paths a pattern matches. A pattern without wildcards matches its own text
only. -/
def matching (r : Registry σ) (p : Pattern) : Table String Entry :=
  if p.isLiteral then
    match r.entries.find? p.text with
    | some e => Table.empty.insert p.text e
    | none => .empty
  else r.entries.filter fun path _ => p.matches path

def visible (r : Registry σ) (p : Pattern) (rights : Rights) : Table String Entry :=
  (r.matching p).filter fun path e => rights.canRead path e.isPublic

def readable (r : Registry σ) (p : Pattern) (rights : Rights) :
    Except BrokerError (Table String Entry) :=
  if (r.matching p).isEmpty then .error (.pathNotFound p.text)
  else if (r.visible p rights).isEmpty then .error (rights.denial p.text)
  else .ok (r.visible p rights)

def compile (pattern : String) : Except BrokerError Pattern :=
  (Pattern.ofText pattern).mapError .invalidPattern

def get (r : Registry σ) (pattern : String) (rights : Rights) : Except BrokerError Values := do
  let p ← compile pattern
  let entries ← r.readable p rights
  return entries.map fun _ e => e.value

def readablePaths (r : Registry σ) (pattern : String) (rights : Rights) :
    Except BrokerError (Pattern × List String) := do
  let p ← compile pattern
  let entries ← r.readable p rights
  return (p, entries.keys)

def visiblePaths (r : Registry σ) (p : Pattern) (rights : Rights) : List String :=
  (r.visible p rights).keys

def targetOf (e : Entry) (value : SignalValue) : Target :=
  ⟨value, e.owner, e.isReadOnly⟩

def assign (targets : Table String Target) (entries : List (String × Entry)) (value : SignalValue) :
    Table String Target :=
  entries.foldl (fun targets row => targets.insert row.1 (targetOf row.2 value)) targets

/-- Give the values of suffixes to the entries whose paths end with them. Every suffix has to end
some path, and a later suffix wins over an earlier one. -/
def assignSuffixes (entries : List (String × Entry)) (targets : Table String Target) :
    List (String × SignalValue) → Except BrokerError (Table String Target)
  | [] => .ok targets
  | (suffix, value) :: rest =>
    let hits := entries.filter fun row => Path.endsWith row.1 suffix
    if hits.isEmpty then .error (.pathNotFound suffix)
    else assignSuffixes entries (assign targets hits value) rest

def resolveTargets (entries : List (String × Entry)) :
    WriteRequest → Except BrokerError (Table String Target)
  | .broadcast value => .ok (assign .empty entries value)
  | .suffixes pairs => assignSuffixes entries .empty pairs

/-- A read-only target refuses the whole write, and so does one that may not be written. -/
def checkTargets (rights : Rights) (targets : Table String Target) : Except BrokerError Unit :=
  match targets.toList.find? fun row => row.2.isReadOnly with
  | some (path, _) => .error (.readOnlyViolation path)
  | none => targets.keys.forM rights.checkWrite

def targets (r : Registry σ) (pattern : String) (request : WriteRequest) (rights : Rights) :
    Except BrokerError (Table String Target) := do
  let p ← compile pattern
  let entries := r.matching p
  if entries.isEmpty then throw (.pathNotFound pattern)
  let targets ← resolveTargets entries.toList request
  checkTargets rights targets
  return targets

def groups (targets : Table String Target) : Table Nat Values :=
  targets.toList.foldl (fun groups row =>
    groups.insert row.2.owner
      (((groups.find? row.2.owner).getD .empty).insert row.1 row.2.value)) .empty

def setSource (r : Registry σ) (owner : Nat) (source : σ) : Registry σ :=
  { r with members := r.members.modify owner fun m => { m with source } }

end Registry

end SignalBroker
