import SignalBroker.Signal.Value

namespace SignalBroker

structure Batch where
  seq : Nat
  values : Values

structure ChangeStream where
  capacity : Nat
  queue : List Batch
  taken : Bool
  closed : Bool

namespace ChangeStream

def defaultCapacity : Nat := 100

/-- An empty stream. Room for one batch is the least. -/
def ofCapacity (capacity : Nat) : ChangeStream :=
  ⟨max capacity 1, [], false, false⟩

def hasRoom (s : ChangeStream) : Bool :=
  s.closed || s.queue.length < s.capacity

/-- The stream with one more batch, or nothing if the writer has to wait. Once the receiving end has gone,
every batch is taken and none is kept. -/
def offer (s : ChangeStream) (b : Batch) : Option ChangeStream :=
  if s.closed then some s
  else if s.queue.length < s.capacity then some { s with queue := s.queue ++ [b] }
  else none

def pop (s : ChangeStream) : Option (Batch × ChangeStream) :=
  match s.queue with
  | [] => none
  | b :: rest => some (b, { s with queue := rest })

/-- Hand out the receiving end; only the first to ask gets it. -/
def take (s : ChangeStream) : Bool × ChangeStream :=
  (!s.taken, { s with taken := true })

/-- The receiving end goes away, and the batches in the stream with it. -/
def close (s : ChangeStream) : ChangeStream :=
  { s with closed := true, queue := [] }

theorem offer_isSome_iff (s : ChangeStream) (b : Batch) :
    (s.offer b).isSome = s.hasRoom := by
  unfold offer hasRoom
  cases s.closed <;> simp
  split <;> simp [*]

theorem queue_offer {s t : ChangeStream} {b : Batch} (hopen : s.closed = false)
    (h : s.offer b = some t) : t.queue = s.queue ++ [b] := by
  simp only [offer, hopen, Bool.false_eq_true, if_false] at h
  split at h
  · cases h; rfl
  · cases h

end ChangeStream

end SignalBroker
