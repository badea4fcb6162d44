import Mathlib.Logic.Relation
import SignalBroker.Adapter.Basic
import SignalBroker.Proofs.Files.Writing
import SignalBroker.Proofs.Broker.Adapters

namespace SignalBroker

namespace Upkeep

inductive Stage where
  /-- The values are in the store, and the writer keeps the store until there is room for the batch. -/
  | waiting (b : Batch)
  | landed (n : Nat)
  /-- From here on the writer keeps the document. -/
  | holding (n : Nat)
  | rendered (n : Nat) (content : String)
  | rewritten (n : Nat)
  | ended (result : Except AdapterError Nat)

namespace Stage

def isWaiting : Stage → Bool
  | waiting _ => true
  | _ => false

def owes : Stage → Bool
  | waiting _ => true
  | landed _ => true
  | holding _ => true
  | _ => false

def keeps : Stage → Bool
  | holding _ => true
  | rendered _ _ => true
  | rewritten _ => true
  | _ => false

def isEnded : Stage → Bool
  | ended _ => true
  | _ => false

def hasRewritten : Stage → Bool
  | rewritten _ => true
  | ended (.ok _) => true
  | _ => false

theorem not_owes_of_isEnded (stage : Stage) (h : stage.isEnded = true) : stage.owes = false := by
  cases stage with
  | ended result => rfl
  | _ => cases h

end Stage

structure Call where
  values : Values
  stage : Stage

inductive Answer where
  | pending (b : Batch)
  | told (result : Except AdapterError Nat)

def Stage.answer : Stage → Answer
  | waiting b => .pending b
  | landed n => .told (.ok n)
  | holding n => .told (.ok n)
  | rendered n _ => .told (.ok n)
  | rewritten n => .told (.ok n)
  | ended result => .told result

/-- What can become of a store with no document behind it: the writes so far with their answers, in the
order in which they were committed, and the batches that have been received. -/
inductive Plain (first : Store) : List (Values × Answer) → List Batch → Store → Prop where
  | start : Plain first [] [] first
  | refused {writes bs s values e} (h : Plain first writes bs s)
    (hidle : ∀ w ∈ writes, ∀ b, w.2 ≠ .pending b) (hw : s.set values = .error e) :
    Plain first (writes ++ [(values, .told (.error e))]) bs s
  | landed {writes bs s values s' n} (h : Plain first writes bs s)
    (hidle : ∀ w ∈ writes, ∀ b, w.2 ≠ .pending b) (hw : s.set values = .ok (s', .landed n)) :
    Plain first (writes ++ [(values, .told (.ok n))]) bs s'
  | stuck {writes bs s values s' b} (h : Plain first writes bs s)
    (hidle : ∀ w ∈ writes, ∀ b, w.2 ≠ .pending b) (hw : s.set values = .ok (s', .waiting))
    (hb : (s.commit values).2 = some b) : Plain first (writes ++ [(values, .pending b)]) bs s'
  | resumed {before values b after bs s stream}
    (h : Plain first (before ++ (values, .pending b) :: after) bs s)
    (ho : s.stream.offer b = some stream) :
    Plain first (before ++ (values, .told (.ok s.seq)) :: after) bs { s with stream }
  | received {writes bs s b stream} (h : Plain first writes bs s)
    (hp : s.stream.pop = some (b, stream)) : Plain first writes (bs ++ [b]) { s with stream }

end Upkeep

open Upkeep

/-- A store with its document and all writes so far, in the order in which they were committed. The
last rewriting of the document worked or did not. -/
structure Upkeep where
  store : Store
  files : Files
  calls : List Call
  received : List Batch
  rewriting : Option Bool

namespace Upkeep

def start (store : Store) (files : Files) : Upkeep := ⟨store, files, [], [], none⟩

def Idle (u : Upkeep) : Prop := ∀ c ∈ u.calls, c.stage.isWaiting = false

def Free (u : Upkeep) : Prop := ∀ c ∈ u.calls, c.stage.keeps = false

/-- One step of one of the writers or of the receiver, or of others at other files. A rewriting that
does not work may leave the files in any state. -/
inductive Step (source : DocumentSource) : Upkeep → Upkeep → Prop where
  | refused {u : Upkeep} {values e} (hidle : u.Idle) (hw : u.store.set values = .error e) :
    Step source u { u with calls := u.calls ++ [⟨values, .ended (.error e)⟩] }
  | landed {u : Upkeep} {values s n} (hidle : u.Idle)
    (hw : u.store.set values = .ok (s, .landed n)) :
    Step source u { u with store := s, calls := u.calls ++ [⟨values, .landed n⟩] }
  | stuck {u : Upkeep} {values s b} (hidle : u.Idle)
    (hw : u.store.set values = .ok (s, .waiting)) (hb : (u.store.commit values).2 = some b) :
    Step source u { u with store := s, calls := u.calls ++ [⟨values, .waiting b⟩] }
  | resumed {u : Upkeep} {before values b after stream}
    (hc : u.calls = before ++ ⟨values, .waiting b⟩ :: after)
    (ho : u.store.stream.offer b = some stream) :
    Step source u { u with
      store := { u.store with stream }
      calls := before ++ ⟨values, .landed u.store.seq⟩ :: after }
  | acquired {u : Upkeep} {before values n after}
    (hc : u.calls = before ++ ⟨values, .landed n⟩ :: after) (hfree : u.Free) :
    Step source u { u with calls := before ++ ⟨values, .holding n⟩ :: after }
  | rendered {u : Upkeep} {before values n after}
    (hc : u.calls = before ++ ⟨values, .holding n⟩ :: after) (hidle : u.Idle) :
    Step source u { u with
      calls := before ++ ⟨values, .rendered n (source.render u.store)⟩ :: after }
  | rewrote {u : Upkeep} {before values n content after files}
    (hc : u.calls = before ++ ⟨values, .rendered n content⟩ :: after)
    (hw : u.files.write source.settings.file content = .ok files) :
    Step source u { u with
      files, calls := before ++ ⟨values, .rewritten n⟩ :: after, rewriting := some true }
  | failed {u : Upkeep} {before values n content after}
    (hc : u.calls = before ++ ⟨values, .rendered n content⟩ :: after) (files : Files) :
    Step source u { u with
      files, calls := before ++ ⟨values, .rewritten n⟩ :: after, rewriting := some false }
  | released {u : Upkeep} {before values n after}
    (hc : u.calls = before ++ ⟨values, .rewritten n⟩ :: after) :
    Step source u { u with calls := before ++ ⟨values, .ended (.ok n)⟩ :: after }
  | received {u : Upkeep} {b stream} (hp : u.store.stream.pop = some (b, stream)) :
    Step source u { u with store := { u.store with stream }, received := u.received ++ [b] }
  | elsewhere {u : Upkeep} {files : Files}
    (hsame : files.read source.settings.file = u.files.read source.settings.file) :
    Step source u { u with files }

abbrev Reaches (source : DocumentSource) : Upkeep → Upkeep → Prop :=
  Relation.ReflTransGen (Step source)

def answers (calls : List Call) : List (Values × Answer) :=
  calls.map fun c => (c.values, c.stage.answer)

variable {source : DocumentSource} {first : Store} {u u' : Upkeep} {before after : List Call}
  {values : Values} {stage stage' : Stage}

theorem not_pending_of_idle (h : u.Idle) : ∀ w ∈ answers u.calls, ∀ b, w.2 ≠ .pending b := by
  intro w hw b hb
  obtain ⟨c, hc, rfl⟩ := List.mem_map.mp hw
  have hidle := h c hc
  cases hs : c.stage with
  | waiting b' => rw [hs] at hidle; cases hidle
  | _ => rw [hs] at hb; cases hb

theorem answers_append (calls : List Call) (c : Call) :
    answers (calls ++ [c]) = answers calls ++ [(c.values, c.stage.answer)] :=
  List.map_append

theorem answers_split (c : Call) : answers (before ++ c :: after) =
    answers before ++ (c.values, c.stage.answer) :: answers after := by
  rw [answers, List.map_append, List.map_cons]
  rfl

/-- A step between two stages with the same answer does not show. -/
theorem plain_replaced {bs : List Batch} {s : Store} (h : Plain first (answers u.calls) bs s)
    (hc : u.calls = before ++ ⟨values, stage⟩ :: after) (hsame : stage'.answer = stage.answer) :
    Plain first (answers (before ++ ⟨values, stage'⟩ :: after)) bs s := by
  rw [hc, answers_split] at h
  rw [answers_split, hsame]
  exact h

theorem plain_step (h : Plain first (answers u.calls) u.received u.store) (hs : Step source u u') :
    Plain first (answers u'.calls) u'.received u'.store := by
  cases hs with
  | refused hidle hw =>
    rw [answers_append]
    exact .refused h (not_pending_of_idle hidle) hw
  | landed hidle hw =>
    rw [answers_append]
    exact .landed h (not_pending_of_idle hidle) hw
  | stuck hidle hw hb =>
    rw [answers_append]
    exact .stuck h (not_pending_of_idle hidle) hw hb
  | resumed hc ho =>
    rw [hc, answers_split] at h
    rw [answers_split]
    exact .resumed h ho
  | acquired hc => exact plain_replaced h hc rfl
  | rendered hc => exact plain_replaced h hc rfl
  | rewrote hc => exact plain_replaced h hc rfl
  | failed hc => exact plain_replaced h hc rfl
  | released hc => exact plain_replaced h hc rfl
  | received hp => exact .received h hp
  | elsewhere => exact h

theorem plain_of_reaches {files : Files} (h : Reaches source (start first files) u) :
    Plain first (answers u.calls) u.received u.store := by
  induction h with
  | refl => exact .start
  | tail _ hs ih => exact plain_step ih hs

def Owing (calls : List Call) : Prop := ∃ c ∈ calls, c.stage.owes = true

def Rendering (calls : List Call) : Prop := ∃ c ∈ calls, ∃ n content, c.stage = .rendered n content

/-- Whatever the document lacks of the store, somebody is still to write. -/
structure Kept (source : DocumentSource) (u : Upkeep) : Prop where
  keeper : u.calls.countP (·.stage.keeps) ≤ 1
  fresh : ∀ c ∈ u.calls, ∀ n content, c.stage = .rendered n content →
    content = source.render u.store ∨ Owing u.calls
  document : u.rewriting = some true →
    u.files.read source.settings.file = .ok (source.render u.store) ∨ Owing u.calls ∨
      Rendering u.calls
  tried : ∀ c ∈ u.calls, c.stage.hasRewritten = true → u.rewriting.isSome = true

theorem mem_replaced {c c' : Call} (h : c ∈ before ++ c' :: after) :
    c = c' ∨ c ∈ before ∨ c ∈ after := by
  simp only [List.mem_append, List.mem_cons] at h
  tauto

theorem mem_of_others {c c' : Call} (h : c ∈ before ∨ c ∈ after) : c ∈ before ++ c' :: after := by
  simp only [List.mem_append, List.mem_cons]
  tauto

/-- Nobody who owes stops to owe but by rendering. -/
theorem Owing.replaced (h : Owing u.calls) (hc : u.calls = before ++ ⟨values, stage⟩ :: after)
    (howes : stage.owes = true → stage'.owes = true) :
    Owing (before ++ ⟨values, stage'⟩ :: after) := by
  obtain ⟨c, hm, hs⟩ := h
  rw [hc] at hm
  obtain rfl | hm := mem_replaced hm
  · exact ⟨_, List.mem_append_right _ List.mem_cons_self, howes hs⟩
  · exact ⟨c, mem_of_others hm, hs⟩

theorem Rendering.replaced (h : Rendering u.calls)
    (hc : u.calls = before ++ ⟨values, stage⟩ :: after)
    (hnot : ∀ n content, stage ≠ .rendered n content) :
    Rendering (before ++ ⟨values, stage'⟩ :: after) := by
  obtain ⟨c, hm, n, content, hs⟩ := h
  rw [hc] at hm
  obtain rfl | hm := mem_replaced hm
  · exact absurd hs (hnot n content)
  · exact ⟨c, mem_of_others hm, n, content, hs⟩

theorem Owing.append (h : Owing u.calls) (c : Call) : Owing (u.calls ++ [c]) := by
  obtain ⟨c', hm, hs⟩ := h
  exact ⟨c', List.mem_append_left _ hm, hs⟩

theorem Rendering.append (h : Rendering u.calls) (c : Call) : Rendering (u.calls ++ [c]) := by
  obtain ⟨c', hm, hs⟩ := h
  exact ⟨c', List.mem_append_left _ hm, hs⟩

theorem countP_keeps_replaced (stage' : Stage) (hc : u.calls = before ++ ⟨values, stage⟩ :: after) :
    (before ++ ⟨values, stage'⟩ :: after).countP (·.stage.keeps) + stage.keeps.toNat =
      u.calls.countP (·.stage.keeps) + stage'.keeps.toNat := by
  rw [hc]
  simp only [List.countP_append, List.countP_cons]
  cases stage.keeps <;> cases stage'.keeps <;> simp <;> omega

theorem Kept.not_keeps (h : Kept source u) (hc : u.calls = before ++ ⟨values, stage⟩ :: after)
    (hk : stage.keeps = true) {c : Call} (hm : c ∈ before ∨ c ∈ after) : c.stage.keeps = false := by
  have hone := h.keeper
  rw [hc, List.countP_append, List.countP_cons] at hone
  simp only [hk, if_true] at hone
  have hbefore : before.countP (·.stage.keeps) = 0 := by omega
  have hafter : after.countP (·.stage.keeps) = 0 := by omega
  obtain hm | hm := hm
  · simpa using List.countP_eq_zero.mp hbefore c hm
  · simpa using List.countP_eq_zero.mp hafter c hm

theorem kept_start (store : Store) (files : Files) : Kept source (start store files) where
  keeper := Nat.zero_le _
  fresh := by rintro c ⟨⟩
  document := nofun
  tried := by rintro c ⟨⟩

theorem Kept.appended (h : Kept source u) {c : Call} (s : Store) (hk : c.stage.keeps = false)
    (hr : c.stage.hasRewritten = false) (hs : c.stage.owes = true ∨ s = u.store) :
    Kept source { u with store := s, calls := u.calls ++ [c] } where
  keeper := by
    rw [List.countP_append, List.countP_singleton, hk]
    exact h.keeper
  fresh c' hm n content hc' := by
    obtain hold | hnew := List.mem_append.mp hm
    · obtain howes | rfl := hs
      · exact .inr ⟨c, by simp, howes⟩
      · exact (h.fresh c' hold n content hc').imp_right (·.append c)
    · obtain rfl := List.mem_singleton.mp hnew
      rw [hc'] at hk
      cases hk
  document hlast := by
    obtain howes | rfl := hs
    · exact .inr (.inl ⟨c, by simp, howes⟩)
    · exact (h.document hlast).imp_right (Or.imp (·.append c) (·.append c))
  tried c' hm hc' := by
    obtain hm | hm := List.mem_append.mp hm
    · exact h.tried c' hm hc'
    · obtain rfl := List.mem_singleton.mp hm
      rw [hr] at hc'
      cases hc'

theorem Kept.replaced (h : Kept source u) (hc : u.calls = before ++ ⟨values, stage⟩ :: after)
    (stream : ChangeStream) (hkeeps : stage'.keeps = true → stage.keeps = true ∨ u.Free)
    (howes : stage.owes = true → stage'.owes = true)
    (hold : ∀ n content, stage ≠ .rendered n content)
    (hnew : ∀ n content, stage' ≠ .rendered n content)
    (hrewritten : stage'.hasRewritten = true → stage.hasRewritten = true) :
    Kept source { u with
      store := { u.store with stream }, calls := before ++ ⟨values, stage'⟩ :: after } where
  keeper := by
    have hcount := countP_keeps_replaced stage' hc
    have hone := h.keeper
    show (before ++ ⟨values, stage'⟩ :: after).countP (·.stage.keeps) ≤ 1
    cases hk' : stage'.keeps with
    | false =>
      rw [hk', Bool.toNat_false] at hcount
      omega
    | true =>
      rw [hk', Bool.toNat_true] at hcount
      obtain hk | hfree := hkeeps hk'
      · rw [hk, Bool.toNat_true] at hcount
        omega
      · have hnone : u.calls.countP (·.stage.keeps) = 0 :=
          List.countP_eq_zero.mpr fun c hm => by simp [hfree c hm]
        omega
  fresh c hm n content hs := by
    obtain rfl | hm := mem_replaced hm
    · exact absurd hs (hnew n content)
    · exact (h.fresh c (hc ▸ mem_of_others hm) n content hs).imp_right (·.replaced hc howes)
  document hlast :=
    (h.document hlast).imp_right (Or.imp (·.replaced hc howes) (·.replaced hc hold))
  tried c hm hs := by
    obtain rfl | hm := mem_replaced hm
    · exact h.tried _ (hc ▸ List.mem_append_right _ List.mem_cons_self) (hrewritten hs)
    · exact h.tried c (hc ▸ mem_of_others hm) hs

theorem Kept.rendered {n : Nat} (h : Kept source u)
    (hc : u.calls = before ++ ⟨values, .holding n⟩ :: after) : Kept source { u with
      calls := before ++ ⟨values, .rendered n (source.render u.store)⟩ :: after } where
  keeper := by
    have hcount : (before ++ ⟨values, Stage.rendered n (source.render u.store)⟩ :: after).countP
        (·.stage.keeps) + 1 = u.calls.countP (·.stage.keeps) + 1 := countP_keeps_replaced _ hc
    exact Nat.add_right_cancel hcount ▸ h.keeper
  fresh c hm n' content hs := by
    obtain rfl | hm := mem_replaced hm
    · cases hs
      exact .inl rfl
    · have hfalse := h.not_keeps hc rfl hm
      rw [hs] at hfalse
      cases hfalse
  document _ := .inr (.inr ⟨_, List.mem_append_right _ List.mem_cons_self, n, _, rfl⟩)
  tried c hm hs := by
    obtain rfl | hm := mem_replaced hm
    · cases hs
    · exact h.tried c (hc ▸ mem_of_others hm) hs

/-- A rewriting that works leaves the document as fresh as what was rendered. -/
theorem Kept.rewritten {n : Nat} {content : String} {files : Files} (worked : Bool)
    (h : Kept source u) (hc : u.calls = before ++ ⟨values, .rendered n content⟩ :: after)
    (hw : worked = true → files.read source.settings.file = .ok content) :
    Kept source { u with
      files, calls := before ++ ⟨values, .rewritten n⟩ :: after, rewriting := some worked } where
  keeper := by
    have hcount : (before ++ ⟨values, Stage.rewritten n⟩ :: after).countP (·.stage.keeps) + 1 =
        u.calls.countP (·.stage.keeps) + 1 := countP_keeps_replaced _ hc
    exact Nat.add_right_cancel hcount ▸ h.keeper
  fresh c hm n' content' hs := by
    obtain rfl | hm := mem_replaced hm
    · cases hs
    · have hfalse := h.not_keeps hc rfl hm
      rw [hs] at hfalse
      cases hfalse
  document hlast := by
    have hread := hw (Option.some.inj hlast)
    have hfresh := h.fresh ⟨values, .rendered n content⟩
      (hc ▸ List.mem_append_right _ List.mem_cons_self) n content rfl
    obtain rfl | howing := hfresh
    · exact .inl hread
    · exact .inr (.inl (howing.replaced hc nofun))
  tried _ _ _ := rfl

theorem kept_step (h : Kept source u) (hs : Step source u u') : Kept source u' := by
  cases hs with
  | refused => exact h.appended u.store rfl rfl (.inr rfl)
  | landed => exact h.appended _ rfl rfl (.inl rfl)
  | stuck => exact h.appended _ rfl rfl (.inl rfl)
  | resumed hc => exact h.replaced hc _ nofun (fun _ => rfl) nofun nofun nofun
  | acquired hc hfree =>
    exact h.replaced hc u.store.stream (fun _ => .inr hfree) (fun _ => rfl) nofun nofun nofun
  | rendered hc => exact h.rendered hc
  | rewrote hc hw => exact h.rewritten true hc fun _ => Files.read_of_write hw
  | failed hc files => exact h.rewritten false hc nofun
  | released hc =>
    exact h.replaced hc u.store.stream nofun nofun nofun nofun fun _ => rfl
  | received hp => exact ⟨h.keeper, h.fresh, h.document, h.tried⟩
  | elsewhere hsame =>
    refine ⟨h.keeper, h.fresh, ?_, h.tried⟩
    intro hlast
    rw [hsame]
    exact h.document hlast

theorem kept_of_reaches {store : Store} {files : Files} (h : Reaches source (start store files) u) :
    Kept source u := by
  induction h with
  | refl => exact kept_start store files
  | tail _ hs ih => exact kept_step ih hs

/-- A write that nobody else's steps come between is the write of the adapter. -/
theorem reaches_set {a : Adapter} {files : Files} {n : Nat} (hidle : u.Idle) (hfree : u.Free)
    (hpersist : source.settings.persist = true)
    (h : SignalSource.set (⟨u.store, .document source⟩ : Adapter) u.files values =
      .ok (a, files, .landed n)) : ∃ worked, Reaches source u { u with
        store := a.store, files, calls := u.calls ++ [⟨values, .ended (.ok n)⟩],
        rewriting := some worked } := by
  have hset := Adapter.store_of_set h
  have hfiles : files = source.save a.store u.files := Adapter.files_of_set h
  have hother : ∀ stage : Stage, stage.keeps = false →
      Free { u with store := a.store, calls := u.calls ++ [⟨values, stage⟩] } := by
    intro stage hk c hc
    obtain hc | hc := List.mem_append.mp hc
    · exact hfree c hc
    · rw [List.mem_singleton.mp hc]
      exact hk
  have hquiet : ∀ stage : Stage, stage.isWaiting = false →
      Idle { u with store := a.store, calls := u.calls ++ [⟨values, stage⟩] } := by
    intro stage hw c hc
    obtain hc | hc := List.mem_append.mp hc
    · exact hidle c hc
    · rw [List.mem_singleton.mp hc]
      exact hw
  have hrendered : Reaches source u { u with
      store := a.store
      calls := u.calls ++ [⟨values, .rendered n (source.render a.store)⟩] } :=
    ((Relation.ReflTransGen.single (.landed hidle hset)).tail
      (.acquired rfl (hother (.landed n) rfl))).tail (.rendered rfl (hquiet (.holding n) rfl))
  rw [DocumentSource.save, if_pos hpersist] at hfiles
  split at hfiles
  · next files' hw =>
    subst hfiles
    exact ⟨true, (hrendered.tail (.rewrote rfl hw)).tail (.released rfl)⟩
  · subst hfiles
    exact ⟨false, (hrendered.tail (.failed rfl u.files)).tail (.released rfl)⟩

/-- For any number of writers and every order of their steps, the store, its stream and all answers
are at all times those of a store without a document that has been given the same writes in the order
of their commits. When all writes have ended and one of them has succeeded, the document has been
rewritten, and it is that of the store if the last rewriting worked. -/
theorem document_follows_store {files : Files} (h : Reaches source (start first files) u) :
    Plain first (answers u.calls) u.received u.store ∧
    ((∀ c ∈ u.calls, c.stage.isEnded = true) → (∃ c ∈ u.calls, ∃ n, c.stage = .ended (.ok n)) →
      ∃ worked, u.rewriting = some worked ∧
        (worked = true → u.files.read source.settings.file = .ok (source.render u.store))) := by
  refine ⟨plain_of_reaches h, ?_⟩
  rintro hended ⟨c, hm, n, hs⟩
  have hkept := kept_of_reaches h
  obtain ⟨worked, hw⟩ := Option.isSome_iff_exists.mp (hkept.tried c hm (by rw [hs]; rfl))
  refine ⟨worked, hw, ?_⟩
  rintro rfl
  obtain hread | ⟨c', hm', howes⟩ | ⟨c', hm', n', content, hs'⟩ := hkept.document hw
  · exact hread
  · rw [c'.stage.not_owes_of_isEnded (hended c' hm')] at howes
    cases howes
  · have hend := hended c' hm'
    rw [hs'] at hend
    cases hend

def boardSource : DocumentSource :=
  ⟨⟨"board.json", none, true, false, true⟩, [("Board.Model", "Board.Model")]⟩

def board : Store := (Store.ofName "board").declare "Board.Model" ⟨.null, true, false⟩

def model (name : String) : Values := Table.empty.insert "Board.Model" (.text name)

theorem exists_write_board (content : String) :
    ∃ files, Files.empty.write "board.json" content = .ok files := by
  have hfault : Files.nameFault? "board.json" = none := by decide +kernel
  have hparts : Location.partsOf "board.json" = ["board.json"] := by decide +kernel
  have hstart : Location.start "board.json" = .workingDirectory := by decide +kernel
  have hl : Files.empty.locate "board.json" = .ok ⟨false, 0, ["board.json"]⟩ := by
    rw [Files.locate, hfault, hparts, hstart]
    rfl
  exact ⟨_, bind_eq_ok_iff.mpr ⟨_, hl, rfl⟩⟩

/-- The second write comes to the document first, and cannot rewrite it. The first one then writes out
what the second one has changed. -/
theorem document_follows_store_board : ∃ u, Reaches boardSource (start board .empty) u ∧
    u.calls.length = 2 ∧ (∀ c ∈ u.calls, c.stage.isEnded = true) ∧
    u.calls.head?.map (·.stage) = some (.ended (.ok 1)) ∧ u.rewriting = some true ∧
    u.store.value? "Board.Model" = some (.text "B") ∧
    u.files.read "board.json" = .ok (boardSource.render u.store) ∧
    Plain board (answers u.calls) u.received u.store := by
  let after := (board.commit (model "A")).1
  let last := (after.commit (model "B")).1
  let content := boardSource.render last
  obtain ⟨files, hw⟩ := exists_write_board content
  let run (a b : Stage) (files : Files) (rewriting : Option Bool) : Upkeep :=
    ⟨last, files, [⟨model "A", a⟩, ⟨model "B", b⟩], [], rewriting⟩
  have hlanded : Reaches boardSource (start board .empty) (run (.landed 1) (.landed 2) .empty none) :=
    (Relation.ReflTransGen.single (.landed (by rintro c ⟨⟩) rfl)).tail
      (.landed (u := ⟨after, .empty, [⟨model "A", .landed 1⟩], [], none⟩)
        (by simp [Idle, Stage.isWaiting]) rfl)
  have hsecond : ∀ a b files rewriting, (run a b files rewriting).calls =
      [⟨model "A", a⟩] ++ ⟨model "B", b⟩ :: [] := fun _ _ _ _ => rfl
  have hfirst : ∀ a b files rewriting, (run a b files rewriting).calls =
      [] ++ ⟨model "A", a⟩ :: [⟨model "B", b⟩] := fun _ _ _ _ => rfl
  have hfailed : Reaches boardSource (run (.landed 1) (.landed 2) .empty none)
      (run (.landed 1) (.ended (.ok 2)) .empty (some false)) :=
    (((Relation.ReflTransGen.single (.acquired (hsecond (.landed 1) (.landed 2) .empty none)
      (by simp [Free, run, Stage.keeps]))).tail
      (.rendered (hsecond (.landed 1) (.holding 2) .empty none)
        (by simp [Idle, Stage.isWaiting]))).tail
      (.failed (hsecond (.landed 1) (.rendered 2 content) .empty none) .empty)).tail
      (.released (hsecond (.landed 1) (.rewritten 2) .empty (some false)))
  have hsaved : Reaches boardSource (run (.landed 1) (.ended (.ok 2)) .empty (some false))
      (run (.ended (.ok 1)) (.ended (.ok 2)) files (some true)) :=
    (((Relation.ReflTransGen.single (.acquired (hfirst (.landed 1) (.ended (.ok 2)) .empty (some false))
      (by simp [Free, run, Stage.keeps]))).tail
      (.rendered (hfirst (.holding 1) (.ended (.ok 2)) .empty (some false))
        (by simp [Idle, Stage.isWaiting]))).tail
      (.rewrote (hfirst (.rendered 1 content) (.ended (.ok 2)) .empty (some false)) hw)).tail
      (.released (hfirst (.rewritten 1) (.ended (.ok 2)) files (some true)))
  have hreach := (hlanded.trans hfailed).trans hsaved
  obtain ⟨hplain, hdocument⟩ := document_follows_store hreach
  have hended : ∀ c ∈ (run (.ended (.ok 1)) (.ended (.ok 2)) files (some true)).calls,
      c.stage.isEnded = true := by simp [run, Stage.isEnded]
  obtain ⟨worked, hworked, hread⟩ := hdocument hended ⟨_, List.mem_cons_self, 1, rfl⟩
  cases hworked
  exact ⟨_, hreach, rfl, hended, rfl, rfl, rfl, hread rfl, hplain⟩

end Upkeep

end SignalBroker
