import SignalBroker.Proofs.Json.Legibility
import SignalBroker.Proofs.Session.Confidentiality

namespace SignalBroker

namespace Decimal

theorem digit?_eq_some {c : Char} (h : c.isDigit = true) :
    digit? c = some (c.toNat - '0'.toNat) := by
  unfold digit?
  rw [if_pos]
  simpa [Char.isDigit, Char.le_def] using h

theorem readDigits_eq_ok {largest read : Nat} {cs : List Char} (hd : ∀ c ∈ cs, c.isDigit = true)
    (hle : Nat.ofDigitChars 10 cs read ≤ largest) :
    readDigits largest read cs = .ok (Nat.ofDigitChars 10 cs read) := by
  induction cs generalizing read with
  | nil => rw [readDigits, Nat.ofDigitChars_nil]
  | cons c cs ih =>
    obtain ⟨hc, hcs⟩ := List.forall_mem_cons.mp hd
    rw [Nat.ofDigitChars_cons, Nat.mul_comm 10] at hle ⊢
    have hfits := Nat.le_trans (le_ofDigitChars _ cs) hle
    simp only [readDigits, digit?_eq_some hc, if_neg (Nat.not_lt_of_le hfits)]
    exact ih hcs hle

theorem natural_toString {largest n : Nat} (h : n ≤ largest) :
    natural largest (toString n) = .ok n := by
  have hd : ∀ c ∈ Nat.toDigits 10 n, c.isDigit = true := fun c hc =>
    Nat.isDigit_of_mem_toDigits (by decide) (by decide) hc
  have hread : readDigits largest 0 (Nat.toDigits 10 n) = .ok n := by
    have hvalue := Nat.ofDigitChars_ten_toDigits (n := n)
    have hok := readDigits_eq_ok hd (hvalue.symm ▸ h)
    rwa [hvalue] at hok
  have hlist : (toString n).toList = Nat.toDigits 10 n := Nat.toList_repr
  unfold natural
  rw [hlist]
  split
  · next hnil =>
    have hpos := Nat.length_toDigits_pos (b := 10) (n := n)
    rw [hnil] at hpos
    cases hpos
  · next hplus => exact absurd (hd '+' (by rw [hplus]; simp)) (by decide)
  · next cs hplus => exact absurd (hd '+' (by rw [hplus]; simp)) (by decide)
  · exact hread

end Decimal

namespace Text

theorem isBlank_of_isDigit {c : Char} (h : c.isDigit = true) : isBlank c = false := by
  have hrange : 48 ≤ c.toNat ∧ c.toNat ≤ 57 := by
    simp only [Char.isDigit, Bool.and_eq_true, decide_eq_true_eq, ge_iff_le,
      UInt32.le_iff_toNat_le] at h
    exact h
  simp only [isBlank]
  grind

theorem trim_eq_self {s : String} (h : ∀ c ∈ s.toList, isBlank c = false) : trim s = s := by
  have hkept : ∀ cs : List Char, (∀ c ∈ cs, isBlank c = false) → cs.dropWhile isBlank = cs := by
    intro cs hcs
    cases cs with
    | nil => rfl
    | cons c cs => exact List.dropWhile_cons_of_neg (by simp [hcs c (by simp)])
  rw [trim, trimChars, hkept _ h, hkept _ (by simpa using h), List.reverse_reverse,
    String.ofList_toList]

end Text

theorem SubscriptionId.ofText_toString {id : SubscriptionId} (h : id < UInt64.size) :
    ofText (toString id) = .ok id := by
  have hlist : (toString id).toList = Nat.toDigits 10 id := Nat.toList_repr
  have htrim : Text.trim (toString id) = toString id := by
    apply Text.trim_eq_self
    rw [hlist]
    intro c hc
    exact Text.isBlank_of_isDigit (Nat.isDigit_of_mem_toDigits (by decide) (by decide) hc)
  have hle : id ≤ 0xffffffffffffffff := Nat.le_of_lt_succ h
  rw [ofText, htrim, Decimal.natural_toString hle]

theorem Session.readSubscriptionId_eq_ok {id : SubscriptionId} (h : id < UInt64.size) :
    readSubscriptionId (.text (toString id)) = .ok id ∧
      readSubscriptionId (Json.ofNat id) = .ok id := by
  constructor
  · rw [readSubscriptionId, SubscriptionId.ofText_toString h]
  · have hword : (UInt64.ofNat id).toNat = id := by
      rw [UInt64.toNat_ofNat', Nat.mod_eq_of_lt h]
    unfold Json.ofNat readSubscriptionId Number.toUInt64?
    exact congrArg Except.ok hword

section Events

variable {σ : Type}

def Event.acknowledged? (action : String) : Event σ → Option SubscriptionId
  | .asked _ _ (some (.subscription done _ id _)) => if done = action then some id else none
  | _ => none

theorem Event.acknowledged?_eq_some_iff {action : String} {c : ConnectionId} {request : Request}
    {answer : Option Response} {id : SubscriptionId} :
    (Event.asked (σ := σ) c request answer).acknowledged? action = some id ↔
      ∃ requestId now, answer = some (.subscription action requestId id now) := by
  constructor
  · intro h
    unfold acknowledged? at h
    split at h
    · next he =>
      cases he
      split at h
      · next hd =>
        cases h
        exact ⟨_, _, by rw [hd]⟩
      · cases h
    · cases h
  · rintro ⟨requestId, now, rfl⟩
    exact if_pos rfl

theorem Event.asked_of_acknowledged? {e : Event σ} {action : String} {id : SubscriptionId}
    (h : e.acknowledged? action = some id) : ∃ c request answer, e = .asked c request answer := by
  cases e with
  | asked c request answer => exact ⟨c, request, answer, rfl⟩
  | _ => cases h

end Events

namespace Switchboard

variable {σ : Type} {log : List (Event σ)} {w w' : Switchboard σ} {e : Event σ}

/-- Numbers have been given in ascending order, and those given up are free of subscriptions. -/
structure Numbered (log : List (Event σ)) (w : Switchboard σ) : Prop where
  rows : ∀ id sub, w.broker.subscriptions.rows.find? id = some sub →
    id < w.broker.subscriptions.nextId
  given : (log.filterMap (·.acknowledged? "subscribe")).Pairwise (· < ·)
  below : ∀ id ∈ log.filterMap (·.acknowledged? "subscribe"), id < w.broker.subscriptions.nextId
  givenUp : ∀ id ∈ log.filterMap (·.acknowledged? "unsubscribe"),
    id < w.broker.subscriptions.nextId ∧ w.broker.subscriptions.rows.find? id = none

structure Adds (w w' : Switchboard σ) : Prop where
  nextId : w'.broker.subscriptions.nextId = w.broker.subscriptions.nextId + 1
  others : ∀ id, id ≠ w.broker.subscriptions.nextId →
    w'.broker.subscriptions.rows.find? id = w.broker.subscriptions.rows.find? id

structure Thins (w w' : Switchboard σ) : Prop where
  nextId : w'.broker.subscriptions.nextId = w.broker.subscriptions.nextId
  rows : ∀ id, w.broker.subscriptions.rows.find? id = none →
    w'.broker.subscriptions.rows.find? id = none

theorem thins_of_rows (hn : w'.broker.subscriptions.nextId = w.broker.subscriptions.nextId)
    (hr : w'.broker.subscriptions.rows = w.broker.subscriptions.rows) : w.Thins w' :=
  ⟨hn, fun _ hnone => hr ▸ hnone⟩

theorem thins_close (s : Session) {w : Switchboard σ} {sessions : Table ConnectionId Session} :
    w.Thins ⟨(s.close w.broker).2, sessions⟩ where
  nextId := by
    show (s.close w.broker).2.subscriptions.nextId = _
    unfold Session.close
    split <;> rfl
  rows id hnone := by
    rw [Option.eq_none_iff_forall_ne_some] at hnone ⊢
    intro sub hrow
    exact hnone sub (find?_close hrow).1

variable [SignalSource σ]

theorem adds_or_thins_asked {s s' : Session} {b' : Broker σ} {request : Request}
    {answer : Option Response} {sessions : Table ConnectionId Session}
    (hh : s.handle w.broker request = (answer, s', b')) :
    (∃ requestId now, answer = some (.subscription "subscribe" requestId
        w.broker.subscriptions.nextId now) ∧ w.Adds ⟨b', sessions⟩) ∨
      (∀ id requestId now, answer ≠ some (.subscription "subscribe" requestId id now)) ∧
        w.Thins ⟨b', sessions⟩ := by
  cases Session.handled_of_handle hh with
  | refused => exact .inr ⟨nofun, thins_of_rows rfl rfl⟩
  | authorized =>
    refine .inr ⟨nofun, rfl, ?_⟩
    intro id hnone
    show (w.broker.subscriptions.refresh _ _).rows.find? id = none
    rw [Subscriptions.find?_refresh, hnone]
    rfl
  | answered => exact .inr ⟨nofun, thins_of_rows rfl rfl⟩
  | @wrote path value write outcome b' hopen ha hw hset now =>
    have hb := Broker.told_of_set hset
    refine .inr ⟨?_, thins_of_rows hb.nextId hb.rows⟩
    cases outcome <;> nofun
  | subscribed =>
    refine .inl ⟨_, _, rfl, rfl, ?_⟩
    intro id hne
    show (w.broker.subscriptions.rows.insert _ _).find? id = _
    rw [Table.find?_insert, if_neg hne]
  | unsubscribed hopen ha hn hu =>
    obtain ⟨-, rfl⟩ := Subscriptions.unsubscribe_eq_ok_iff.mp hu
    refine .inr ⟨fun _ _ _ => by simp, rfl, ?_⟩
    intro k hnone
    show (w.broker.subscriptions.rows.erase _).find? k = none
    rw [Table.find?_erase, hnone, ite_self]
  | unsubscribedAll =>
    refine .inr ⟨nofun, rfl, ?_⟩
    intro id hnone
    show (w.broker.subscriptions.unsubscribeAll _).2.rows.find? id = none
    rw [Subscriptions.find?_unsubscribeAll, hnone]
    rfl

/-- What a step does to the subscriptions and their numbers. -/
theorem adds_or_thins (hs : Step w e w') :
    (e.acknowledged? "subscribe" = some w.broker.subscriptions.nextId ∧ w.Adds w') ∨
      (e.acknowledged? "subscribe" = none ∧ w.Thins w') := by
  cases hs with
  | opened => exact .inr ⟨rfl, thins_of_rows rfl rfl⟩
  | @asked c s s' b' request answer hs hh =>
    obtain ⟨requestId, now, rfl, hadds⟩ | ⟨hother, hthins⟩ := adds_or_thins_asked hh
    · exact .inl ⟨rfl, hadds⟩
    · refine .inr ⟨?_, hthins⟩
      rw [Option.eq_none_iff_forall_ne_some]
      intro id hid
      obtain ⟨requestId, now, hanswer⟩ := Event.acknowledged?_eq_some_iff.mp hid
      exact hother id requestId now hanswer
  | @closed c s => exact .inr ⟨rfl, thins_close s⟩
  | @dropped c s => exact .inr ⟨rfl, thins_close s⟩
  | drained => exact .inr ⟨rfl, thins_of_rows rfl rfl⟩
  | applied owner seq values =>
    have hb := w.broker.told_apply owner seq values
    exact .inr ⟨rfl, thins_of_rows hb.nextId hb.rows⟩
  | @registered source b' hr =>
    obtain ⟨registry, -, rfl⟩ := Broker.register_eq_ok_iff.mp hr
    exact .inr ⟨rfl, thins_of_rows rfl rfl⟩
  | moved => exact .inr ⟨rfl, thins_of_rows rfl rfl⟩

structure GivesUp (w w' : Switchboard σ) (c : ConnectionId) (request : Request)
    (id : SubscriptionId) : Prop where
  named : ∃ named, request.action = .unsubscribe named ∧
    Session.readSubscriptionId named = .ok id
  owned : ∃ sub, w.broker.subscriptions.rows.find? id = some sub ∧ sub.connection = c
  gone : w'.broker.subscriptions.rows.find? id = none

theorem givesUp_of_step {c : ConnectionId} {request : Request} {answer : Option Response}
    {id : SubscriptionId} (h : w.Sound log) (hs : Step w (.asked c request answer) w')
    (he : (Event.asked (σ := σ) c request answer).acknowledged? "unsubscribe" = some id) :
    w.GivesUp w' c request id := by
  obtain ⟨requestId, now, rfl⟩ := Event.acknowledged?_eq_some_iff.mp he
  generalize hask : Event.asked (σ := σ) c request _ = e at hs
  cases hs with
  | @asked k s s' b' request' answer' hfind hh =>
    cases hask
    generalize hr : some (Response.subscription "unsubscribe" requestId id now) = answer at hh
    cases Session.handled_of_handle hh with
    | @unsubscribed named id' subscriptions hopen ha hn hu =>
      cases hr
      obtain ⟨howns, rfl⟩ := Subscriptions.unsubscribe_eq_ok_iff.mp hu
      refine ⟨⟨named, ha, hn⟩, ?_, ?_⟩
      · rw [← (h.keyed c s hfind).1]
        exact Subscriptions.owns_iff.mp howns
      · show (w.broker.subscriptions.rows.erase id).find? id = none
        rw [Table.find?_erase, if_pos rfl]
    | @wrote path value write outcome => cases outcome <;> cases hr
    | refused => cases hr
    | authorized => cases hr
    | answered => cases hr
    | subscribed => simp at hr
    | unsubscribedAll => cases hr
  | _ => cases hask

omit [SignalSource σ] in
theorem numbered_start (resolver : Resolver) (clock : Clock) (outboxCapacity : Nat)
    (files : Files) : (start resolver clock outboxCapacity files : Switchboard σ).Numbered [] where
  rows _ _ := nofun
  given := .nil
  below := nofun
  givenUp := nofun

theorem free_of_step (hs : Step w e w') :
    w.broker.subscriptions.nextId ≤ w'.broker.subscriptions.nextId ∧
      ∀ id < w.broker.subscriptions.nextId, w.broker.subscriptions.rows.find? id = none →
        w'.broker.subscriptions.rows.find? id = none := by
  obtain ⟨-, hadds⟩ | ⟨-, hthins⟩ := adds_or_thins hs
  · refine ⟨Nat.le_of_lt (Nat.lt_of_lt_of_eq (Nat.lt_succ_self _) hadds.nextId.symm), ?_⟩
    intro id hlt hnone
    exact (hadds.others id (Nat.ne_of_lt hlt)).trans hnone
  · exact ⟨Nat.le_of_eq hthins.nextId.symm, fun id _ hnone => hthins.rows id hnone⟩

theorem numbered_rows (h : w.Numbered log) (hs : Step w e w') {id : SubscriptionId}
    {sub : Subscription} (hrow : w'.broker.subscriptions.rows.find? id = some sub) :
    id < w'.broker.subscriptions.nextId := by
  obtain ⟨-, hadds⟩ | ⟨-, hthins⟩ := adds_or_thins hs
  · rw [hadds.nextId]
    by_cases hid : id = w.broker.subscriptions.nextId
    · exact hid ▸ Nat.lt_succ_self _
    · rw [hadds.others id hid] at hrow
      exact Nat.lt_succ_of_lt (h.rows id sub hrow)
  · rw [hthins.nextId]
    cases hold : w.broker.subscriptions.rows.find? id with
    | none =>
      rw [hthins.rows id hold] at hrow
      cases hrow
    | some old => exact h.rows id old hold

theorem numbered_step (h : w.Numbered log) (hsound : w.Sound log) (hs : Step w e w') :
    w'.Numbered (log ++ [e]) := by
  obtain ⟨hle, hfree⟩ := free_of_step hs
  have hgiven : (log ++ [e]).filterMap (·.acknowledged? "subscribe") =
      log.filterMap (·.acknowledged? "subscribe") ++ (e.acknowledged? "subscribe").toList := by
    rw [List.filterMap_append]
    cases he : e.acknowledged? "subscribe" <;> simp [he]
  refine ⟨fun _ _ hrow => numbered_rows h hs hrow, ?_, ?_, ?_⟩
  · rw [hgiven]
    obtain ⟨he, -⟩ | ⟨he, -⟩ := adds_or_thins hs
    · rw [he]
      refine List.pairwise_append.mpr ⟨h.given, List.pairwise_singleton _ _, ?_⟩
      intro id hid next hnext
      rw [List.mem_singleton.mp hnext]
      exact h.below id hid
    · rw [he, Option.toList_none, List.append_nil]
      exact h.given
  · intro id hid
    rw [hgiven] at hid
    obtain hold | hnew := List.mem_append.mp hid
    · exact Nat.lt_of_lt_of_le (h.below id hold) hle
    · obtain ⟨he, hadds⟩ | ⟨he, -⟩ := adds_or_thins hs
      · rw [he] at hnew
        rw [List.mem_singleton.mp hnew, hadds.nextId]
        exact Nat.lt_succ_self _
      · rw [he] at hnew
        cases hnew
  · intro id hid
    rw [List.filterMap_append] at hid
    obtain hold | hnew := List.mem_append.mp hid
    · obtain ⟨hlt, hnone⟩ := h.givenUp id hold
      exact ⟨Nat.lt_of_lt_of_le hlt hle, hfree id hlt hnone⟩
    · obtain ⟨e', he', hid⟩ := List.mem_filterMap.mp hnew
      cases List.mem_singleton.mp he'
      obtain ⟨c, request, answer, rfl⟩ := Event.asked_of_acknowledged? hid
      have hgives := givesUp_of_step hsound hs hid
      obtain ⟨sub, hrow, -⟩ := hgives.owned
      exact ⟨Nat.lt_of_lt_of_le (h.rows id sub hrow) hle, hgives.gone⟩

theorem numbered_of_run (h : Run log w) : w.Numbered log := by
  induction h with
  | start resolver clock outboxCapacity files =>
    exact numbered_start resolver clock outboxCapacity files
  | next h hs ih => exact numbered_step ih (sound_of_run h) hs

end Switchboard

end SignalBroker
