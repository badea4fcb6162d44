import SignalBroker.Proofs.Session.Decoding
import SignalBroker.Proofs.Session.Handling
import SignalBroker.Proofs.Signal.Conversion
import SignalBroker.Proofs.Traffic.Abreast

namespace SignalBroker

namespace Registry

variable {σ : Type} {r : Registry σ} {p : Pattern} {rights : Rights}

theorem get_eq_matching (hm : ∃ path, r.Matched p path)
    (hread : ∀ path e, r.entries.find? path = some e → p.matches path = true →
      rights.canRead path e.isPublic = true) :
    r.get p.text rights = .ok ((r.matching p).map fun _ e => e.value) := by
  have hvisible : r.visible p rights = r.matching p := by
    ext path : 1
    rw [find?_visible, find?_matching]
    cases he : r.entries.find? path with
    | none => rfl
    | some e =>
      cases hmatches : p.matches path with
      | false => simp [Option.filter]
      | true => simp [Option.filter, hread path e he hmatches]
  have hsome : (r.matching p).isEmpty = false := by
    obtain ⟨path, hpath⟩ := hm
    refine Bool.eq_false_iff.mpr fun hempty => ?_
    exact matching_isEmpty_iff.mp hempty path hpath
  have hreadable : r.readable p rights = .ok (r.matching p) := by
    rw [readable, hvisible, hsome]
    simp
  refine bind_eq_ok_iff.mpr ⟨p, compile_eq_ok_iff.mpr p.ofText_text, ?_⟩
  exact bind_eq_ok_iff.mpr ⟨_, hreadable, rfl⟩

theorem matching_literal {e : Entry} (hl : p.isLiteral = true)
    (he : r.entries.find? p.text = some e) : r.matching p = Table.empty.insert p.text e := by
  rw [matching, if_pos hl, he]

theorem find?_text_of_matched {path : String} (hl : p.isLiteral = true) (hm : r.Matched p path) :
    ∃ e, r.entries.find? p.text = some e := by
  obtain ⟨e, he, hmatches⟩ := hm
  rw [(Pattern.matches_iff_eq_text hl path).mp hmatches] at he
  exact ⟨e, he⟩

theorem matched_congr {r' : Registry σ} {path : String} (h : r'.publicity path = r.publicity path) :
    r'.Matched p path ↔ r.Matched p path := by
  have hiff : ∀ q : Registry σ, q.Matched p path ↔ (q.publicity path).isSome ∧ p.matches path := by
    intro q
    simp [Matched, publicity, Option.isSome_iff_exists]
  rw [hiff, hiff, h]

end Registry

namespace Session

variable {σ : Type} [SignalSource σ] {s : Session} {b b' : Broker σ} {request : Request}

theorem handle_set_done {path : String} {value : Json} {w : WriteRequest} (hopen : s.isOpen = true)
    (ha : request.action = .set path value) (hw : WriteRequest.ofJson value = .ok w)
    (hset : b.set path w s.rights = (.done, b')) : s.handle b request =
      (some (.done "set" request.requestId b.clock.millis), s, b') := by
  rw [handle, execute, hopen, ha]
  simp [hw, hset]

theorem valueAnswer_singleton (path : String) (v : SignalValue) :
    valueAnswer path (Table.empty.insert path v) = v.toJson := by
  rw [valueAnswer, Table.find?_insert, if_pos rfl]
  rfl

theorem valueAnswer_of_find?_eq_none {path : String} {values : Values}
    (h : values.find? path = none) : valueAnswer path values = values.toJson := by
  rw [valueAnswer, h]

end Session

namespace Traffic

variable {P : Adapter → Prop} {t : Traffic} {p : Pattern} {rights : Rights} {v : SignalValue}

theorem assigned_broadcast {r : Registry Adapter} {path : String} (h : r.Matched p path) :
    r.assigned? p (.broadcast v) path = some v := by
  obtain ⟨e, he, hmatches⟩ := h
  simp [Registry.assigned?, Table.contains, he, hmatches, WriteRequest.valueFor?]

theorem matched_of_assigned {r : Registry Adapter} {path : String} {w : WriteRequest}
    (h : r.assigned? p w path = some v) : r.Matched p path := by
  unfold Registry.assigned? at h
  split at h
  · next hc =>
    obtain ⟨hc, hmatches⟩ := Bool.and_eq_true_iff.mp hc
    obtain ⟨e, he⟩ := Option.isSome_iff_exists.mp hc
    exact ⟨e, he, hmatches⟩
  · cases h

structure Opens (t : Traffic) (p : Pattern) (rights : Rights) : Prop where
  matched : ∃ path, t.broker.registry.Matched p path
  entry : ∀ path e, t.broker.registry.entries.find? path = some e → p.matches path = true →
    e.isReadOnly = false ∧ rights.canRead path e.isPublic = true ∧ rights.canWrite path = true

theorem Opens.permits (h : t.Opens p rights) :
    t.broker.registry.Permits p (.broadcast v) rights where
  matched := h.matched
  ended := by rintro _ ⟨⟩
  unlocked := by
    rintro path ⟨e, u, he, hu, hlocked⟩
    obtain ⟨e', he', hmatches⟩ := matched_of_assigned hu
    cases he.symm.trans he'
    rw [(h.entry path e he hmatches).1] at hlocked
    cases hlocked
  granted := by
    rintro path ⟨u, hu, hno⟩
    obtain ⟨e, he, hmatches⟩ := matched_of_assigned hu
    have hyes : rights.grants.canWrite path = true := (h.entry path e he hmatches).2.2
    rw [hyes] at hno
    cases hno

theorem abreast_of_set {b' : Broker Adapter} {pattern : String} {w : WriteRequest} {path : String}
    (hp : Pattern.ofText pattern = .ok p) (hset : t.broker.set pattern w rights = (.done, b'))
    (hv : t.broker.registry.assigned? p w path = some v) : b'.Abreast path := by
  unfold Broker.set at hset
  split at hset
  · cases hset
  · next targets ht =>
    obtain ⟨q, hq, -, hres⟩ := Registry.targets_eq_ok ht
    cases hp.symm.trans hq
    obtain ⟨e, he⟩ := Registry.exists_entry_of_assigned hv
    refine Broker.abreast_of_writeGroups (Registry.groups targets).ascending hset he (.inl ?_)
    show (given (Registry.groups targets).toList e.owner path).isSome = true
    rw [given_groups hres, he, Option.bind_some, if_pos rfl, hv]
    rfl

/-- A write that has been carried out can be read from the cache, and still can after feeding. -/
theorem value_of_fed {b' b'' : Broker Adapter} {pattern : String} {path : String}
    {w : WriteRequest} (h : t.Coherent) (hp : Pattern.ofText pattern = .ok p)
    (hset : t.broker.set pattern w rights = (.done, b')) (ha : t.broker.Assigned b' p w)
    (hv : t.broker.registry.assigned? p w path = some v) (hfed : b'.Fed b'') :
    ∃ e, b''.registry.entries.find? path = some e ∧ (e.value == v) = true := by
  have hlanded : ∃ t', Later (fun _ => True) t t' ∧ t'.broker = b' := by
    unfold Broker.set at hset
    split at hset
    · cases hset
    · obtain ⟨t', hl, hb, -⟩ := later_of_writeGroups hset
      exact ⟨t', hl, hb⟩
  obtain ⟨t', hl, rfl⟩ := hlanded
  obtain ⟨t'', hl', rfl⟩ := later_of_fed (P := fun _ => True) hfed
  have hcoherent := coherent_later h (hl.trans hl')
  obtain ⟨e, signal, he, hs, hsv⟩ := ha.stored path v hv
  rw [← hfed.signal?] at hs
  obtain ⟨m, hm, hsignal⟩ := Option.bind_eq_some_iff.mp hs
  obtain ⟨e'', he'', howner⟩ := hcoherent.owned e.owner m path signal hm hsignal
  have habreast : t''.broker.Abreast path := (abreast_of_set hp hset hv).fed hfed
  rw [← howner] at hs
  exact ⟨e'', he'', BEq.trans (value_of_abreast hcoherent habreast he'' hs) hsv⟩

/-- What a client reads of a pattern that it has written a value to: the bare value of a path, or the
value for every path that a pattern with wildcards matches. -/
structure Shows (r : Registry Adapter) (p : Pattern) (v : SignalValue) (answer : Json) : Prop where
  bare : p.isLiteral = true → ∃ u : SignalValue, answer = u.toJson ∧ (u == v) = true
  table : p.isLiteral = false → ∃ values : Values, answer = values.toJson ∧
    ∀ path, ((values.find? path).isSome = true ↔ r.Matched p path) ∧
      ∀ u, values.find? path = some u → (u == v) = true

theorem shows_of_values {r : Registry Adapter} (hmatched : ∃ path, r.Matched p path)
    (hplain : ∀ path e, r.entries.find? path = some e → '*' ∉ path.toList)
    (hv : ∀ path e, r.entries.find? path = some e → p.matches path = true →
      (e.value == v) = true) :
    Shows r p v (Session.valueAnswer p.text ((r.matching p).map fun _ e => e.value)) where
  bare hl := by
    obtain ⟨path, hpath⟩ := hmatched
    obtain ⟨e, he⟩ := Registry.find?_text_of_matched hl hpath
    refine ⟨e.value, ?_, hv p.text e he ((Pattern.matches_iff_eq_text hl _).mpr rfl)⟩
    rw [Registry.matching_literal hl he]
    exact Session.valueAnswer_singleton p.text e.value
  table hl := by
    refine ⟨(r.matching p).map fun _ e => e.value, ?_, ?_⟩
    · apply Session.valueAnswer_of_find?_eq_none
      rw [Table.find?_map, Registry.find?_matching]
      cases he : r.entries.find? p.text with
      | none => rfl
      | some e => exact absurd (Pattern.mem_text_of_not_isLiteral hl) (hplain p.text e he)
    · intro path
      refine ⟨?_, ?_⟩
      · rw [Table.find?_map, Option.isSome_map, Registry.matched_iff, Option.isSome_iff_exists]
      · intro u hu
        rw [Table.find?_map, Registry.find?_matching] at hu
        obtain ⟨e, he, rfl⟩ := Option.map_eq_some_iff.mp hu
        obtain ⟨he, hmatches⟩ := Option.filter_eq_some_iff.mp he
        exact hv path e he hmatches

/-- A client that writes a value without objects to a pattern, all of whose paths it may read and
write, is told that it is done; when it reads the pattern afterwards it is shown that value, at once
and however much of the streams has been drained by then. -/
theorem set_then_get (h : Reached P t) (hroom : t.HasRoom) {s : Session} (hopen : s.isOpen = true)
    (hplain : ∀ path e, t.broker.registry.entries.find? path = some e → '*' ∉ path.toList)
    (hp : t.Opens p s.rights) {value : Json} (hvalue : value.ObjectFree) {tell ask : String}
    {toldId askedId : Json} (htell : Request.IsSet tell p.text value toldId)
    (hask : Request.IsGet ask p.text askedId) :
    ∃ v b', SignalValue.toJson v = value ∧
      s.handleText t.broker tell =
        (some (.done "set" toldId t.broker.clock.millis), s, b') ∧
      b'.Fed b'.settle ∧ ∀ b'', b'.Fed b'' → ∃ answer,
        s.handleText b'' ask = (some (.value askedId answer b''.clock.millis), s, b'') ∧
        Shows t.broker.registry p v answer := by
  have hcoherent := coherent_of_reached h
  obtain ⟨v, hv, hback⟩ := SignalValue.exists_ofJson? hvalue
  have hwrite := WriteRequest.ofJson_eq_broadcast hv
  have hcases := set_cases hcoherent hroom p.text (.broadcast v) s.rights
  obtain ⟨q, b', hq, -, hset, hassigned⟩ | ⟨e, hrefusal, -⟩ := hcases
  swap
  · exact absurd hp.permits (Registry.not_permits_of_refusal hrefusal p.ofText_text)
  cases p.ofText_text.symm.trans hq
  refine ⟨v, b', hback, ?_, b'.fed_settle, ?_⟩
  · rw [Session.handleText, Request.decode_set htell]
    exact Session.handle_set_done hopen rfl hwrite hset
  · intro b'' hfed
    have htold := (Broker.told_of_set hset).trans hfed.told
    have hmatched : ∀ path, b''.registry.Matched p path ↔ t.broker.registry.Matched p path :=
      fun path => Registry.matched_congr (htold.publicity path)
    -- what is registered now was registered before the write, with the same flag
    have hbefore : ∀ path e, b''.registry.entries.find? path = some e →
        ∃ e₀, t.broker.registry.entries.find? path = some e₀ ∧ e₀.isPublic = e.isPublic := by
      intro path e he
      have hflag := htold.publicity path
      rw [Registry.publicity, he] at hflag
      exact Option.map_eq_some_iff.mp hflag.symm
    have hread : ∀ path e, b''.registry.entries.find? path = some e → p.matches path = true →
        s.rights.canRead path e.isPublic = true := by
      intro path e he hmatches
      obtain ⟨e₀, he₀, hflag⟩ := hbefore path e he
      rw [← hflag]
      exact (hp.entry path e₀ he₀ hmatches).2.1
    have hvalues : ∀ path e, b''.registry.entries.find? path = some e → p.matches path = true →
        (e.value == v) = true := by
      intro path e he hmatches
      have hm : t.broker.registry.Matched p path := (hmatched path).mp ⟨e, he, hmatches⟩
      obtain ⟨e', he', hv'⟩ :=
        value_of_fed hcoherent p.ofText_text hset hassigned (assigned_broadcast hm) hfed
      cases he.symm.trans he'
      exact hv'
    have hsome : ∃ path, b''.registry.Matched p path := by
      obtain ⟨path, hpath⟩ := hp.matched
      exact ⟨path, (hmatched path).mpr hpath⟩
    have hshows := shows_of_values hsome (fun path e he => by
      obtain ⟨e₀, he₀, -⟩ := hbefore path e he
      exact hplain path e₀ he₀) hvalues
    refine ⟨_, ?_, hshows.bare, ?_⟩
    · rw [Session.handleText, Request.decode_get hask]
      show s.handle b'' ⟨askedId, .get p.text⟩ = _
      rw [Session.handle_get b'' hopen rfl, Registry.get_eq_matching hsome hread]
    · intro hl
      obtain ⟨values, hanswer, hall⟩ := hshows.table hl
      exact ⟨values, hanswer, fun path => ⟨(hall path).1.trans (hmatched path), (hall path).2⟩⟩

def trunkPattern : Pattern := ⟨"Trunk.*", [.literal "Trunk", .wildcard], rfl⟩

theorem entry_of_all {f : String × Entry → Bool} (h : t.broker.registry.entries.toList.all f = true)
    (path : String) (e : Entry) (he : t.broker.registry.entries.find? path = some e) :
    f (path, e) = true :=
  List.all_eq_true.mp h _ ((Table.mem_toList_iff _ path e).mpr he)

theorem hasRoom_of_all
    (h : (t.broker.registry.members.all fun m => m.source.store.stream.hasRoom) = true) : t.HasRoom :=
  List.all_eq_true.mp h

theorem reached_open_trunk : ∃ t : Traffic, Reached Adapter.Idle t ∧ t.HasRoom ∧
    t.broker.clock.millis = 0 ∧ t.Opens trunkPattern driver ∧
    ∀ path e, t.broker.registry.entries.find? path = some e → '*' ∉ path.toList := by
  have hstart : Reached Adapter.Idle (start (.ofTable .empty 0) ⟨0⟩ 8 .empty) :=
    ⟨_, _, _, _, .refl⟩
  have htrunk := reached_later hstart (.single
    (@Step.registered _ _ trunk _ _ ⟨rfl, rfl⟩ (.declared (.created _ _) _ _) rfl))
  have hlid := reached_later htrunk (.single
    (@Step.registered _ _ lid _ _ ⟨rfl, rfl⟩ (.declared (.created _ _) _ _) rfl))
  refine ⟨_, hlid, ?_, rfl, ⟨⟨"Trunk.IsLocked", _, rfl, by decide⟩, ?_⟩, ?_⟩
  · exact hasRoom_of_all rfl
  · intro path e he _
    have hrights := entry_of_all (f := fun row => !row.2.isReadOnly &&
      driver.canRead row.1 row.2.isPublic && driver.canWrite row.1) (by decide +kernel) path e he
    simpa [and_assoc] using hrights
  · intro path e he
    simpa using entry_of_all (f := fun row => !row.1.toList.contains '*') (by decide +kernel) path e he

def nested : Json := .array [.null, .array [.number 1, .text "a"], .array []]

def tellTrunk : String :=
  "\x7b\"action\":\"set\",\"path\":\"Trunk.*\",\"value\":[null,[1,\"a\"],[]],\"requestId\":7\x7d"

def askTrunk : String := "\x7b\"action\":\"get\",\"path\":\"Trunk.*\"\x7d"

theorem set_then_get_trunk : ∃ (t : Traffic) (s : Session) (v : SignalValue) (b' : Broker Adapter)
    (answer : Json), Reached Adapter.Idle t ∧ t.HasRoom ∧ s.isOpen = true ∧
    t.Opens trunkPattern s.rights ∧
    (∀ path e, t.broker.registry.entries.find? path = some e → '*' ∉ path.toList) ∧
    nested.ObjectFree ∧ Request.IsSet tellTrunk "Trunk.*" nested (.number 7) ∧
    Request.IsGet askTrunk "Trunk.*" .null ∧ v.toJson = nested ∧
    s.handleText t.broker tellTrunk = (some (.done "set" (.number 7) 0), s, b') ∧
    s.handleText b'.settle askTrunk =
      (some (.value .null answer b'.settle.clock.millis), s, b'.settle) ∧
    Shows t.broker.registry trunkPattern v answer := by
  obtain ⟨t, ht, hroom, hclock, hopens, hplain⟩ := reached_open_trunk
  have htell : Request.IsSet tellTrunk "Trunk.*" nested (.number 7) :=
    ⟨[("action", .text "set"), ("path", .text "Trunk.*"), ("requestId", .number 7),
      ("value", nested)], by cbv, rfl, rfl, rfl, rfl⟩
  have hask : Request.IsGet askTrunk "Trunk.*" .null :=
    ⟨[("action", .text "get"), ("path", .text "Trunk.*")], by cbv, rfl, rfl, rfl⟩
  have hfree : nested.ObjectFree := by simp [nested, Json.ObjectFree, Json.ObjectFreeItems]
  obtain ⟨v, b', hv, hdone, hsettle, hread⟩ := set_then_get (s := ⟨0, driver, true⟩) ht hroom rfl
    hplain hopens hfree htell hask
  obtain ⟨answer, hanswer, hshows⟩ := hread _ hsettle
  rw [hclock] at hdone
  exact ⟨t, _, v, b', answer, ht, hroom, rfl, hopens, hplain, hfree, htell, hask, hv, hdone,
    hanswer, hshows⟩

end Traffic

end SignalBroker
