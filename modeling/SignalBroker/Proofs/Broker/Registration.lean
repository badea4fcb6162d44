import SignalBroker.Broker.Basic
import SignalBroker.Proofs.Broker.Reading
import SignalBroker.Proofs.Except

namespace SignalBroker

variable {σ : Type} [SignalSource σ]

namespace Registry

def firstValues (source : σ) (paths : List String) : Values :=
  match SignalSource.get source paths with
  | .ok values => values
  | .error _ => .empty

theorem register_eq_accepted {r r' : Registry σ} {source : σ} (h : r.register source = .accepted r') :
    ∃ flags subscribed, r.conflict? (SignalSource.paths source) = none ∧
      readFlags source (SignalSource.paths source) = .ok flags ∧
      SignalSource.subscribe (SignalSource.takeStream source).2 (SignalSource.paths source) =
        .ok subscribed ∧
      r' = r.enroll flags (firstValues subscribed (SignalSource.paths source))
        (r.memberOf subscribed (SignalSource.takeStream source).1) (r.timerOf subscribed) := by
  unfold register at h
  simp only at h
  split at h
  · cases h
  · next hc =>
    split at h
    · cases h
    · next flags hf =>
      split at h
      · cases h
      · next subscribed hs =>
        cases h
        exact ⟨flags, subscribed, hc, hf, hs, rfl⟩

theorem conflict?_eq_none_iff (r : Registry σ) (paths : List String) :
    r.conflict? paths = none ↔ ∀ path ∈ paths, r.entries.find? path = none := by
  simp only [conflict?, List.findSome?_eq_none_iff, Option.map_eq_none_iff]

theorem readFlags_eq_ok {source : σ} {paths : List String} {flags : List PathFlags}
    (h : readFlags source paths = .ok flags) :
    flags.map (·.path) = paths ∧ ∀ f ∈ flags, SignalSource.isPublic source f.path = .ok f.isPublic ∧
      SignalSource.isReadOnly source f.path = .ok f.isReadOnly := by
  have hall := mapM_eq_ok_iff.mp h
  clear h
  induction hall with
  | nil => exact ⟨rfl, by simp⟩
  | @cons path f paths flags hf _ ih =>
    obtain ⟨isPublic, hp, hf⟩ := bind_eq_ok_iff.mp hf
    obtain ⟨isReadOnly, hr, hf⟩ := bind_eq_ok_iff.mp hf
    cases hf
    refine ⟨by rw [List.map_cons, ih.1], ?_⟩
    intro g hg
    obtain rfl | hg := List.mem_cons.mp hg
    · exact ⟨hp, hr⟩
    · exact ih.2 g hg

section Enrolling

omit [SignalSource σ]

variable (r : Registry σ) (flags : List PathFlags) (values : Values) (member : Member σ)
  (timer : Option Timer)

theorem find?_enroll_of_not_mem {path : String} (h : path ∉ flags.map (·.path)) :
    (r.enroll flags values member timer).entries.find? path = r.entries.find? path :=
  Table.find?_foldl_insert_of_not_mem _ _ flags r.entries h

theorem find?_enroll_of_mem {f : PathFlags} (hf : f ∈ flags)
    (h : ∀ g ∈ flags, g.path = f.path → g = f) :
    (r.enroll flags values member timer).entries.find? f.path =
      some (firstEntry f r.members.length (values.find? f.path)) := by
  apply Table.find?_foldl_insert_of_mem (fun f : PathFlags => f.path)
    (fun f => firstEntry f r.members.length (values.find? f.path)) flags r.entries hf
  intro g hg hk
  rw [h g hg hk]

end Enrolling

theorem find?_register_of_some {r r' : Registry σ} {source : σ} (h : r.register source = .accepted r')
    {path : String} {e : Entry} (he : r.entries.find? path = some e) :
    r'.entries.find? path = some e := by
  obtain ⟨flags, subscribed, hc, hf, -, rfl⟩ := register_eq_accepted h
  rw [find?_enroll_of_not_mem, he]
  rw [(readFlags_eq_ok hf).1]
  intro hm
  have hn := (r.conflict?_eq_none_iff _).mp hc path hm
  rw [he] at hn
  cases hn

end Registry

theorem Broker.register_eq_ok_iff {b b' : Broker σ} {source : σ} : b.register source = .ok b' ↔
    ∃ r', b.registry.register source = .accepted r' ∧ b' = { b with registry := r' } := by
  unfold register
  cases b.registry.register source with
  | accepted r' => simp [eq_comm]
  | refused e source' => simp

end SignalBroker
