import SignalBroker.Proofs.Session.Decoding
import SignalBroker.Proofs.Session.Refusal

namespace SignalBroker

/-- A response names the action of a frame with these members and carries its identifier. -/
def Response.BelongsTo (r : Response) (members : List (String × Json)) : Prop :=
  r.toJson.get? "action" = some (.text (Request.actionIn members)) ∧
    r.toJson.get? "requestId" = some ((members.lookup "requestId").getD .null)

namespace Response

theorem get?_action (r : Response) : r.toJson.get? "action" = some (.text r.action) := by
  cases r <;> rfl

theorem get?_requestId (r : Response) : r.toJson.get? "requestId" = r.requestId? := by
  cases r <;> simp [toJson, Json.get?, members, requestId?, List.lookup_cons]

theorem belongsTo {r : Response} {members : List (String × Json)} {name : String} {id : Json}
    (hr : r.action = name ∧ r.requestId? = some id)
    (h : name = Request.actionIn members ∧ id = (members.lookup "requestId").getD .null) :
    r.BelongsTo members := by
  rw [BelongsTo, get?_action, get?_requestId, hr.1, hr.2, h.1, h.2]
  exact ⟨rfl, rfl⟩

end Response

namespace Session

variable {σ : Type} [SignalSource σ] {s s' : Session} {b b' : Broker σ} {request : Request}

theorem named_of_mem_writeAnswer {path : String} {value : Json} {now : Int}
    {outcome : WriteOutcome} {r : Response} (ha : request.action = .set path value)
    (h : r ∈ writeAnswer request now outcome) :
    r.action = request.action.name ∧ r.requestId? = some request.requestId := by
  cases outcome with
  | done => cases h; exact ⟨by rw [ha]; rfl, rfl⟩
  | refused e => cases h; exact ⟨rfl, rfl⟩
  | waiting => cases h

theorem named_of_handled {answer : Option Response} (h : s.Handled b request answer s' b') :
    ∀ r ∈ answer, r.action = request.action.name ∧ r.requestId? = some request.requestId := by
  intro r hr
  cases h with
  | refused => cases hr; exact ⟨rfl, rfl⟩
  | authorized _ ha _ => cases hr; exact ⟨by rw [ha]; rfl, rfl⟩
  | answered _ ha _ => cases hr; exact ⟨by rw [ha]; rfl, rfl⟩
  | wrote _ ha _ _ now => exact named_of_mem_writeAnswer ha hr
  | subscribed _ ha _ => cases hr; exact ⟨by rw [ha]; rfl, rfl⟩
  | unsubscribed _ ha _ _ => cases hr; exact ⟨by rw [ha]; rfl, rfl⟩
  | unsubscribedAll _ ha => cases hr; exact ⟨by rw [ha]; rfl, rfl⟩

/-- A request whose answer has to wait: a write to a source without room in its stream. -/
def Awaits (s : Session) (b : Broker σ) (request : Request) : Prop :=
  s.isOpen = true ∧ ∃ path value write, request.action = .set path value ∧
    WriteRequest.ofJson value = .ok write ∧ (b.set path write s.rights).1 = .waiting

theorem awaits_of_handled (h : s.Handled b request none s' b') : s.Awaits b request := by
  generalize hanswer : (none : Option Response) = answer at h
  cases h with
  | @wrote path value write outcome _ hopen ha hw hs now =>
    cases outcome with
    | done => cases hanswer
    | refused e => cases hanswer
    | waiting => exact ⟨hopen, path, value, write, ha, hw, by rw [hs]⟩
  | _ => cases hanswer

/-- Whatever becomes of a frame that is an object, in an open session or in a closed one: its response
names the action that the frame has last, if that is a text, and carries the identifier that the frame
has last. The one response that does not come at once is that of a write that waits, and it does so
too however the write ends. A text that is not JSON is refused without a name or an identifier. -/
theorem response_belongs_to_request (s : Session) (b : Broker σ) (text : String) :
    (∀ members, Json.ofText text = .ok (.object members) →
      (∃ written, Json.writtenMembers text = .ok written ∧
        ∀ name, members.lookup name = (written.reverse.find? (·.1 = name)).map (·.2)) ∧
      (∀ r ∈ (s.handleText b text).1, r.BelongsTo members) ∧
      ((s.handleText b text).1 = none → ∃ request, Request.decode text = .ok request ∧
        s.Awaits b request ∧
        ∀ outcome now, ∀ r ∈ writeAnswer request now outcome, r.BelongsTo members)) ∧
    (∀ e, Json.ofText text = .error e →
      ∃ body, (s.handleText b text).1 = some (.error "" .null body b.clock.millis) ∧
        body.number = 400) := by
  constructor
  · intro members hframe
    refine ⟨Json.lookup_of_ofText hframe, ?_⟩
    cases hdecode : Request.decode text with
    | error u =>
      have hnamed := Request.named_of_decode_eq_error hframe hdecode
      rw [handleText, hdecode]
      refine ⟨?_, nofun⟩
      intro r hr
      cases hr
      exact Response.belongsTo ⟨rfl, rfl⟩ hnamed
    | ok request =>
      have hnamed := Request.named_of_decode_eq_ok hframe hdecode
      rw [handleText, hdecode]
      rcases hh : s.handle b request with ⟨answer, s', b'⟩
      have hhandled := handled_of_handle hh
      refine ⟨?_, ?_⟩
      · intro r hr
        exact Response.belongsTo (named_of_handled hhandled r (by simpa [hh] using hr)) hnamed
      · intro hnone
        obtain rfl : answer = none := by simpa [hh] using hnone
        have hawaits := awaits_of_handled hhandled
        refine ⟨request, rfl, hawaits, ?_⟩
        intro outcome now r hr
        obtain ⟨-, path, value, -, ha, -⟩ := hawaits
        exact Response.belongsTo (named_of_mem_writeAnswer ha hr) hnamed
  · intro e he
    have hdecode : Request.decode text =
        .error ⟨"", .null, "invalid JSON: " ++ e.messageIn text⟩ := by
      rw [Request.decode, he]
    rw [handleText, hdecode]
    exact ⟨_, rfl, rfl⟩

def repetitive : String :=
  "\x7b\"requestId\":1,\"action\":\"set\",\"path\":\"Trunk.IsLit\",\"requestId\":[null],\"action\":\"get\"\x7d"

theorem response_belongs_to_request_last : ∃ members r,
    Json.ofText repetitive = .ok (.object members) ∧
    (Switchboard.loader.handleText Switchboard.loaded.broker repetitive).1 = some r ∧
    r.BelongsTo members ∧ r.toJson.get? "action" = some (.text "get") ∧
    r.toJson.get? "requestId" = some (.array [.null]) := by
  have hframe : Json.ofText repetitive = .ok (.object [("action", .text "get"),
      ("path", .text "Trunk.IsLit"), ("requestId", .array [.null])]) := by cbv
  obtain ⟨hobject, -⟩ :=
    response_belongs_to_request Switchboard.loader Switchboard.loaded.broker repetitive
  obtain ⟨-, hbelongs, -⟩ := hobject _ hframe
  have hanswered :
      (Switchboard.loader.handleText Switchboard.loaded.broker repetitive).1.isSome = true := by
    decide +kernel
  obtain ⟨r, hr⟩ := Option.isSome_iff_exists.mp hanswered
  have hr' := hbelongs r hr
  exact ⟨_, r, hframe, hr, hr', hr'.1, hr'.2⟩

end Session

end SignalBroker
