import Mathlib
import SignalBroker.Broker.Error

namespace SignalBroker

namespace Text

/-- Two texts differ in characters outside ASCII at most. -/
def SameAscii : List Char → List Char → Prop :=
  List.Forall₂ fun c d => c = d ∨ 0x80 ≤ c.toNat ∧ 0x80 ≤ d.toNat

variable {word cs ds : List Char}

theorem SameAscii.symm (h : SameAscii cs ds) : SameAscii ds cs :=
  h.flip.imp fun _ _ hcd => hcd.imp Eq.symm And.symm

theorem SameAscii.eq (hword : ∀ c ∈ word, c.toNat < 0x80) (h : SameAscii word cs) : cs = word := by
  induction h with
  | nil => rfl
  | @cons c d word cs hcd _ ih =>
    obtain ⟨hc, hword⟩ := List.forall_mem_cons.mp hword
    obtain rfl | ⟨hge, -⟩ := hcd
    · rw [ih hword]
    · exact absurd hc (Nat.not_lt_of_le hge)

theorem SameAscii.carries (hword : ∀ c ∈ word, c.toNat < 0x80) (h : SameAscii cs ds)
    (hin : word <:+: cs) : word <:+: ds := by
  obtain ⟨before, after, rfl⟩ := hin
  rw [List.append_assoc] at h
  have hrest := List.forall₂_drop_append ds before (word ++ after) h.symm
  have hmiddle := List.forall₂_take_append _ word after hrest
  have heq : (ds.drop before.length).take word.length = word := SameAscii.eq hword (SameAscii.symm hmiddle)
  rw [← heq]
  exact (List.take_prefix _ _).isInfix.trans (List.drop_suffix _ _).isInfix

theorem SameAscii.infix_iff (hword : ∀ c ∈ word, c.toNat < 0x80) (h : SameAscii cs ds) :
    word <:+: cs ↔ word <:+: ds :=
  ⟨h.carries hword, h.symm.carries hword⟩

/-- No beginning of a word ends the wording, so the word cannot go on behind it. -/
def EndsClear (word wording : List Char) : Prop :=
  ∀ i < word.length, 0 < i → ¬word.take i <:+ wording

/-- The wording begins with no ending of a word, nor does such an ending go across it, so the word
cannot have begun in front of it. -/
def StartsClear (word wording : List Char) : Prop :=
  ∀ i < word.length, 0 < i → ¬word.drop i <+: wording ∧ ¬wording <+: word.drop i

instance (word wording : List Char) : Decidable (EndsClear word wording) :=
  inferInstanceAs (Decidable (∀ i < word.length, _))

instance (word wording : List Char) : Decidable (StartsClear word wording) :=
  inferInstanceAs (Decidable (∀ i < word.length, _))

theorem infix_append_iff_of_split
    (h : ∀ i < word.length, 0 < i → word.take i <:+ cs → ¬word.drop i <+: ds) :
    word <:+: cs ++ ds ↔ word <:+: cs ∨ word <:+: ds := by
  rw [List.infix_append_iff, ← or_assoc, or_iff_left_of_imp]
  rintro ⟨u, v, rfl, hu, hv⟩
  obtain rfl | hnil := eq_or_ne u []
  · exact .inr hv.isInfix
  obtain rfl | hvnil := eq_or_ne v []
  · rw [List.append_nil]
    exact .inl hu.isInfix
  have hlt : u.length < (u ++ v).length := by
    have := List.length_pos_iff.mpr hvnil
    rw [List.length_append]
    omega
  have hacross := h u.length hlt (List.length_pos_iff.mpr hnil)
  rw [List.take_left, List.drop_left] at hacross
  exact absurd hv (hacross hu)

theorem EndsClear.infix_append_iff {wording : List Char} (h : EndsClear word wording)
    (rest : List Char) : word <:+: wording ++ rest ↔ word <:+: wording ∨ word <:+: rest :=
  infix_append_iff_of_split fun i hlt hpos hends => absurd hends (h i hlt hpos)

theorem StartsClear.infix_append_iff {wording : List Char} (h : StartsClear word wording)
    (text rest : List Char) :
    word <:+: text ++ (wording ++ rest) ↔ word <:+: text ∨ word <:+: wording ++ rest := by
  refine infix_append_iff_of_split fun i hlt hpos _ hstarts => ?_
  obtain ⟨hinside, hacross⟩ := h i hlt hpos
  obtain hle | hle := List.prefix_or_prefix_of_prefix hstarts (List.prefix_append wording rest)
  · exact hinside hle
  · exact hacross hle

end Text

open Text

/-- A piece of a message: fixed wording, or a text that the message quotes. -/
inductive Piece where
  | wording (s : String)
  | quoted (s : String)

namespace Piece

def text : Piece → String
  | .wording s => s
  | .quoted s => s

def quoted? : Piece → Option String
  | .wording _ => none
  | .quoted s => some s

def emptied : Piece → Piece
  | .wording s => .wording s
  | .quoted _ => .quoted ""

def EndsClear (word : List Char) : Piece → Prop
  | .wording s => Text.EndsClear word (lower s)
  | .quoted _ => False

def StartsClear (word : List Char) : Piece → Prop
  | .wording s => Text.StartsClear word (lower s)
  | .quoted _ => False

end Piece

def Spliced (word : List Char) : List Piece → Prop
  | [] => True
  | p :: pieces =>
    (p.EndsClear word ∨ ∀ q ∈ pieces.head?, q.StartsClear word) ∧ Spliced word pieces

def lowerPieces (pieces : List Piece) : List Char :=
  pieces.flatMap fun p => lower p.text

theorem infix_lowerPieces_cons_iff {word : List Char} {p : Piece} {pieces : List Piece}
    (h : Spliced word (p :: pieces)) : word <:+: lowerPieces (p :: pieces) ↔
      word <:+: lower p.text ∨ word <:+: lowerPieces pieces := by
  rw [lowerPieces, List.flatMap_cons]
  obtain ⟨hp | hq, -⟩ := h
  · cases p with
    | wording s => exact Text.EndsClear.infix_append_iff hp _
    | quoted s => exact hp.elim
  · cases pieces with
    | nil => simp +contextual [lowerPieces, List.infix_nil]
    | cons q pieces =>
      cases q with
      | wording s => exact Text.StartsClear.infix_append_iff (hq _ rfl) _ _
      | quoted s => exact (hq _ rfl).elim

/-- A word is in spliced pieces only as part of one of them. -/
theorem infix_lowerPieces_iff {word : List Char} (hword : word ≠ []) {pieces : List Piece}
    (h : Spliced word pieces) :
    word <:+: lowerPieces pieces ↔ ∃ p ∈ pieces, word <:+: lower p.text := by
  induction pieces with
  | nil => simp [lowerPieces, List.infix_nil, hword]
  | cons p pieces ih => simp [infix_lowerPieces_cons_iff h, ih h.2]

namespace ErrorClass

def markers : List String :=
  ["not found", "not exist", "not authorized", "not have permissions"]

theorem mentions_iff {text words : String} :
    mentions text words = true ↔ words.toList <:+: lower text :=
  occurs_iff

theorem isAscii_markers : ∀ w ∈ markers, ∀ c ∈ w.toList, c.toNat < 0x80 := by
  have h : (markers.all fun w => w.toList.all fun c => decide (c.toNat < 0x80)) = true := by decide
  exact fun w hw c hc => of_decide_eq_true (List.all_eq_true.mp (List.all_eq_true.mp h w hw) c hc)

theorem ofText_congr {a b : String}
    (h : ∀ w ∈ markers, w.toList <:+: lower a ↔ w.toList <:+: lower b) : ofText a = ofText b := by
  have hsame : ∀ w ∈ markers, mentions a w = mentions b w := fun w hw =>
    Bool.eq_iff_iff.mpr (mentions_iff.trans ((h w hw).trans mentions_iff.symm))
  simp only [markers, List.forall_mem_cons] at hsame
  obtain ⟨hfound, hexist, hauthorized, hpermissions, -⟩ := hsame
  rw [ofText, ofText, hfound, hexist, hauthorized, hpermissions]

/-- The class that the words of a text speak for, in lower case as `full` has it. -/
def ofTextIn (full : String → List Char) (text : String) : ErrorClass :=
  if occurs "not found".toList (full text) || occurs "not exist".toList (full text) then .notFound
  else if occurs "not authorized".toList (full text) then .notAuthorized
  else if occurs "not have permissions".toList (full text) then .forbidden
  else .badRequest

variable {full : String → List Char}

theorem ofTextIn_eq (hfull : ∀ s, SameAscii (full s) (lower s)) (text : String) :
    ofTextIn full text = ofText text := by
  have hsame : ∀ w ∈ markers, occurs w.toList (full text) = mentions text w := fun w hw =>
    Bool.eq_iff_iff.mpr
      (occurs_iff.trans (((hfull text).infix_iff (isAscii_markers w hw)).trans occurs_iff.symm))
  simp only [markers, List.forall_mem_cons] at hsame
  obtain ⟨hfound, hexist, hauthorized, hpermissions, -⟩ := hsame
  rw [ofTextIn, ofText, hfound, hexist, hauthorized, hpermissions]

end ErrorClass

open ErrorClass (markers)

def PatternError.emptied : PatternError → PatternError
  | .empty => .empty
  | .emptySegment _ => .emptySegment ""
  | .partialWildcard _ _ => .partialWildcard "" ""

def PatternError.pieces : PatternError → List Piece
  | .empty => [.wording "invalid pattern: pattern is empty"]
  | .emptySegment pattern =>
    [.wording "invalid pattern '", .quoted pattern, .wording "': empty segment"]
  | .partialWildcard pattern segment =>
    [.wording "invalid pattern '", .quoted pattern,
      .wording "': wildcard must be a whole segment, got '", .quoted segment, .wording "'"]

namespace BrokerError

def pieces : BrokerError → List Piece
  | .invalidPattern e => e.pieces
  | .pathNotFound path => [.wording "path not found: ", .quoted path]
  | .notAuthorized subject => [.wording "not authorized to access ", .quoted subject]
  | .forbidden subject => [.wording "session does not have permissions for ", .quoted subject]
  | .readOnlyViolation path => [.wording "path is read-only: ", .quoted path]
  | .authFailed detail => [.wording "token is not authorized: ", .quoted detail]
  | .subscriptionNotFound id => [.wording "subscription not found: ", .quoted id]
  | .adapterUnavailable detail => [.wording "adapter unavailable: ", .quoted detail]
  | .duplicatePath path owner =>
    [.wording "path ", .quoted path, .wording " is already registered by adapter ", .quoted owner]
  | .badRequest detail => [.wording "bad request: ", .quoted detail]

def emptied : BrokerError → BrokerError
  | .invalidPattern e => .invalidPattern e.emptied
  | .pathNotFound _ => .pathNotFound ""
  | .notAuthorized _ => .notAuthorized ""
  | .forbidden _ => .forbidden ""
  | .readOnlyViolation _ => .readOnlyViolation ""
  | .authFailed _ => .authFailed ""
  | .subscriptionNotFound _ => .subscriptionNotFound ""
  | .adapterUnavailable _ => .adapterUnavailable ""
  | .duplicatePath _ _ => .duplicatePath "" ""
  | .badRequest _ => .badRequest ""

def payloads (e : BrokerError) : List String :=
  e.pieces.filterMap Piece.quoted?

theorem toList_message (e : BrokerError) :
    e.message.toList = e.pieces.flatMap fun p => p.text.toList := by
  cases e with
  | invalidPattern e =>
    cases e <;> dsimp only [message, PatternError.message, pieces, PatternError.pieces, Piece.text] <;>
      simp
  | _ =>
    dsimp only [message, pieces, Piece.text]
    simp

theorem lower_message (e : BrokerError) : lower e.message = lowerPieces e.pieces := by
  rw [lower, toList_message, List.flatMap_assoc]
  rfl

/-- In front of a quoted text there is wording, and so there is behind it, unless it is the end. -/
theorem spliced_pieces {w : String} (hw : w ∈ markers) (e : BrokerError) :
    Spliced w.toList e.pieces := by
  have hends : ∀ w ∈ markers, ∀ s ∈ ["invalid pattern: pattern is empty", "invalid pattern '",
      "': empty segment", "': wildcard must be a whole segment, got '", "'", "path not found: ",
      "not authorized to access ", "session does not have permissions for ", "path is read-only: ",
      "token is not authorized: ", "subscription not found: ", "adapter unavailable: ", "path ",
      " is already registered by adapter ", "bad request: "], EndsClear w.toList (lower s) := by
    decide
  have hstarts : ∀ w ∈ markers, ∀ s ∈ ["': empty segment",
      "': wildcard must be a whole segment, got '", "'", " is already registered by adapter "],
      StartsClear w.toList (lower s) := by
    decide
  have hends := hends w hw
  have hstarts := hstarts w hw
  simp only [List.forall_mem_cons] at hends hstarts
  cases e with
  | invalidPattern e =>
    cases e <;> simp [pieces, PatternError.pieces, Spliced, Piece.EndsClear, Piece.StartsClear, hends, hstarts]
  | _ => simp [pieces, Spliced, Piece.EndsClear, Piece.StartsClear, hends, hstarts]

theorem infix_message_iff {w : String} (hw : w ∈ markers) (e : BrokerError) :
    w.toList <:+: lower e.message ↔ ∃ p ∈ e.pieces, w.toList <:+: lower p.text := by
  have hne : ∀ w ∈ markers, w.toList ≠ [] := by decide
  rw [lower_message, infix_lowerPieces_iff (hne w hw) (spliced_pieces hw e)]

theorem pieces_emptied (e : BrokerError) : e.emptied.pieces = e.pieces.map Piece.emptied := by
  cases e with
  | invalidPattern e => cases e <;> rfl
  | _ => rfl

/-- Where no quoted text has the words, the message has them from its wording alone. -/
theorem infix_emptied_iff {w : String} (hw : w ∈ markers) {e : BrokerError}
    (h : ∀ s ∈ e.payloads, ¬w.toList <:+: lower s) :
    w.toList <:+: lower e.message ↔ w.toList <:+: lower e.emptied.message := by
  have hnone : ∀ w ∈ markers, ¬w.toList <:+: lower "" := by decide
  rw [infix_message_iff hw, infix_message_iff hw, pieces_emptied]
  simp only [List.mem_map, exists_exists_and_eq_and]
  refine exists_congr fun p => and_congr_right fun hp => ?_
  cases p with
  | wording s => rfl
  | quoted s => exact iff_of_false (h s (List.mem_filterMap.mpr ⟨_, hp, rfl⟩)) (hnone w hw)

theorem ofText_message_eq_notFound {e : BrokerError}
    (h : ∃ p ∈ e.pieces, "not found".toList <:+: lower p.text) :
    ErrorClass.ofText e.message = .notFound := by
  have hfound := ErrorClass.mentions_iff.mpr ((infix_message_iff List.mem_cons_self e).mpr h)
  simp [ErrorClass.ofText, hfound]

theorem ofText_unavailable (detail : String) :
    ErrorClass.ofText (message (.adapterUnavailable detail)) = ErrorClass.ofText detail := by
  have hnone : ∀ w ∈ markers, ErrorClass.mentions "adapter unavailable: " w = false := by decide
  refine ErrorClass.ofText_congr fun w hw => ?_
  have hwording := ErrorClass.mentions_iff.not.mp (Bool.eq_false_iff.mp (hnone w hw))
  rw [infix_message_iff hw]
  simp only [pieces, List.mem_cons, List.not_mem_nil, or_false, exists_eq_or_imp, exists_eq_left,
    Piece.text, hwording, false_or]

/-- The class of an error that quotes free text: whatever that text is, the message tells it. -/
theorem ofText_message_of_open {e : BrokerError} {s : String}
    (h : e = .pathNotFound s ∨ e = .subscriptionNotFound s ∨ e = .adapterUnavailable s) :
    ErrorClass.ofText e.message = e.errorClass := by
  obtain rfl | rfl | rfl := h
  · exact ofText_message_eq_notFound
      ⟨.wording "path not found: ", List.mem_cons_self, ErrorClass.mentions_iff.mp (by decide)⟩
  · exact ofText_message_eq_notFound
      ⟨.wording "subscription not found: ", List.mem_cons_self, ErrorClass.mentions_iff.mp (by decide)⟩
  · exact ofText_unavailable s

theorem ofText_emptied (e : BrokerError) :
    ErrorClass.ofText e.emptied.message = e.emptied.errorClass := by
  have hpattern : ∀ e ∈ [PatternError.empty, .emptySegment "", .partialWildcard "" ""],
      ErrorClass.ofText e.message = .badRequest := by
    decide
  have hrest : ∀ e ∈ [pathNotFound "", .notAuthorized "", .forbidden "", .readOnlyViolation "",
      .authFailed "", .subscriptionNotFound "", .adapterUnavailable "", .duplicatePath "" "",
      .badRequest ""], ErrorClass.ofText e.message = e.errorClass := by
    decide
  cases e with
  | invalidPattern e => exact hpattern _ (by cases e <;> simp [PatternError.emptied])
  | _ => exact hrest _ (by simp [emptied])

theorem errorClass_emptied {e : BrokerError} (h : ∀ s, e ≠ .adapterUnavailable s) :
    e.emptied.errorClass = e.errorClass := by
  cases e with
  | adapterUnavailable s => exact absurd rfl (h s)
  | _ => rfl

theorem ofText_message_of_payloads {e : BrokerError}
    (h : ∀ s ∈ e.payloads, ∀ w ∈ markers, ¬w.toList <:+: lower s) :
    ErrorClass.ofText e.message = e.errorClass := by
  by_cases hadapter : ∃ s, e = .adapterUnavailable s
  · obtain ⟨s, rfl⟩ := hadapter
    exact ofText_unavailable s
  · rw [← errorClass_emptied (not_exists.mp hadapter), ← ofText_emptied]
    exact ErrorClass.ofText_congr fun w hw => infix_emptied_iff hw fun s hs => h s hs w hw

variable {full : String → List Char}

/-- An error has the number that its message speaks for, unless a text that it quotes has the words of a
class itself; if it is about a path or a subscription that is not there, or about an adapter, it has that
number in any case. The words are in the message only as part of one of its pieces. Here `full` is how
texts are written in lower case, which may do anything to characters outside ASCII, also depending on
those around them. -/
theorem number_eq_classified (hfull : ∀ s, SameAscii (full s) (lower s)) (e : BrokerError) :
    ((∀ s ∈ e.payloads, ∀ w ∈ markers, ¬w.toList <:+: full s) →
      (ErrorClass.ofTextIn full e.message).number = e.number) ∧
    (∀ s, e = .pathNotFound s ∨ e = .subscriptionNotFound s ∨ e = .adapterUnavailable s →
      (ErrorClass.ofTextIn full e.message).number = e.number) ∧
    e.message.toList = (e.pieces.flatMap fun p => p.text.toList) ∧
    ∀ w ∈ markers, w.toList <:+: full e.message ↔ ∃ p ∈ e.pieces, w.toList <:+: full p.text := by
  have hsame : ∀ w ∈ markers, ∀ s, w.toList <:+: full s ↔ w.toList <:+: lower s := fun w hw s =>
    (hfull s).infix_iff (ErrorClass.isAscii_markers w hw)
  rw [ErrorClass.ofTextIn_eq hfull, number]
  refine ⟨fun h => ?_, fun s h => ?_, toList_message e, fun w hw => ?_⟩
  · rw [ofText_message_of_payloads fun s hs w hw => (hsame w hw s).not.mp (h s hs w hw)]
  · rw [ofText_message_of_open h]
  · simp only [hsame w hw, infix_message_iff hw e]

/-- Lower case that knows a capital sigma, which is another letter at the end of a word. -/
def lowerGreek (s : String) : List Char :=
  go (lower s)
where
  go : List Char → List Char
    | [] => []
    | c :: cs => (if c = 'Σ' then if cs.isEmpty then 'ς' else 'σ' else c) :: go cs

theorem sameAscii_lowerGreek (s : String) : SameAscii (lowerGreek s) (lower s) := by
  rw [lowerGreek]
  induction lower s with
  | nil => exact .nil
  | cons c cs ih =>
    refine .cons ?_ ih
    split
    · next h =>
      subst h
      exact .inr ⟨by split <;> decide, by decide⟩
    · exact .inl rfl

/-- A path and an owner that make words together, were it not for the wording between them, and an
adapter that says what is not there. -/
theorem number_eq_classified_duplicate :
    (∀ s ∈ payloads (.duplicatePath "DOES NOT" "EXIST ΣΣ"), ∀ w ∈ markers,
      ¬w.toList <:+: lowerGreek s) ∧
    (ErrorClass.ofTextIn lowerGreek (message (.duplicatePath "DOES NOT" "EXIST ΣΣ"))).number = 400 ∧
    (ErrorClass.ofTextIn lowerGreek (message (.adapterUnavailable "Path Not Found"))).number = 404 := by
  have hnone : ∀ s ∈ payloads (.duplicatePath "DOES NOT" "EXIST ΣΣ"), ∀ w ∈ markers,
      occurs w.toList (lowerGreek s) = false := by
    decide
  have hpayloads := fun s hs w hw => occurs_iff.not.mp (Bool.eq_false_iff.mp (hnone s hs w hw))
  refine ⟨hpayloads, (number_eq_classified sameAscii_lowerGreek _).1 hpayloads, ?_⟩
  rw [(number_eq_classified sameAscii_lowerGreek _).2.1 "Path Not Found" (.inr (.inr rfl))]
  decide

end BrokerError

end SignalBroker
