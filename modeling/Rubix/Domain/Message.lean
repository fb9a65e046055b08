/-
# `Rubix.Domain.Message` — the delivery state machine and the message entity

    Pending → Sending → Sent → Delivered → Read
       ↓         ↓        ↓        ↓
     Failed    Failed   Failed   Failed (retryable) → Pending

A message is built in `Pending` and only `transitionState` moves it; every
timestamp is an argument, as is the UUID `build` draws.
-/
import Mathlib.Data.List.Sort
import Rubix.Domain.Fingerprint

namespace Rubix

/-! ## The state machine -/

/-- Message delivery lifecycle states. -/
inductive MessageState where
  | pending
  | sending
  | sent (sentAt : DateTime)
  | delivered (deliveredAt : DateTime)
  | read (readAt : DateTime)
  | failed (failedAt : DateTime) (retryable : Bool)
  deriving DecidableEq

/-- Errors specific to message state transitions. -/
inductive MessageStateError where
  | invalidTransition (source target : MessageState)
  | terminalState
  deriving DecidableEq

namespace MessageState

def isTerminal : MessageState → Bool
  | .read _ | .failed _ _ => true
  | _ => false

def isDelivered : MessageState → Bool
  | .delivered _ | .read _ => true
  | _ => false

/-- The transition table of `transition_to`. -/
def validTransition : MessageState → MessageState → Bool
  | .pending, .sending | .pending, .failed _ _ => true
  | .sending, .sent _ | .sending, .failed _ _ => true
  | .sent _, .delivered _ | .sent _, .failed _ _ => true
  | .delivered _, .read _ | .delivered _, .failed _ _ => true
  | .read _, _ => false
  | .failed _ true, .pending => true
  | .failed _ _, _ => false
  | _, _ => false

/-- `MessageState::transition_to` -/
def transitionTo (self newState : MessageState) : Except MessageStateError MessageState :=
  if validTransition self newState then .ok newState
  else .error (.invalidTransition self newState)

/-- The derived `Debug` text. -/
def debug [Chrono] : MessageState → String
  | .pending => "Pending"
  | .sending => "Sending"
  | .sent t => "Sent \x7b sent_at: " ++ Chrono.debug t ++ " \x7d"
  | .delivered t => "Delivered \x7b delivered_at: " ++ Chrono.debug t ++ " \x7d"
  | .read t => "Read \x7b read_at: " ++ Chrono.debug t ++ " \x7d"
  | .failed t retryable =>
      "Failed \x7b failed_at: " ++ Chrono.debug t ++ ", retryable: " ++
        (if retryable then "true" else "false") ++ " \x7d"

end MessageState

/-- The `Display` text of a transition error. -/
def MessageStateError.toString [Chrono] : MessageStateError → String
  | .invalidTransition s t => "invalid state transition from " ++ s.debug ++ " to " ++ t.debug
  | .terminalState => "terminal state reached"

/-! ## The entity -/

def maxRecipients : Nat := 50

/-- Type of message content for UI rendering. -/
inductive ContentType where
  | text | image | file | voice
  deriving DecidableEq

/-- A chat message. -/
structure Message where
  id : Uuid
  senderFingerprint : Fingerprint
  recipientFingerprints : List Fingerprint
  content : List UInt8
  contentType : ContentType
  state : MessageState
  createdAt : DateTime
  sentAt : Option DateTime
  deliveredAt : Option DateTime
  readAt : Option DateTime
  deriving DecidableEq

/-- Builder for `Message`; the setters of the source are field updates. -/
structure MessageBuilder where
  senderFingerprint : Option Fingerprint := none
  recipientFingerprints : List Fingerprint := []
  content : Option (List UInt8) := none
  contentType : ContentType := .text

/-- `Vec::dedup`: drop an element equal to the one before it. -/
def dedup {α : Type} [DecidableEq α] : List α → List α
  | [] => []
  | [a] => [a]
  | a :: b :: l => if a = b then dedup (b :: l) else a :: dedup (b :: l)

/-- `MessageBuilder::build`, on the UUID and the clock reading it draws. -/
def MessageBuilder.build (b : MessageBuilder) (id : Uuid) (now : DateTime) :
    DomainResult Message :=
  match b.senderFingerprint with
  | none => .error (.validation "sender_fingerprint" "required")
  | some sender =>
      if b.recipientFingerprints.isEmpty then
        .error (.validation "recipient_fingerprints" "at least one recipient required")
      else if maxRecipients < b.recipientFingerprints.length then
        .error (.resourceLimit s!"recipients exceed {maxRecipients}")
      else
        let recipients := dedup (b.recipientFingerprints.insertionSort Fingerprint.le)
        match b.content with
        | none => .error (.validation "content" "required")
        | some content =>
            match validateMessageContent content with
            | .error e => .error e
            | .ok () => .ok
                { id := id
                  senderFingerprint := sender
                  recipientFingerprints := recipients
                  content := content
                  contentType := b.contentType
                  state := .pending
                  createdAt := now
                  sentAt := none
                  deliveredAt := none
                  readAt := none }

namespace Message

/-- `Message::is_to` -/
def isTo (m : Message) (fingerprint : Fingerprint) : Bool :=
  m.recipientFingerprints.any fun fp => fp.constantTimeEq fingerprint

/-- `Message::is_group` -/
def isGroup (m : Message) : Bool := decide (1 < m.recipientFingerprints.length)

/-- `Message::transition_state`: move, then stamp the field of the new state. -/
def transitionState [Chrono] (m : Message) (newState : MessageState) : DomainResult Message :=
  match m.state.transitionTo newState with
  | .error e => .error (.validation "message_state" e.toString)
  | .ok s =>
      let m' := { m with state := s }
      .ok (match s with
        | .sent t => { m' with sentAt := some t }
        | .delivered t => { m' with deliveredAt := some t }
        | .read t => { m' with readAt := some t }
        | _ => m')

variable [Chrono]

def markSending (m : Message) : DomainResult Message := m.transitionState .sending
def markSent (m : Message) (now : DateTime) : DomainResult Message := m.transitionState (.sent now)
def markDelivered (m : Message) (now : DateTime) : DomainResult Message :=
  m.transitionState (.delivered now)
def markRead (m : Message) (now : DateTime) : DomainResult Message := m.transitionState (.read now)
def markFailed (m : Message) (retryable : Bool) (now : DateTime) : DomainResult Message :=
  m.transitionState (.failed now retryable)

/-! ## Transitions -/

theorem transitionState_ok {m : Message} {s : MessageState}
    (h : m.state.validTransition s = true) :
    ∃ m', m.transitionState s = .ok m' ∧ m'.state = s ∧ m'.id = m.id := by
  simp only [transitionState, MessageState.transitionTo, h, if_true]
  cases s with
  | pending | sending | sent t | delivered t | read t | failed t r => exact ⟨_, rfl, rfl, rfl⟩

theorem transitionState_error {m : Message} {s : MessageState}
    (h : m.state.validTransition s = false) :
    m.transitionState s =
      .error (.validation "message_state" (MessageStateError.invalidTransition m.state s).toString) := by
  simp [transitionState, MessageState.transitionTo, h]

/-- A message still pending cannot be delivered: it has not been sent. -/
theorem markDelivered_of_pending {m : Message} (h : m.state = .pending) (now : DateTime) :
    ∃ e, m.markDelivered now = .error e := by
  refine ⟨_, transitionState_error ?_⟩
  rw [h]
  rfl

end Message

/-- What it takes for a message to be built, and which message that is. -/
theorem MessageBuilder.build_eq_ok_iff {b : MessageBuilder} {id : Uuid} {now : DateTime}
    {m : Message} :
    b.build id now = .ok m ↔ ∃ sender content, b.senderFingerprint = some sender ∧
      b.recipientFingerprints ≠ [] ∧ b.recipientFingerprints.length ≤ maxRecipients ∧
      b.content = some content ∧ validateMessageContent content = .ok () ∧
      m = ⟨id, sender, dedup (b.recipientFingerprints.insertionSort Fingerprint.le), content,
        b.contentType, .pending, now, none, none, none⟩ := by
  constructor
  · intro h
    rw [MessageBuilder.build] at h
    split at h
    · exact nomatch h
    · next sender hsender =>
        split at h
        · exact nomatch h
        · next hnonempty =>
            split at h
            · exact nomatch h
            · next hroom =>
                dsimp only at h
                split at h
                · exact nomatch h
                · next content hcontent =>
                    split at h
                    · exact nomatch h
                    · next hvalid =>
                        rw [List.isEmpty_iff] at hnonempty
                        exact ⟨sender, content, hsender, hnonempty, Nat.le_of_not_lt hroom, hcontent,
                          hvalid, (Except.ok.inj h).symm⟩
  · rintro ⟨sender, content, hsender, hnonempty, hroom, hcontent, hvalid, rfl⟩
    have hnotEmpty : ¬ b.recipientFingerprints.isEmpty = true := by
      rw [List.isEmpty_iff]
      exact hnonempty
    rw [MessageBuilder.build, hsender]
    dsimp only
    rw [if_neg hnotEmpty, if_neg (Nat.not_lt.mpr hroom), hcontent]
    dsimp only
    rw [hvalid]

/-- A freshly built message is pending and carries the builder's content. -/
theorem MessageBuilder.build_ok {b : MessageBuilder} {id : Uuid} {now : DateTime} {m : Message}
    (h : b.build id now = .ok m) :
    m.state = .pending ∧ b.content = some m.content ∧
      1 ≤ m.content.length ∧ m.content.length ≤ 65536 := by
  obtain ⟨sender, content, -, -, -, hcontent, hvalid, rfl⟩ := build_eq_ok_iff.mp h
  exact ⟨rfl, hcontent, validateMessageContent_ok_iff.mp hvalid⟩

/-- A freshly built message has the timestamp of its creation and no other. -/
theorem MessageBuilder.build_unsent {b : MessageBuilder} {id : Uuid} {now : DateTime} {m : Message}
    (h : b.build id now = .ok m) :
    m.state = .pending ∧ m.createdAt = now ∧ m.sentAt = none ∧ m.deliveredAt = none ∧
      m.readAt = none := by
  obtain ⟨sender, content, -, -, -, -, -, rfl⟩ := build_eq_ok_iff.mp h
  exact ⟨rfl, rfl, rfl, rfl, rfl⟩

end Rubix
