/-
# `Rubix.Domain.Timestamps` — the state of a message and its timestamp fields

`transition_state` works on the message in place: it assigns the state, then
the timestamp field of that state, and a `?` stands between the table and both
assignments.  `transitionStateInPlace` is that method with the message as its
state; what it leaves behind is what `transitionState` returns, and an error
leaves the message it found (`transitionStateInPlace_computes`).

    Sent t        sent_at = t
    Delivered t   delivered_at = t, sent_at present
    Read t        read_at = t, delivered_at and sent_at present

The timestamps of earlier states need no history: the table enters each state
from the one before it only, whatever a retry left in the fields.
-/
import Rubix.Domain.Delivery
import Rubix.Lib.InPlace

namespace Rubix

open Runs

namespace Message

/-- What no transition touches. -/
structure SameLetter (m m' : Message) : Prop where
  id : m'.id = m.id
  senderFingerprint : m'.senderFingerprint = m.senderFingerprint
  recipientFingerprints : m'.recipientFingerprints = m.recipientFingerprints
  content : m'.content = m.content
  contentType : m'.contentType = m.contentType
  createdAt : m'.createdAt = m.createdAt

/-- The timestamp fields agree with the state. -/
def FieldsAgree (m : Message) : Prop :=
  match m.state with
  | .sent t => m.sentAt = some t
  | .delivered t => m.deliveredAt = some t ∧ m.sentAt.isSome
  | .read t => m.readAt = some t ∧ m.sentAt.isSome ∧ m.deliveredAt.isSome
  | .pending | .sending | .failed _ _ => True

theorem SameLetter.refl (m : Message) : SameLetter m m := ⟨rfl, rfl, rfl, rfl, rfl, rfl⟩

theorem SameLetter.trans {m₁ m₂ m₃ : Message} (h : SameLetter m₁ m₂) (h' : SameLetter m₂ m₃) :
    SameLetter m₁ m₃ where
  id := h'.id.trans h.id
  senderFingerprint := h'.senderFingerprint.trans h.senderFingerprint
  recipientFingerprints := h'.recipientFingerprints.trans h.recipientFingerprints
  content := h'.content.trans h.content
  contentType := h'.contentType.trans h.contentType
  createdAt := h'.createdAt.trans h.createdAt

theorem FieldsAgree.built {m : Message} {b : MessageBuilder} {id : Uuid}
    {created : DateTime} (h : b.build id created = .ok m) : m.FieldsAgree := by
  obtain ⟨hstate, -⟩ := MessageBuilder.build_unsent h
  rw [FieldsAgree, hstate]
  trivial

variable [Chrono]

/-- `Message::transition_state` on `&mut self`. -/
def transitionStateInPlace (newState : MessageState) :
    EStateM DomainError Message Unit := do
  let current := (← get).state
  match current.transitionTo newState with
  | .error e => throw (.validation "message_state" e.toString)
  | .ok s =>
      modify fun m => { m with state := s }
      match (← get).state with
      | .sent t => modify fun m => { m with sentAt := some t }
      | .delivered t => modify fun m => { m with deliveredAt := some t }
      | .read t => modify fun m => { m with readAt := some t }
      | _ => pure ()

/-- The method in place is the function: its answer, and the message behind it. -/
theorem transitionStateInPlace_computes (newState : MessageState) :
    InPlace.Computes (transitionStateInPlace newState) fun m => m.transitionState newState := by
  intro m
  dsimp only
  rw [transitionState]
  cases ht : m.state.transitionTo newState with
  | error e => simp [transitionStateInPlace, ht]
  | ok s =>
      cases s with
      | pending | sending | sent t | delivered t | read t | failed t r =>
          simp [transitionStateInPlace, ht]

/-- The message behind a call, whether it succeeds or not. -/
def attempt (m : Message) (target : MessageState) : Message :=
  match (transitionStateInPlace target).run m with
  | .ok () m' => m'
  | .error _ m' => m'

variable {m : Message}

theorem attempt_eq (m : Message) (target : MessageState) :
    m.attempt target = (m.transitionState target).toOption.getD m := by
  have hbehind : m.attempt target = InPlace.behind (transitionStateInPlace target) m := by
    rw [attempt, InPlace.behind]
    cases (transitionStateInPlace target).run m with
    | ok u m' => rfl
    | error e m' => rfl
  rw [hbehind]
  exact (transitionStateInPlace_computes target).behind_eq m

/-- The calls of `mark_*` are transitions. -/
theorem attempt_target (m : Message) (op : MessageOp) : m.attempt op.target = op.step m := by
  rw [attempt_eq, MessageOp.step, MessageOp.apply_eq]

theorem attempt_of_refused {target : MessageState} (h : m.state.validTransition target = false) :
    m.attempt target = m := by
  rw [attempt_eq, transitionState_error h]
  rfl

theorem attempt_of_valid {target : MessageState} (h : m.state.validTransition target = true) :
    m.attempt target = match target with
      | .sent t => { m with state := .sent t, sentAt := some t }
      | .delivered t => { m with state := .delivered t, deliveredAt := some t }
      | .read t => { m with state := .read t, readAt := some t }
      | s => { m with state := s } := by
  rw [attempt_eq, transitionState, MessageState.transitionTo, if_pos h]
  cases target with
  | pending | sending | sent t | delivered t | read t | failed t r => rfl

theorem SameLetter.attempt (m : Message) (target : MessageState) :
    SameLetter m (m.attempt target) := by
  cases hvalid : m.state.validTransition target with
  | false =>
      rw [attempt_of_refused hvalid]
      exact SameLetter.refl m
  | true =>
      rw [attempt_of_valid hvalid]
      cases target with
      | pending | sending | sent t | delivered t | read t | failed t r =>
          exact ⟨rfl, rfl, rfl, rfl, rfl, rfl⟩

/-- One call: the state is entered from the one before it, whose fields agree. -/
theorem FieldsAgree.attempt (h : m.FieldsAgree) (target : MessageState) :
    (m.attempt target).FieldsAgree := by
  cases hvalid : m.state.validTransition target with
  | false =>
      rw [attempt_of_refused hvalid]
      exact h
  | true =>
      rw [attempt_of_valid hvalid]
      rcases MessageState.validTransition_cases hvalid with ⟨-, rfl⟩ | ⟨now, -, rfl⟩ |
        ⟨t, now, hs, rfl⟩ | ⟨t, now, hs, rfl⟩ | ⟨now, r, -, rfl⟩ | ⟨-, rfl⟩
      · trivial
      · show some now = some now
        rfl
      · rw [FieldsAgree, hs] at h
        have hsent : m.sentAt = some t := h
        exact ⟨rfl, by rw [hsent]; rfl⟩
      · rw [FieldsAgree, hs] at h
        obtain ⟨hdelivered, hsent⟩ := h
        exact ⟨rfl, hsent, by rw [hdelivered]; rfl⟩
      · trivial
      · trivial

/-- In every life of a built message, whatever is asked of it: the fields agree
with the state, what was written stays, and a call that fails changes nothing. -/
theorem fields_agree_throughout {b : MessageBuilder} {id : Uuid} {created : DateTime}
    (h : b.build id created = .ok m) (targets : List MessageState) :
    Always attempt (fun m' => m'.FieldsAgree ∧ SameLetter m m') targets m ∧
      Guarded attempt (fun m' target =>
        ∀ e m'', (transitionStateInPlace target).run m' = .error e m'' → m'' = m') targets m := by
  constructor
  · refine always_of_invariant ⟨FieldsAgree.built h, SameLetter.refl m⟩ ?_ targets
    rintro m' target ⟨hagree, hsame⟩
    exact ⟨hagree.attempt target, hsame.trans (SameLetter.attempt m' target)⟩
  · intro before target _ e m'' herror
    exact (transitionStateInPlace_computes target).unchanged herror

/-- The same of the calls the use cases make. -/
theorem fields_agree_of_marks {b : MessageBuilder} {id : Uuid} {created : DateTime}
    (h : b.build id created = .ok m) (ops : List MessageOp) :
    Always MessageOp.step (fun m' => m'.FieldsAgree ∧ SameLetter m m') ops m := by
  refine always_of_invariant ⟨FieldsAgree.built h, SameLetter.refl m⟩ ?_ ops
  rintro m' op ⟨hagree, hsame⟩
  rw [← attempt_target]
  exact ⟨hagree.attempt op.target, hsame.trans (SameLetter.attempt m' op.target)⟩

end Message

namespace Delivery

/-- A delivery that fails is retried, refused a receipt too early, and read. -/
def retriedAndRead : List MessageState :=
  [.sending, .sent 1, .delivered 2, .failed 3 true, .pending, .read 4, .sending, .sent 5,
    .delivered 6, .read 7]

theorem retriedAndRead_fields_agree :
    Always Message.attempt (fun m' => m'.FieldsAgree ∧ Message.SameLetter message m')
        retriedAndRead message ∧
      Guarded Message.attempt (fun m' target => ∀ e m'',
        (Message.transitionStateInPlace target).run m' = .error e m'' → m'' = m')
        retriedAndRead message :=
  Message.fields_agree_throughout (rfl : builder.build message.id 0 = .ok message) retriedAndRead

end Delivery
end Rubix
