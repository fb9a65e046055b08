/-
# `Rubix.Domain.Producible` — the messages that can come about

A message is built and then moved by `transition_state`; nothing else in the
domain makes one or changes one.  Which messages that gives is read off their
fields (`producible_iff`):

    recipients    one to fifty, strictly ascending by their bytes
    content       one to 65536 bytes
    timestamps    those of the state, a receipt only of what was sent, and
                  `read_at` only in `Read`

A failed attempt that is retried leaves its timestamps behind, so a message
that is pending again can show when it was sent and delivered.
-/
import Rubix.Domain.Recipients
import Rubix.Domain.Timestamps

namespace Rubix.Message

open Runs

/-- What the source promises of a message. -/
structure EntityInvariants (m : Message) : Prop where
  count : 1 ≤ m.recipientFingerprints.length ∧ m.recipientFingerprints.length ≤ maxRecipients
  nodup : m.recipientFingerprints.Nodup
  content : 1 ≤ m.content.length ∧ m.content.length ≤ 65536
  agree : m.FieldsAgree

/-- The timestamps of a message that has come about, beside those of its state. -/
structure Traced (m : Message) : Prop where
  sent_first : m.deliveredAt.isSome = true → m.sentAt.isSome = true
  read_last : ∀ t, m.readAt = some t → m.state = .read t

variable {m : Message}

/-! ## What is built -/

theorem EntityInvariants.built {b : MessageBuilder} {id : Uuid} {created : DateTime}
    (h : b.build id created = .ok m) : m.EntityInvariants where
  count := by
    obtain ⟨⟨-, -, hfew⟩, -⟩ := MessageBuilder.build_ok_iff.mp ⟨m, h⟩
    rw [MessageBuilder.build_recipients h, Fingerprint.length_sortDedup]
    exact hfew
  nodup := by
    rw [MessageBuilder.build_recipients h]
    exact (Fingerprint.pairwise_sortDedup _).imp fun hlt => hlt.2
  content := (MessageBuilder.build_ok h).2.2
  agree := FieldsAgree.built h

theorem Traced.built {b : MessageBuilder} {id : Uuid} {created : DateTime}
    (h : b.build id created = .ok m) : m.Traced := by
  obtain ⟨-, -, -, hdelivered, hread⟩ := MessageBuilder.build_unsent h
  constructor
  · intro hsome
    rw [hdelivered] at hsome
    cases hsome
  · intro t ht
    rw [hread] at ht
    cases ht

/-- The message as it was built. -/
def unsent (m : Message) : Message :=
  { m with state := .pending, sentAt := none, deliveredAt := none, readAt := none }

/-- A builder that is given the fields of the message makes its beginning. -/
theorem build_unsent_of (hinv : m.EntityInvariants)
    (hsorted : m.recipientFingerprints.Pairwise Fingerprint.lt) :
    (⟨some m.senderFingerprint, m.recipientFingerprints, some m.content, m.contentType⟩ :
      MessageBuilder).build m.id m.createdAt = .ok m.unsent := by
  refine MessageBuilder.build_eq_ok_iff.mpr ⟨m.senderFingerprint, m.content, rfl, ?_,
    hinv.count.2, rfl, validateMessageContent_ok_iff.mpr hinv.content, ?_⟩
  · exact List.length_pos_iff.mp hinv.count.1
  · have hkept := Fingerprint.sortDedup_eq_self hsorted
    rw [Fingerprint.sortDedup] at hkept
    rw [hkept]
    rfl

variable [Chrono]

/-- Built, and moved by calls of `transition_state`, refused ones among them. -/
def Producible (m : Message) : Prop :=
  ∃ (b : MessageBuilder) (id : Uuid) (created : DateTime) (m₀ : Message)
    (targets : List MessageState),
    b.build id created = .ok m₀ ∧ run attempt targets m₀ = m

/-! ## What a transition keeps -/

/-- A transition stamps a receipt on what was sent only, and leaves `Read` never. -/
theorem Traced.attempt (h : m.Traced) (hagree : m.FieldsAgree) (target : MessageState) :
    (m.attempt target).Traced := by
  cases hvalid : m.state.validTransition target with
  | false =>
      rw [attempt_of_refused hvalid]
      exact h
  | true =>
      -- no transition starts from `Read`
      have hunread : m.readAt = none := by
        cases hread : m.readAt with
        | none => rfl
        | some t =>
            rw [h.read_last t hread] at hvalid
            cases hvalid
      have hfresh : ∀ t s, m.readAt = some t → s = MessageState.read t := by
        intro t s ht
        rw [hunread] at ht
        cases ht
      rw [attempt_of_valid hvalid]
      rcases MessageState.validTransition_cases hvalid with ⟨-, rfl⟩ | ⟨now, -, rfl⟩ |
        ⟨t, now, hs, rfl⟩ | ⟨t, now, hs, rfl⟩ | ⟨now, r, -, rfl⟩ | ⟨-, rfl⟩
      · exact ⟨h.sent_first, fun t => hfresh t _⟩
      · exact ⟨fun _ => rfl, fun t => hfresh t _⟩
      · rw [FieldsAgree, hs] at hagree
        have hsent : m.sentAt = some t := hagree
        refine ⟨fun _ => ?_, fun t => hfresh t _⟩
        show m.sentAt.isSome = true
        rw [hsent]
        rfl
      · refine ⟨h.sent_first, ?_⟩
        intro t ht
        cases ht
        rfl
      · exact ⟨h.sent_first, fun t => hfresh t _⟩
      · exact ⟨h.sent_first, fun t => hfresh t _⟩

theorem EntityInvariants.attempt (h : m.EntityInvariants) (target : MessageState) :
    (m.attempt target).EntityInvariants := by
  have hsame := SameLetter.attempt m target
  refine ⟨?_, ?_, ?_, h.agree.attempt target⟩
  · rw [hsame.recipientFingerprints]
    exact h.count
  · rw [hsame.recipientFingerprints]
    exact h.nodup
  · rw [hsame.content]
    exact h.content

/-! ## How a message comes about -/

/-- An attempt that leaves these timestamps behind and is retried. -/
def retried : Option DateTime → Option DateTime → List MessageState
  | none, _ => []
  | some s, none => [.sending, .sent s, .failed 0 true, .pending]
  | some s, some d => [.sending, .sent s, .delivered d, .failed 0 true, .pending]

/-- The last attempt, on the way to the state of a message. -/
def lastAttempt (m : Message) : List MessageState :=
  match m.state with
  | .pending => []
  | .sending => [.sending]
  | .sent t => [.sending, .sent t]
  | .delivered t => [.sending, .sent (m.sentAt.getD 0), .delivered t]
  | .read t => [.sending, .sent (m.sentAt.getD 0), .delivered (m.deliveredAt.getD 0), .read t]
  | .failed t r => [.failed t r]

theorem run_retried {s d : Option DateTime} (h : d.isSome = true → s.isSome = true) :
    run attempt (retried s d) m.unsent = { m.unsent with sentAt := s, deliveredAt := d } := by
  cases s with
  | none =>
      cases d with
      | none => rfl
      | some d => cases h rfl
  | some s =>
      cases d with
      | none => rfl
      | some d => rfl

theorem run_lastAttempt (hagree : m.FieldsAgree) (htraced : m.Traced) :
    run attempt m.lastAttempt { m.unsent with sentAt := m.sentAt, deliveredAt := m.deliveredAt }
      = m := by
  obtain ⟨id, sender, recipients, content, contentType, state, created, sent, delivered, read⟩ := m
  have hread : ∀ t, read = some t → state = .read t := htraced.read_last
  cases state with
  | pending | sending | failed _ _ =>
      cases read with
      | none => rfl
      | some t => cases hread t rfl
  | sent t =>
      have hsent : sent = some t := hagree
      subst hsent
      cases read with
      | none => rfl
      | some t' => cases hread t' rfl
  | delivered t =>
      obtain ⟨hdelivered, hsome⟩ : delivered = some t ∧ sent.isSome = true := hagree
      subst hdelivered
      obtain ⟨s, rfl⟩ := Option.isSome_iff_exists.mp hsome
      cases read with
      | none => rfl
      | some t' => cases hread t' rfl
  | read t =>
      obtain ⟨hread', hsome, hsome'⟩ : read = some t ∧ sent.isSome = true ∧
        delivered.isSome = true := hagree
      subst hread'
      obtain ⟨s, rfl⟩ := Option.isSome_iff_exists.mp hsome
      obtain ⟨d, rfl⟩ := Option.isSome_iff_exists.mp hsome'
      rfl

/-- The messages that can come about are those whose fields say so. -/
theorem producible_iff (m : Message) :
    m.Producible ↔
      m.EntityInvariants ∧ m.recipientFingerprints.Pairwise Fingerprint.lt ∧ m.Traced := by
  constructor
  · rintro ⟨b, id, created, m₀, targets, hbuilt, rfl⟩
    have hkept : Always attempt (fun m' => m'.EntityInvariants ∧ SameLetter m₀ m' ∧ m'.Traced)
        targets m₀ := by
      refine always_of_invariant ⟨EntityInvariants.built hbuilt, SameLetter.refl m₀,
        Traced.built hbuilt⟩ ?_ targets
      rintro m' target ⟨hinv, hsame, htraced⟩
      exact ⟨hinv.attempt target, hsame.trans (SameLetter.attempt m' target),
        htraced.attempt hinv.agree target⟩
    obtain ⟨hinv, hsame, htraced⟩ := hkept.last
    refine ⟨hinv, ?_, htraced⟩
    rw [hsame.recipientFingerprints, MessageBuilder.build_recipients hbuilt]
    exact Fingerprint.pairwise_sortDedup _
  · rintro ⟨hinv, hsorted, htraced⟩
    refine ⟨_, m.id, m.createdAt, m.unsent,
      retried m.sentAt m.deliveredAt ++ m.lastAttempt, build_unsent_of hinv hsorted, ?_⟩
    rw [run_append, run_retried htraced.sent_first]
    exact run_lastAttempt hinv.agree htraced

end Rubix.Message
