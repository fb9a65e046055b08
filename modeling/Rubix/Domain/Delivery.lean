/-
# `Rubix.Domain.Delivery` — whole lives of a message

The table of `transition_to` has one edge that leads back:

    Failed (retryable) → Pending

`is_terminal` counts every `Failed` as terminal, and `Delivered → Failed` is
in the table too, so that edge leaves a state called terminal and can take a
delivered message through `Pending`, `Sending` and `Sent` again.  A life
without it is one without rollback, and only such a life is
(`noRollback_iff`).

The timestamp fields follow the state on the way forward and stay as they are
on the way back.  They are ordered and belong to the current attempt as long
as no message that got as far as `Sent` is reset (`stampedInOrder_iff`).
-/
import Rubix.Domain.Message
import Rubix.Lib.Runs

namespace Rubix

open Runs

/-! ## The state alone -/

namespace MessageState

/-- An attempt at a transition; a refused one leaves the state as it is. -/
def attempt (s target : MessageState) : MessageState := (s.transitionTo target).toOption.getD s

/-- The attempt takes the edge back. -/
def resets : MessageState → MessageState → Bool
  | .failed _ true, .pending => true
  | _, _ => false

/-- On the way to the recipient's device. -/
def isUnderway : MessageState → Bool
  | .pending | .sending | .sent _ => true
  | _ => false

theorem attempt_eq (s target : MessageState) :
    s.attempt target = if s.validTransition target then target else s := by
  rw [attempt, transitionTo]
  split
  · rfl
  · rfl

/-- The edges of the table. -/
theorem validTransition_cases {s target : MessageState} (h : s.validTransition target = true) :
    (s = .pending ∧ target = .sending) ∨
      (∃ now, s = .sending ∧ target = .sent now) ∨
      (∃ t now, s = .sent t ∧ target = .delivered now) ∨
      (∃ t now, s = .delivered t ∧ target = .read now) ∨
      (∃ now r, s.isTerminal = false ∧ target = .failed now r) ∨
      (s.resets target = true ∧ target = .pending) := by
  cases s with
  | pending => cases target <;> simp_all [validTransition, isTerminal]
  | sending => cases target <;> simp_all [validTransition, isTerminal]
  | sent t => cases target <;> simp_all [validTransition, isTerminal]
  | delivered t => cases target <;> simp_all [validTransition, isTerminal]
  | read t => exact absurd h (by simp [validTransition])
  | failed t r =>
      cases r with
      | false => exact absurd h (by simp [validTransition])
      | true => cases target <;> simp_all [validTransition, resets]

/-- A terminal state is never left. -/
def TerminalKept (targets : List MessageState) : Prop :=
  Guarded attempt (fun s target => s.isTerminal = true → s.attempt target = s) targets .pending

/-- Once delivered, never underway again. -/
def DeliveryKept (targets : List MessageState) : Prop :=
  ∀ earlier later, earlier ++ later <+: targets →
    (run attempt earlier .pending).isDelivered = true →
    (run attempt (earlier ++ later) .pending).isUnderway = false

def NoRollback (targets : List MessageState) : Prop := TerminalKept targets ∧ DeliveryKept targets

theorem attempt_of_terminal {s target : MessageState} (h : s.isTerminal = true)
    (hno : s.resets target = false) : s.attempt target = s := by
  rw [attempt_eq]
  cases s with
  | pending | sending | sent t | delivered t => exact absurd h (by simp [isTerminal])
  | read t => rfl
  | failed t retryable =>
      cases retryable with
      | false => rfl
      | true =>
          cases target with
          | pending => exact absurd hno (by simp [resets])
          | sending | sent t | delivered t | read t | failed t r => rfl

/-- Taking the edge back leaves a terminal state. -/
theorem attempt_of_resets {s target : MessageState} (h : s.resets target = true) :
    s.isTerminal = true ∧ s.attempt target ≠ s := by
  cases s with
  | failed t retryable =>
      cases retryable with
      | false => exact absurd h (by simp [resets])
      | true =>
          cases target with
          | pending => simp [isTerminal, attempt_eq, validTransition]
          | sending | sent t | delivered t | read t | failed t r =>
              exact absurd h (by simp [resets])
  | pending | sending | sent t | delivered t | read t => exact absurd h (by simp [resets])

theorem failed_of_resets {s target : MessageState} (h : s.resets target = true) :
    ∃ t, s = .failed t true := by
  cases s with
  | failed t retryable =>
      cases retryable with
      | false => exact absurd h (by simp [resets])
      | true => exact ⟨t, rfl⟩
  | pending | sending | sent t | delivered t | read t => exact absurd h (by simp [resets])

theorem valid_of_resets {s target : MessageState} (h : s.resets target = true) :
    s.validTransition target = true ∧ target = .pending := by
  obtain ⟨t, rfl⟩ := failed_of_resets h
  cases target with
  | pending => exact ⟨rfl, rfl⟩
  | sending | sent t | delivered t | read t | failed t r => exact absurd h (by simp [resets])

/-- Behind the recipient's device only the edge back leads before it. -/
theorem attempt_not_underway {s target : MessageState} (h : s.isUnderway = false)
    (hno : s.resets target = false) : (s.attempt target).isUnderway = false := by
  cases s with
  | pending | sending | sent t => exact absurd h (by simp [isUnderway])
  | read t | failed t retryable => rw [attempt_of_terminal rfl hno]; rfl
  | delivered t =>
      rw [attempt_eq]
      cases target with
      | pending | sending | sent t | delivered t | read t | failed t r => rfl

/-- A life has no rollback exactly if no retryable failure is reset in it. -/
theorem noRollback_iff (targets : List MessageState) :
    NoRollback targets ↔
      Guarded attempt (fun s target => s.resets target = false) targets .pending := by
  constructor
  · rintro ⟨hterminal, -⟩ before target hbefore
    rw [← Bool.not_eq_true]
    intro hreset
    obtain ⟨hend, hleft⟩ := attempt_of_resets hreset
    exact hleft (hterminal before target hbefore hend)
  · intro hno
    constructor
    · intro before target hbefore hend
      exact attempt_of_terminal hend (hno before target hbefore)
    · intro earlier later hsplit hdelivered
      -- what follows the delivery is a run of its own, from a state behind the device
      have hbehind : Guarded attempt (fun s target => s.resets target = false) later
          (run attempt earlier .pending) := (hno.front hsplit).behind
      have hstart : (run attempt earlier .pending).isUnderway = false := by
        cases hs : run attempt earlier .pending with
        | delivered t | read t => rfl
        | pending | sending | sent t | failed t r => simp [hs, isDelivered] at hdelivered
      rw [run_append]
      exact (always_of_step (P := fun s => s.isUnderway = false) hstart
        (fun s target => attempt_not_underway) hbehind).last

/-- Delivered, then failed, then retried: the terminal state is left, and the
message is on its way once more. -/
theorem rollback_after_delivery :
    ¬ TerminalKept [.sending, .sent 1, .delivered 2, .failed 3 true, .pending] ∧
      ¬ DeliveryKept [.sending, .sent 1, .delivered 2, .failed 3 true, .pending] := by
  constructor
  · intro h
    have hleft := h [.sending, .sent 1, .delivered 2, .failed 3 true] .pending List.prefix_rfl rfl
    exact absurd hleft (by decide)
  · intro h
    have hback := h [.sending, .sent 1, .delivered 2] [.failed 3 true, .pending] List.prefix_rfl rfl
    exact absurd hback (by decide)

end MessageState

/-! ## The message and its timestamps -/

/-- The calls that move a message, with the readings of the clock they make. -/
inductive MessageOp where
  | markSending
  | markSent (now : DateTime)
  | markDelivered (now : DateTime)
  | markRead (now : DateTime)
  | markFailed (retryable : Bool) (now : DateTime)
  /-- `transition_state(Pending)` -/
  | retry

namespace MessageOp

def apply [Chrono] (m : Message) : MessageOp → DomainResult Message
  | markSending => m.markSending
  | markSent now => m.markSent now
  | markDelivered now => m.markDelivered now
  | markRead now => m.markRead now
  | markFailed retryable now => m.markFailed retryable now
  | retry => m.transitionState .pending

/-- The state a call asks for. -/
def target : MessageOp → MessageState
  | markSending => .sending
  | markSent now => .sent now
  | markDelivered now => .delivered now
  | markRead now => .read now
  | markFailed retryable now => .failed now retryable
  | retry => .pending

/-- The reading of the clock a call makes. -/
def reading : MessageOp → Option DateTime
  | markSending | retry => none
  | markSent now | markDelivered now | markRead now | markFailed _ now => some now

theorem reading_of_target {op : MessageOp} {now : DateTime}
    (h : op.target = .sent now ∨ op.target = .delivered now ∨ op.target = .read now) :
    op.reading = some now := by
  cases op with
  | markSent t | markDelivered t | markRead t => simp_all [target, reading]
  | markSending | markFailed _ _ | retry => simp [target] at h

variable [Chrono]

theorem apply_eq (m : Message) (op : MessageOp) : op.apply m = m.transitionState op.target := by
  cases op with
  | markSending | markSent _ | markDelivered _ | markRead _ | markFailed _ _ | retry => rfl

/-- A refused call leaves the message as it is. -/
def step (m : Message) (op : MessageOp) : Message := (op.apply m).toOption.getD m

/-- A call the table does not have is refused. -/
theorem step_of_refused {m : Message} {op : MessageOp}
    (h : m.state.validTransition op.target = false) : op.step m = m := by
  rw [step, apply_eq, Message.transitionState_error h]
  rfl

theorem step_of_valid {m : Message} {op : MessageOp}
    (h : m.state.validTransition op.target = true) :
    op.step m = match op.target with
      | .sent t => { m with state := .sent t, sentAt := some t }
      | .delivered t => { m with state := .delivered t, deliveredAt := some t }
      | .read t => { m with state := .read t, readAt := some t }
      | s => { m with state := s } := by
  rw [step, apply_eq, Message.transitionState, MessageState.transitionTo, if_pos h]
  cases op with
  | markSending | markSent _ | markDelivered _ | markRead _ | markFailed _ _ | retry => rfl

/-- What a call does, if anything. -/
theorem step_cases (m : Message) (op : MessageOp) :
    op.step m = m ∨
      (m.state = .pending ∧ op.step m = { m with state := .sending }) ∨
      (∃ now, op.target = .sent now ∧ m.state = .sending ∧
        op.step m = { m with state := .sent now, sentAt := some now }) ∨
      (∃ t now, op.target = .delivered now ∧ m.state = .sent t ∧
        op.step m = { m with state := .delivered now, deliveredAt := some now }) ∨
      (∃ t now, op.target = .read now ∧ m.state = .delivered t ∧
        op.step m = { m with state := .read now, readAt := some now }) ∨
      (∃ now r, m.state.isTerminal = false ∧ op.step m = { m with state := .failed now r }) ∨
      (m.state.resets op.target = true ∧ op.step m = { m with state := .pending }) := by
  cases hvalid : m.state.validTransition op.target with
  | false => exact .inl (step_of_refused hvalid)
  | true =>
      right
      rcases MessageState.validTransition_cases hvalid with ⟨hs, ht⟩ | ⟨now, hs, ht⟩ |
        ⟨t, now, hs, ht⟩ | ⟨t, now, hs, ht⟩ | ⟨now, r, hs, ht⟩ | ⟨hs, ht⟩
      · exact .inl ⟨hs, by rw [step_of_valid hvalid, ht]⟩
      · exact .inr (.inl ⟨now, ht, hs, by rw [step_of_valid hvalid, ht]⟩)
      · exact .inr (.inr (.inl ⟨t, now, ht, hs, by rw [step_of_valid hvalid, ht]⟩))
      · exact .inr (.inr (.inr (.inl ⟨t, now, ht, hs, by rw [step_of_valid hvalid, ht]⟩)))
      · exact .inr (.inr (.inr (.inr (.inl ⟨now, r, hs, by rw [step_of_valid hvalid, ht]⟩))))
      · exact .inr (.inr (.inr (.inr (.inr ⟨hs, by rw [step_of_valid hvalid, ht]⟩))))

end MessageOp

namespace Message

/-- The timestamps a message has, in the order of the lifecycle. -/
def stamps (m : Message) : List DateTime :=
  m.createdAt :: (m.sentAt.toList ++ m.deliveredAt.toList ++ m.readAt.toList)

/-- The timestamps are in order, and an attempt that has not got as far as
`Sent` shows none of an earlier one. -/
structure StampedInOrder (m : Message) : Prop where
  ordered : m.stamps.Pairwise (· ≤ ·)
  current : m.state = .pending ∨ m.state = .sending →
    m.sentAt = none ∧ m.deliveredAt = none ∧ m.readAt = none

/-- Which timestamps a message of a state has. -/
def Shadows (m : Message) : Prop :=
  match m.state with
  | .pending | .sending => m.sentAt = none ∧ m.deliveredAt = none ∧ m.readAt = none
  | .sent _ => m.sentAt.isSome ∧ m.deliveredAt = none ∧ m.readAt = none
  | .delivered _ => m.sentAt.isSome ∧ m.readAt = none
  | .read _ => m.sentAt.isSome
  | .failed _ _ => m.sentAt = none → m.deliveredAt = none ∧ m.readAt = none

/-- The timestamps follow the state, and none is ahead of the clock. -/
structure Stamped (clock : DateTime) (m : Message) : Prop where
  ordered : m.stamps.Pairwise (· ≤ ·)
  past : ∀ t ∈ m.stamps, t ≤ clock
  shadows : m.Shadows

variable {m : Message} {clock : DateTime}

theorem Stamped.built {b : MessageBuilder} {id : Uuid} {created : DateTime}
    (h : b.build id created = .ok m) : Stamped created m := by
  obtain ⟨hstate, hcreated, hsent, hdelivered, hread⟩ := MessageBuilder.build_unsent h
  have hstamps : m.stamps = [created] := by
    simp [stamps, hcreated, hsent, hdelivered, hread]
  refine ⟨?_, ?_, ?_⟩
  · rw [hstamps]
    exact List.pairwise_singleton _ _
  · intro t ht
    rw [hstamps, List.mem_singleton] at ht
    exact ht.le
  · rw [Shadows, hstate]
    exact ⟨hsent, hdelivered, hread⟩

theorem Stamped.inOrder (h : Stamped clock m) : m.StampedInOrder := by
  refine ⟨h.ordered, ?_⟩
  have hshadows := h.shadows
  rintro (hs | hs)
  · rw [Shadows, hs] at hshadows
    exact hshadows
  · rw [Shadows, hs] at hshadows
    exact hshadows

theorem Stamped.later {now : DateTime} (h : Stamped clock m) (hnow : clock ≤ now) :
    Stamped now m :=
  ⟨h.ordered, fun t ht => Int.le_trans (h.past t ht) hnow, h.shadows⟩

/-- A timestamp just read goes last. -/
theorem Stamped.stamp {m' : Message} (h : Stamped clock m)
    (hstamps : m'.stamps = m.stamps ++ [clock]) (hshadows : m'.Shadows) : Stamped clock m' := by
  constructor
  · rw [hstamps, List.pairwise_append]
    refine ⟨h.ordered, List.pairwise_singleton _ _, ?_⟩
    intro a ha b hb
    rw [List.mem_singleton.mp hb]
    exact h.past a ha
  · intro t ht
    rw [hstamps] at ht
    rcases List.mem_append.mp ht with ht | ht
    · exact h.past t ht
    · rw [List.mem_singleton.mp ht]
  · exact hshadows

/-- The move of a message whose fields stay. -/
theorem Stamped.move {s : MessageState} (h : Stamped clock m)
    (hshadows : { m with state := s }.Shadows) : Stamped clock { m with state := s } :=
  ⟨h.ordered, h.past, hshadows⟩

variable [Chrono]

/-- The call does not reset a message that got as far as `Sent`. -/
def ResetsUnsent (m : Message) (op : MessageOp) : Prop :=
  m.state.resets op.target = true → m.sentAt = none

theorem Stamped.step {op : MessageOp} (h : Stamped clock m)
    (hread : ∀ now, op.reading = some now → now = clock) (hreset : m.ResetsUnsent op) :
    Stamped clock (op.step m) := by
  have hshadows := h.shadows
  rcases op.step_cases m with hs | ⟨hstate, hs⟩ | ⟨now, ht, hstate, hs⟩ | ⟨t, now, ht, hstate, hs⟩ |
    ⟨t, now, ht, hstate, hs⟩ | ⟨now, r, hstate, hs⟩ | ⟨hresets, hs⟩
  · rw [hs]
    exact h
  · rw [Shadows, hstate] at hshadows
    rw [hs]
    exact h.move hshadows
  · rw [Shadows, hstate] at hshadows
    obtain ⟨hsent, hdelivered, hseen⟩ := hshadows
    cases hread now (MessageOp.reading_of_target (.inl ht))
    rw [hs]
    refine h.stamp ?_ ⟨rfl, hdelivered, hseen⟩
    simp [stamps, hsent, hdelivered, hseen]
  · rw [Shadows, hstate] at hshadows
    obtain ⟨hsent, hdelivered, hseen⟩ := hshadows
    cases hread now (MessageOp.reading_of_target (.inr (.inl ht)))
    rw [hs]
    refine h.stamp ?_ ⟨hsent, hseen⟩
    simp [stamps, hdelivered, hseen]
  · rw [Shadows, hstate] at hshadows
    obtain ⟨hsent, hseen⟩ := hshadows
    cases hread now (MessageOp.reading_of_target (.inr (.inr ht)))
    rw [hs]
    refine h.stamp ?_ hsent
    simp [stamps, hseen]
  · -- a failure leaves the fields of the attempt it ends
    rw [hs]
    refine h.move ?_
    intro hunsent
    have hnone : m.sentAt = none := hunsent
    rw [Shadows] at hshadows
    cases hst : m.state with
    | pending | sending => rw [hst] at hshadows; exact hshadows.2
    | sent t | delivered t =>
        rw [hst, hnone] at hshadows
        exact absurd hshadows.1 (by simp)
    | read t | failed t r => simp [hst, MessageState.isTerminal] at hstate
  · have hunsent := hreset hresets
    obtain ⟨t, hstate⟩ := MessageState.failed_of_resets hresets
    rw [Shadows, hstate] at hshadows
    rw [hs]
    exact h.move ⟨hunsent, hshadows hunsent⟩

/-- A reset behind `Sent` leaves the old `sent_at` on a pending message. -/
theorem ResetsUnsent.of_inOrder {op : MessageOp} (h : (op.step m).StampedInOrder) :
    m.ResetsUnsent op := by
  intro hresets
  obtain ⟨hvalid, htarget⟩ := MessageState.valid_of_resets hresets
  rw [MessageOp.step_of_valid hvalid, htarget] at h
  exact (h.current (.inl rfl)).1

/-- Along a life in which no sent message is reset, the clock and the fields
go together. -/
theorem Stamped.always {ops : List MessageOp} (h : Stamped clock m)
    (hclock : (clock :: ops.filterMap MessageOp.reading).Pairwise (· ≤ ·))
    (hreset : Guarded MessageOp.step ResetsUnsent ops m) :
    Always MessageOp.step StampedInOrder ops m := by
  induction ops generalizing m clock with
  | nil =>
      intro before hbefore
      rw [List.prefix_nil.mp hbefore]
      exact h.inOrder
  | cons op ops ih =>
      obtain ⟨hop, hrest⟩ := guarded_cons.mp hreset
      refine always_cons.mpr ⟨h.inOrder, ?_⟩
      cases hread : op.reading with
      | none =>
          rw [List.filterMap_cons_none hread] at hclock
          exact ih (h.step (fun now hnow => by simp [hread] at hnow) hop) hclock hrest
      | some now =>
          rw [List.filterMap_cons_some hread] at hclock
          obtain ⟨hfirst, hlater⟩ := List.pairwise_cons.mp hclock
          have hnow : Stamped now m := h.later (hfirst now List.mem_cons_self)
          exact ih (hnow.step (fun now' h' => (Option.some.inj (hread.symm.trans h')).symm) hop)
            hlater hrest

/-- In a life under a clock that never goes back, the timestamps are always in
order and of the current attempt exactly if no sent message is reset. -/
theorem stampedInOrder_iff {b : MessageBuilder} {id : Uuid} {created : DateTime}
    {ops : List MessageOp} (h : b.build id created = .ok m)
    (hclock : (created :: ops.filterMap MessageOp.reading).Pairwise (· ≤ ·)) :
    Always MessageOp.step StampedInOrder ops m ↔ Guarded MessageOp.step ResetsUnsent ops m :=
  ⟨guarded_of_always fun _ _ => ResetsUnsent.of_inOrder, (Stamped.built h).always hclock⟩

end Message

/-! ## Two lives -/

namespace Delivery

/-- Clock readings of the first ten seconds, which is all the examples use. -/
scoped instance : Chrono where
  toRfc3339 t := s!"1970-01-01T00:00:0{DateTime.timestamp t}+00:00"
  debug t := s!"1970-01-01T00:00:0{DateTime.timestamp t}Z"

def builder : MessageBuilder :=
  { senderFingerprint := some ⟨Vector.replicate 20 0xAA⟩
    recipientFingerprints := [⟨Vector.replicate 20 0xBB⟩]
    content := some [0x68, 0x69] }

def message : Message :=
  { id := ⟨Vector.replicate 16 3⟩
    senderFingerprint := ⟨Vector.replicate 20 0xAA⟩
    recipientFingerprints := [⟨Vector.replicate 20 0xBB⟩]
    content := [0x68, 0x69]
    contentType := .text
    state := .pending
    createdAt := 0
    sentAt := none
    deliveredAt := none
    readAt := none }

/-- A first attempt that fails before it is sent, and a second one. -/
def retriedUnsent : List MessageOp :=
  [.markSending, .markFailed true (seconds 1), .retry, .markSending, .markSent (seconds 2)]

theorem retriedUnsent_inOrder :
    Always MessageOp.step Message.StampedInOrder retriedUnsent message := by
  refine (Message.stampedInOrder_iff (rfl : builder.build message.id 0 = .ok message) ?_).mpr ?_
  · decide
  · simp only [retriedUnsent, guarded_cons]
    exact ⟨fun _ => rfl, fun _ => rfl, fun _ => rfl, fun _ => rfl, fun _ => rfl, guarded_nil⟩

/-- A first attempt that fails once it is sent: the second one starts with its
`sent_at`. -/
theorem retried_sent_not_inOrder :
    builder.build message.id 0 = .ok message ∧ message.createdAt ≤ seconds 1 ∧
      seconds 1 ≤ seconds 2 ∧ ¬ Always MessageOp.step Message.StampedInOrder
        [.markSending, .markSent (seconds 1), .markFailed true (seconds 2), .retry] message := by
  refine ⟨rfl, by decide, by decide, ?_⟩
  intro h
  have hcurrent := h.last.current (.inl rfl)
  exact absurd hcurrent.1 (by decide)

end Delivery
end Rubix
