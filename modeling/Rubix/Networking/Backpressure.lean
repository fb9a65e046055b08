/-
# `Rubix.Networking.Backpressure` — senders that hold the entry of their connection

`send_to` keeps the guard of `active_connections.get` while it waits for room in
the outgoing channel, and the task at its end removes the entry, for which every
guard has to be gone:

    send_to          get (guard) → offer → [waits for room] → guard dropped
    task             polling → reading → sending | handing → … → closing → removing

Out of its loop the task takes no more messages, so a sender that still waits
then for room waits for the task, which waits for the sender's guard.  Nobody
ever waits if the channel has room for all who hold the entry when the task
goes to remove it, and who get hold of it after that (`deadlock_free_iff`);
otherwise both wait for good (`overfull_deadlocks`, `deadlocked_forever`).
-/
import Rubix.Lib.Channel
import Rubix.Lib.Runs
import Rubix.Networking.Disconnect

namespace Rubix.Networking.Backpressure

/-- Where the task is. -/
inductive Point where
  /-- in the select, the `outgoing_rx` branch polled next -/
  | polling
  /-- in the select, the `conn.recv()` branch polled next -/
  | reading
  /-- in `conn.send` -/
  | sending
  /-- in `incoming_tx.send` -/
  | handing
  /-- in `conn.close`, out of the loop -/
  | closing
  /-- in `active.remove` -/
  | removing
  | ended
  deriving DecidableEq

structure State where
  /-- The map has the handle. -/
  entry : Bool
  /-- The outgoing channel, with the callers that wait and hold a guard. -/
  outgoing : Channel (List UInt8) outgoingBufferSize
  /-- The callers with a guard that have not yet tried to send. -/
  holding : List (List UInt8)
  point : Point

def start : State := ⟨true, .empty, [], .polling⟩

/-- Some caller holds a guard. -/
def State.guarded (s : State) : Bool := !(s.holding.isEmpty && s.outgoing.waiting.isEmpty)

/-- What a poll of `conn.recv()` comes to. -/
inductive Received where
  | pending
  | message
  | failed

inductive Event where
  /-- `send_to` looks the handle up -/
  | get (message : List UInt8)
  /-- and tries to send -/
  | offer (caller : Nat)
  /-- The first caller that waits is polled. -/
  | resume
  | disconnect
  | cancelled
  | pollOutgoing
  | pollRecv (received : Received)
  | sent (ok : Bool)
  | handed (ok : Bool)
  | closed
  | remove

/-- The task goes from one point to the next. -/
def State.advance (s : State) (before after : Point) : State :=
  if s.point = before then { s with point := after } else s

def step (s : State) : Event → State
  | .get message => if s.entry then { s with holding := s.holding ++ [message] } else s
  | .offer caller =>
      match s.holding[caller]? with
      | none => s
      | some message =>
          { s with
            holding := s.holding.eraseIdx caller
            outgoing := s.outgoing.offer message }
  | .resume => { s with outgoing := s.outgoing.resume }
  | .disconnect => if s.guarded then s else { s with entry := false }
  | .cancelled => s.advance .polling .closing
  | .pollOutgoing =>
      if s.point = .polling then
        match s.outgoing.receive with
        | some (_, outgoing) => { s with outgoing, point := .sending }
        -- pending, or closed and its branch disabled
        | none => { s with point := .reading }
      else s
  | .pollRecv .pending => s.advance .reading .polling
  | .pollRecv .message => s.advance .reading .handing
  | .pollRecv .failed => s.advance .reading .closing
  | .sent ok => s.advance .sending (if ok then .polling else .closing)
  | .handed ok => s.advance .handing (if ok then .polling else .closing)
  | .closed => s.advance .closing .removing
  | .remove =>
      if s.point = .removing ∧ s.guarded = false then { s with entry := false, point := .ended }
      else s

/-- A caller waits for room, and the task for the entry that the caller holds. -/
def Deadlocked (s : State) : Prop := s.point = .removing ∧ s.outgoing.Suspends

instance (s : State) : Decidable (Deadlocked s) := inferInstanceAs (Decidable (_ ∧ _))

/-- When the task goes to remove the entry, the pending messages fit the
channel, and those that callers offer after that still find a slot. -/
def RoomLeft (s : State) : Event → Prop
  | .closed => s.point = .closing → s.outgoing.pending ≤ outgoingBufferSize
  | .offer caller => s.point = .removing → caller < s.holding.length →
      s.outgoing.pending < outgoingBufferSize
  | _ => True

/-- While the task removes the entry, every pending message has a slot. -/
def Fits (s : State) : Prop := s.point = .removing → s.outgoing.pending ≤ outgoingBufferSize

section
variable {s : State}

theorem Fits.advance {before after : Point} (h : Fits s)
    (hroom : s.point = before → after = .removing → s.outgoing.pending ≤ outgoingBufferSize) :
    Fits (s.advance before after) := by
  rw [State.advance]
  split
  · next hpoint => exact hroom hpoint
  · exact h

theorem fits_step {e : Event} (h : Fits s) (hroom : RoomLeft s e) : Fits (step s e) := by
  cases e with
  | get message =>
      rw [Backpressure.step]
      split
      · exact h
      · exact h
  | offer caller =>
      simp only [Backpressure.step]
      split
      · exact h
      · next message hmessage =>
          intro hpoint
          have hcaller := (List.getElem?_eq_some_iff.mp hmessage).1
          rw [Channel.pending_offer]
          exact hroom hpoint hcaller
  | resume =>
      intro hpoint
      show s.outgoing.resume.pending ≤ outgoingBufferSize
      rw [Channel.pending_resume]
      exact h hpoint
  | disconnect =>
      rw [Backpressure.step]
      split
      · exact h
      · exact h
  | cancelled => exact h.advance fun _ hafter => nomatch hafter
  | pollOutgoing =>
      rw [Backpressure.step]
      split
      · split
        · exact fun hpoint => nomatch hpoint
        · exact fun hpoint => nomatch hpoint
      · exact h
  | pollRecv received =>
      cases received with
      | pending => exact h.advance fun _ hafter => nomatch hafter
      | message => exact h.advance fun _ hafter => nomatch hafter
      | failed => exact h.advance fun _ hafter => nomatch hafter
  | sent ok =>
      refine h.advance ?_
      intro _ hafter
      split at hafter
      · exact nomatch hafter
      · exact nomatch hafter
  | handed ok =>
      refine h.advance ?_
      intro _ hafter
      split at hafter
      · exact nomatch hafter
      · exact nomatch hafter
  | closed => exact h.advance fun hpoint _ => hroom hpoint
  | remove =>
      rw [Backpressure.step]
      split
      · exact fun hpoint => nomatch hpoint
      · exact h

theorem roomLeft_of_fits {e : Event} (h : Fits (step s e)) : RoomLeft s e := by
  cases e with
  | closed =>
      intro hpoint
      have hstep : step s .closed = { s with point := .removing } := if_pos hpoint
      rw [hstep] at h
      exact h rfl
  | offer caller =>
      intro hpoint hcaller
      have hmessage : s.holding[caller]? = some s.holding[caller] :=
        List.getElem?_eq_getElem hcaller
      simp only [step, hmessage] at h
      have hpending := h hpoint
      rw [Channel.pending_offer] at hpending
      exact hpending
  | _ => trivial

theorem Fits.not_deadlocked (h : Fits s) : ¬ Deadlocked s := by
  rintro ⟨hpoint, hsuspends⟩
  exact Nat.not_lt.mpr (h hpoint) hsuspends.lt_pending

/-! ## A task that waits for too many -/

/-- The task removes the entry, and more messages are pending than there are
slots. -/
def Overfull (s : State) : Prop := s.point = .removing ∧ outgoingBufferSize < s.outgoing.pending

theorem overfull_iff : Overfull s ↔ ¬ Fits s := by
  rw [Overfull, Fits, Classical.not_imp, Nat.not_le]

/-- Who waits for a slot holds a guard. -/
theorem Overfull.guarded (h : Overfull s) : s.guarded = true := by
  have hbounded := s.outgoing.bounded
  have hpending := h.2
  rw [Channel.pending] at hpending
  have hwaiting : s.outgoing.waiting ≠ [] := by
    intro hwaiting
    rw [hwaiting, List.length_nil] at hpending
    omega
  simp [State.guarded, hwaiting]

theorem Overfull.advance (h : Overfull s) {before : Point} (after : Point)
    (hbefore : before ≠ .removing) : s.advance before after = s :=
  if_neg fun hpoint => hbefore (hpoint.symm.trans h.1)

/-- What still happens then: callers try to send. -/
theorem Overfull.cases (h : Overfull s) (e : Event) :
    (step s e).point = .removing ∧
      ((step s e).outgoing = s.outgoing ∨ (step s e).outgoing = s.outgoing.resume ∨
        ∃ message, (step s e).outgoing = s.outgoing.offer message) := by
  have hstays : step s e = s → (step s e).point = .removing ∧
      ((step s e).outgoing = s.outgoing ∨ (step s e).outgoing = s.outgoing.resume ∨
        ∃ message, (step s e).outgoing = s.outgoing.offer message) := by
    intro hsame
    rw [hsame]
    exact ⟨h.1, .inl rfl⟩
  cases e with
  | get message =>
      rw [step]
      split
      · exact ⟨h.1, .inl rfl⟩
      · exact ⟨h.1, .inl rfl⟩
  | offer caller =>
      simp only [step]
      split
      · exact ⟨h.1, .inl rfl⟩
      · next message _ => exact ⟨h.1, .inr (.inr ⟨message, rfl⟩)⟩
  | resume => exact ⟨h.1, .inr (.inl rfl)⟩
  | disconnect => exact hstays (if_pos h.guarded)
  | pollOutgoing => exact hstays (if_neg (by simp [h.1]))
  | pollRecv received =>
      cases received with
      | pending => exact hstays (h.advance _ (by decide))
      | message => exact hstays (h.advance _ (by decide))
      | failed => exact hstays (h.advance _ (by decide))
  | cancelled => exact hstays (h.advance _ (by decide))
  | sent ok => exact hstays (h.advance _ (by decide))
  | handed ok => exact hstays (h.advance _ (by decide))
  | closed => exact hstays (h.advance _ (by decide))
  | remove => exact hstays (if_neg (by simp [h.guarded]))

theorem overfull_step (h : Overfull s) (e : Event) : Overfull (step s e) := by
  have hpending := h.2
  obtain ⟨hpoint, hsame | hresume | ⟨message, hoffer⟩⟩ := h.cases e
  · exact ⟨hpoint, hsame ▸ hpending⟩
  · refine ⟨hpoint, ?_⟩
    rw [hresume, Channel.pending_resume]
    exact hpending
  · refine ⟨hpoint, ?_⟩
    rw [hoffer, Channel.pending_offer]
    exact Nat.lt_succ_of_lt hpending

theorem overfull_run (h : Overfull s) (events : List Event) :
    Overfull (Runs.run step events s) := by
  induction events generalizing s with
  | nil => exact h
  | cons e events ih => exact ih (overfull_step h e)

/-- Once those who wait are polled, one of them waits for good. -/
theorem overfull_deadlocks (h : Overfull s) :
    ∃ n, Deadlocked (Runs.run step (List.replicate n .resume) s) := by
  induction hn : s.outgoing.waiting.length using Nat.strongRecOn generalizing s with
  | _ waiting ih =>
      by_cases hsuspends : s.outgoing.Suspends
      · exact ⟨0, h.1, hsuspends⟩
      · have hfewer : (step s .resume).outgoing.waiting.length < waiting := by
          rw [← hn]
          exact Channel.resume_waiting h.2 hsuspends
        obtain ⟨n, hdeadlocked⟩ := ih _ hfewer (overfull_step h .resume) rfl
        exact ⟨n + 1, hdeadlocked⟩

/-- Neither of the two gets out of it. -/
theorem deadlocked_forever (h : Deadlocked s) (events : List Event) :
    Deadlocked (Runs.run step events s) := by
  induction events generalizing s with
  | nil => exact h
  | cons e events ih =>
      have hoverfull : Overfull s := ⟨h.1, h.2.lt_pending⟩
      refine ih ⟨(hoverfull.cases e).1, ?_⟩
      obtain hsame | hresume | ⟨message, hoffer⟩ := (hoverfull.cases e).2
      · exact hsame ▸ h.2
      · exact hresume ▸ h.2.resume
      · exact hoffer ▸ h.2.offer

theorem always_fits_resume (h : Fits s) (n : Nat) :
    Runs.Always step Fits (List.replicate n .resume) s := by
  induction n generalizing s with
  | zero =>
      intro before hbefore
      rw [List.prefix_nil.mp hbefore]
      exact h
  | succ n ih => exact Runs.always_cons.mpr ⟨h, ih (fits_step h trivial)⟩

end

/-- No caller and the task ever wait for each other, also when those who wait
are polled behind the run, if and only if the channel has room for all who hold
the entry when the task removes it. -/
theorem deadlock_free_iff (events : List Event) :
    (∀ n, Runs.Always step (fun s => ¬ Deadlocked s) (events ++ List.replicate n .resume) start) ↔
      Runs.Guarded step RoomLeft events start := by
  have hfits : Runs.Always step Fits events start ↔ Runs.Guarded step RoomLeft events start :=
    Runs.always_iff_guarded (fun hpoint => nomatch hpoint) (fun _ _ => fits_step)
      (fun _ h => h) fun _ _ => roomLeft_of_fits
  rw [← hfits]
  constructor
  · rintro hfree before ⟨after, rfl⟩
    refine Classical.byContradiction ?_
    intro hfull
    have hend := overfull_run (overfull_iff.mpr hfull) after
    obtain ⟨n, hdeadlocked⟩ := overfull_deadlocks hend
    rw [← Runs.run_append, ← Runs.run_append, ← List.append_assoc] at hdeadlocked
    exact (hfree n).last hdeadlocked
  · intro h n
    exact (h.append (always_fits_resume h.last n)).imp fun _ => Fits.not_deadlocked

/-- A message is being written when 65 others come, and the write fails. -/
def brokenWrite : List Event :=
  [.get [0], .offer 0, .pollOutgoing] ++
    (List.replicate (outgoingBufferSize + 1) [.get [1], .offer 0]).flatten ++
    [.sent false, .closed]

theorem brokenWrite_deadlocks :
    ¬ Runs.Always step (fun s => ¬ Deadlocked s) brokenWrite start := by
  intro hfree
  have hend : Deadlocked (Runs.run step brokenWrite start) := by decide +kernel
  exact hfree.last hend

end Rubix.Networking.Backpressure
