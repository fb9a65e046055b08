/-
# `Rubix.Networking.Disconnect` — dropping the handle of a running task

The handle in `active_connections` holds the only sender of the task's
outgoing channel.  `disconnect` removes it and so closes the channel, which is
meant to end the task.  The select of the task reads the channel through a
pattern:

    Some(msg) = outgoing_rx.recv()

    the channel              the branch          the select goes on to
    holds a message          wins                the send
    empty, with a sender     is pending          `conn.recv()`
    empty, and closed        does not match,     `conn.recv()`
                             so it is disabled

The last two rows are the same: a closed channel does not end the loop.  The
task goes on to read frames and to pass them on, until it is cancelled, a read
fails, or nobody takes what it passes on.
-/
import Rubix.Lib.Runs
import Rubix.Networking.ConnectionTask

namespace Rubix.Networking

variable {W : Type}

/-- Channel capacity for outgoing messages per connection. -/
def outgoingBufferSize : Nat := 64

/-- The link, with a record of what was passed on. -/
def Link.recording (link : Link W) : Link (W × List (List UInt8)) where
  peerFingerprint := link.peerFingerprint
  encrypt data w := ((link.encrypt data w.1).1, ((link.encrypt data w.1).2, w.2))
  decrypt data w := ((link.decrypt data w.1).1, ((link.decrypt data w.1).2, w.2))
  writeAll bytes w := ((link.writeAll bytes w.1).1, ((link.writeAll bytes w.1).2, w.2))
  handOver msg w :=
    let (taken, w') := link.handOver msg w.1
    (taken, (w', if taken then w.2 ++ [msg] else w.2))

/-- A connection task and what it shares with the manager. -/
structure Connected (W : Type) where
  task : Task (W × List (List UInt8))
  /-- The messages in the outgoing channel. -/
  queue : List (List UInt8)
  /-- The handle, and with it the sender of the channel, is still there. -/
  attached : Bool
  /-- The token of the manager. -/
  cancelled : Bool

namespace Connected

/-- A task that enters its loop, its handle just stored. -/
def start (w : W) : Connected W := ⟨.start (w, []), [], true, false⟩

/-- The messages passed on to `incoming_tx`. -/
def forwarded (s : Connected W) : List (List UInt8) := s.task.world.2

inductive Event where
  | arrive (chunk : List UInt8)
  | hangUp (e : IoError)
  | cancel
  /-- `send_to`, when there is room in the channel -/
  | sendTo (msg : List UInt8)
  | disconnect
  /-- The task is polled. -/
  | turn

/-- The branch of the biased select that a poll comes to, as an event of the
task, and the messages it leaves in the channel. -/
def select (s : Connected W) : Networking.Event × List (List UInt8) :=
  if s.cancelled then (.cancel, s.queue)
  else
    match s.queue with
    | msg :: queue => (.outgoing msg, queue)
    -- pending while the handle is there, disabled when it is gone
    | [] => (.wake, [])

def step (link : Link W) (s : Connected W) : Event → Connected W
  | .arrive chunk => { s with task := Networking.step link.recording s.task (.arrive chunk) }
  | .hangUp e => { s with task := Networking.step link.recording s.task (.hangUp e) }
  | .cancel => { s with cancelled := true }
  | .sendTo msg =>
      if s.attached ∧ s.queue.length < outgoingBufferSize then
        { s with queue := s.queue ++ [msg] }
      else s
  | .disconnect => { s with attached := false }
  | .turn =>
      if s.task.running then
        { s with
          task := Networking.step link.recording s.task s.select.1
          queue := s.select.2 }
      else s

/-- The handle is gone, and the messages queued before that are sent. -/
def Drained (s : Connected W) : Prop := s.attached = false ∧ s.queue = []

/-- A turn would end inside the select. -/
def StaysInSelect (s : Connected W) : Prop :=
  s.cancelled = false ∧ s.queue = [] ∧
    ∃ d, (poll s.task.decoding s.task.socket).1 = .pending d

/-- The task is polled with a whole frame there. -/
def FindsFrame (s : Connected W) : Prop :=
  s.task.running = true ∧ s.cancelled = false ∧
    WholeFrame (s.task.decoding.consumed ++ s.task.socket.bytes)

/-- A drained task reads nothing more and passes nothing more on, and when it
next leaves the select it closes the connection. -/
structure TakesEffect (link : Link W) (events : List Event) (s : Connected W) : Prop where
  nothingRead : ∀ before, before <+: events → (Runs.run (step link) before s).Drained →
    (Runs.run (step link) events s).task.payloads = (Runs.run (step link) before s).task.payloads
  nothingForwarded : ∀ before, before <+: events → (Runs.run (step link) before s).Drained →
    (Runs.run (step link) events s).forwarded = (Runs.run (step link) before s).forwarded
  closesNext : ∀ before, before ++ [.turn] <+: events →
    (Runs.run (step link) before s).Drained → ¬ (Runs.run (step link) before s).StaysInSelect →
      (Runs.run (step link) (before ++ [.turn]) s).task.running = false

/-- No turn of a drained task finds a whole frame. -/
def QuietTurn (s : Connected W) (e : Event) : Prop := e = .turn → s.Drained → ¬ s.FindsFrame

section
variable {link : Link W} {events : List Event} {s : Connected W}

theorem select_cancelled (h : s.cancelled = true) : s.select = (.cancel, s.queue) := by
  rw [select, if_pos h]

theorem select_empty (h : s.cancelled = false) (hqueue : s.queue = []) :
    s.select = (.wake, []) := by
  rw [select, if_neg (by simp [h]), hqueue]

theorem step_turn (hrun : s.task.running = true) :
    step link s .turn =
      { s with
        task := Networking.step link.recording s.task s.select.1
        queue := s.select.2 } :=
  if_pos hrun

/-- A turn with nothing to send. -/
theorem step_turn_empty (hrun : s.task.running = true) (h : s.cancelled = false)
    (hqueue : s.queue = []) :
    step link s .turn = { s with task := pollRecv link.recording s.task, queue := [] } := by
  rw [step_turn hrun, select_empty h hqueue]
  show { s with
    task := if s.task.running = true then pollRecv link.recording s.task else s.task
    queue := [] } = _
  rw [if_pos hrun]

/-! ## Whole runs -/

theorem step_wellFormed {e : Event} (h : s.task.decoding.WellFormed) :
    (step link s e).task.decoding.WellFormed := by
  cases e with
  | arrive chunk => exact h
  | hangUp e => exact h
  | cancel => exact h
  | disconnect => exact h
  | sendTo msg =>
      rw [step]
      split
      · exact h
      · exact h
  | turn =>
      rw [step]
      split
      · exact Networking.step_wellFormed h
      · exact h

theorem step_payloads (e : Event) : s.task.payloads <+: (step link s e).task.payloads := by
  cases e with
  | arrive chunk => exact List.prefix_rfl
  | hangUp e => exact List.prefix_rfl
  | cancel => exact List.prefix_rfl
  | disconnect => exact List.prefix_rfl
  | sendTo msg =>
      rw [step]
      split
      · exact List.prefix_rfl
      · exact List.prefix_rfl
  | turn =>
      rw [step]
      split
      · exact Networking.step_payloads _ _ _
      · exact List.prefix_rfl

theorem run_wellFormed (h : s.task.decoding.WellFormed) :
    (Runs.run (step link) events s).task.decoding.WellFormed := by
  induction events generalizing s with
  | nil => exact h
  | cons e events ih => exact ih (step_wellFormed h)

/-- What was read stays read. -/
theorem run_payloads (link : Link W) (events : List Event) (s : Connected W) :
    s.task.payloads <+: (Runs.run (step link) events s).task.payloads := by
  induction events generalizing s with
  | nil => exact List.prefix_rfl
  | cons e events ih => exact (step_payloads e).trans (ih _)

/-- A turn that finds a frame reads it. -/
theorem step_findsFrame (link : Link W) (hwell : s.task.decoding.WellFormed) (hdrained : s.Drained)
    (h : s.FindsFrame) :
    ∃ data, (step link s .turn).task.payloads = s.task.payloads ++ [data] := by
  obtain ⟨hrun, hcancel, hframe⟩ := h
  obtain ⟨data, hready⟩ := (poll_ready_iff hwell _).mpr hframe
  rw [step_turn_empty hrun hcancel hdrained.2]
  rcases pollRecv_cases link.recording s.task with
    ⟨d, socket, hp, -⟩ | ⟨e, socket, hp, -⟩ | ⟨data, -, -, hpayloads⟩
  · rw [hp] at hready
    exact nomatch hready
  · rw [hp] at hready
    exact nomatch hready
  · exact ⟨data, hpayloads⟩

/-- A drained task, with what it has read and passed on so far. -/
structure Settled (payloads forwarded : List (List UInt8)) (s : Connected W) : Prop where
  wellFormed : s.task.decoding.WellFormed
  drained : s.Drained
  payloads : s.task.payloads = payloads
  forwarded : s.forwarded = forwarded

/-- The turns of a drained task, when no whole frame is there: it stays in the
select, or it stops. -/
theorem Settled.turn {payloads forwarded : List (List UInt8)} (h : Settled payloads forwarded s)
    (hquiet : ¬ s.FindsFrame) :
    Settled payloads forwarded (step link s .turn) ∧
      (s.StaysInSelect ∨ (step link s .turn).task.running = false) := by
  cases hrun : s.task.running with
  | false =>
      have hsame : step link s .turn = s := if_neg (by simp [hrun])
      rw [hsame]
      exact ⟨h, .inr hrun⟩
  | true =>
      cases hcancel : s.cancelled with
      | true =>
          rw [step_turn hrun, select_cancelled hcancel]
          exact ⟨⟨h.wellFormed, h.drained, h.payloads, h.forwarded⟩, .inr rfl⟩
      | false =>
          rw [step_turn_empty hrun hcancel h.drained.2]
          rcases pollRecv_cases link.recording s.task with
            ⟨d, socket, hp, heq⟩ | ⟨e, socket, hp, heq⟩ | ⟨data, hp, -, -⟩
          · have hreads := poll_reads h.wellFormed s.task.socket
            rw [hp] at hreads
            rw [heq]
            have hstays : s.StaysInSelect := ⟨hcancel, h.drained.2, d, by rw [hp]⟩
            exact ⟨⟨hreads.1, ⟨h.drained.1, rfl⟩, h.payloads, h.forwarded⟩, .inl hstays⟩
          · rw [heq]
            exact ⟨⟨wellFormed_fresh, ⟨h.drained.1, rfl⟩, h.payloads, h.forwarded⟩, .inr rfl⟩
          · have hframe := (poll_ready_iff h.wellFormed _).mp ⟨data, hp⟩
            exact absurd ⟨hrun, hcancel, hframe⟩ hquiet

theorem Settled.step {payloads forwarded : List (List UInt8)} {e : Event}
    (h : Settled payloads forwarded s) (hquiet : QuietTurn s e) :
    Settled payloads forwarded (step link s e) := by
  cases e with
  | arrive chunk => exact ⟨h.wellFormed, h.drained, h.payloads, h.forwarded⟩
  | hangUp e => exact ⟨h.wellFormed, h.drained, h.payloads, h.forwarded⟩
  | cancel => exact ⟨h.wellFormed, h.drained, h.payloads, h.forwarded⟩
  | disconnect => exact ⟨h.wellFormed, ⟨rfl, h.drained.2⟩, h.payloads, h.forwarded⟩
  | sendTo msg =>
      have hsame : Connected.step link s (.sendTo msg) = s := if_neg (by simp [h.drained.1])
      rw [hsame]
      exact h
  | turn => exact (h.turn (hquiet rfl h.drained)).1

end

/-- Dropping the handle ends the task if and only if no turn of the task finds
a whole frame once the queued messages are sent. -/
theorem takesEffect_iff (link : Link W) (events : List Event) (w : W) :
    TakesEffect link events (start w) ↔ Runs.Guarded (step link) QuietTurn events (start w) := by
  have hwell : ∀ before, (Runs.run (step link) before (start w)).task.decoding.WellFormed :=
    fun before => run_wellFormed wellFormed_fresh
  constructor
  · rintro heffect before e hbefore rfl hdrained hfinds
    obtain ⟨data, hread⟩ := step_findsFrame link (hwell before) hdrained hfinds
    have hkept := heffect.nothingRead before ((List.prefix_append _ _).trans hbefore) hdrained
    obtain ⟨after, rfl⟩ := hbefore
    -- the frame that was read is still among the payloads behind the run
    have hmore := run_payloads link after (Runs.run (step link) (before ++ [.turn]) (start w))
    rw [← Runs.run_append, hkept, Runs.run_concat, hread] at hmore
    have hlength := hmore.length_le
    rw [List.length_append, List.length_singleton] at hlength
    omega
  · intro hguard
    have hsettled : ∀ before, before <+: events → (Runs.run (step link) before (start w)).Drained →
        Settled (Runs.run (step link) before (start w)).task.payloads
          (Runs.run (step link) before (start w)).forwarded
          (Runs.run (step link) events (start w)) := by
      rintro before ⟨after, rfl⟩ hdrained
      rw [Runs.run_append]
      exact (Runs.always_of_step ⟨hwell before, hdrained, rfl, rfl⟩
        (fun _ _ => Settled.step) hguard.behind).last
    constructor
    · intro before hbefore hdrained
      exact (hsettled before hbefore hdrained).payloads
    · intro before hbefore hdrained
      exact (hsettled before hbefore hdrained).forwarded
    · intro before hbefore hdrained hleaves
      rw [Runs.run_concat]
      have hnow : Settled _ _ (Runs.run (step link) before (start w)) :=
        ⟨hwell before, hdrained, rfl, rfl⟩
      exact (hnow.turn (hguard before _ hbefore rfl hdrained)).2.resolve_left hleaves

/-- The handle is dropped, and a frame arrives after that. -/
def lateFrame : List Event := [.turn, .disconnect, .turn, .arrive [0, 0, 0, 1, 5], .turn]

/-- It is read and passed on, and the task goes on. -/
theorem late_frame_forwarded :
    (Runs.run (step plainLink) (lateFrame.take 3) (start ())).Drained ∧
      (Runs.run (step plainLink) lateFrame (start ())).forwarded = [[5]] ∧
        ¬ TakesEffect plainLink lateFrame (start ()) := by
  refine ⟨⟨rfl, rfl⟩, rfl, fun heffect => ?_⟩
  have hkept := heffect.nothingForwarded (lateFrame.take 3) (List.take_prefix _ _) ⟨rfl, rfl⟩
  exact absurd hkept (by decide)

end Connected

end Rubix.Networking
