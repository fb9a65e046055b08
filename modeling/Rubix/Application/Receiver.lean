/-
# `Rubix.Application.Receiver` — the receive loop and its shutdown signal

    loop {
        select! {
            Some(msg) = rx.recv()     process it; an error is logged
            _ = shutdown.changed()    return if the value is true
        }
    }

Nothing orders the two branches: where both are ready, either is taken.  The
second matches whatever `changed` answers, so it is never disabled, and once
the sender of the signal is gone it is ready at every turn; a closed `rx` only
disables the first.

The loop takes the messages in the order of their arrival, each once.  In each
of them a port is called only behind the answers that license it (`Due`): the
trust store is asked about a sender that is stored, the ciphertext is given to
the security port if the sender is stored and trusted.  The loop returns at a
value of true only, so a sender dropped before it sent one leaves a loop that
never does (`receives_in_order`).
-/
import Rubix.Application.ReceiveMessage
import Rubix.Lib.Past
import Rubix.Lib.Runs

namespace Rubix

variable {W : Type}

open Effect (Prog)
open Runs

namespace ReceiveMessage

/-! ## One message -/

/-- When the processing of a message calls a port. -/
def Due (incoming : IncomingMessage) (past : List Call) : Call → Prop
  | .loadPeer fp _ => fp = incoming.senderFingerprint ∧ past = []
  | .isTrusted fp _ =>
      fp = incoming.senderFingerprint ∧ ∃ peer, past = [.loadPeer fp (.ok (some peer))]
  | .decryptFromPeer ciphertext fp _ =>
      ciphertext = incoming.ciphertext ∧ fp = incoming.senderFingerprint ∧
        ∃ peer, past = [.loadPeer fp (.ok (some peer)), .isTrusted fp (.ok true)]
  | _ => False

/-- Only `Ok(true)` survives `unwrap_or(false)`. -/
theorem trusted_of_getD {answer : Except TrustError Bool} (h : answer.toOption.getD false = true) :
    answer = .ok true := by
  cases answer with
  | ok trusted => rw [show trusted = true from h]
  | error e => exact nomatch h

section
variable [Chrono] (ports : Ports W)

/-- Behind the decryption nothing is called: the built message cannot be
marked delivered. -/
theorem buildDelivered_heeds {P : List Call → Call → Prop} {past : List Call}
    (incoming : IncomingMessage) (senderPeer : Peer) :
    Prog.Heeds P past (buildDelivered ports incoming senderPeer) := by
  refine .silent_bind fun id => .silent_bind fun now => .orFail_bind ?_
  intro msg _
  refine .silent_bind ?_
  intro now
  cases msg.markDelivered now with
  | ok delivered => exact .pure _
  | error e => exact .fail _

theorem process_heeds (incoming : IncomingMessage) :
    Prog.Heeds (Due incoming) [] (process ports incoming) := by
  refine .call_bind (fun _ => ⟨rfl, rfl⟩) ?_
  intro found
  refine .orFail_bind ?_
  intro sender? hfound
  refine .orFail_bind ?_
  intro senderPeer hsender
  have hstored : sender? = some senderPeer := by
    cases sender? with
    | none => exact nomatch hsender
    | some peer => rw [Except.ok.inj hsender]
  rw [hfound, hstored]
  refine .call_bind (fun _ => ⟨rfl, senderPeer, rfl⟩) ?_
  intro trusted
  split
  · next htrusted =>
      obtain rfl := trusted_of_getD htrusted
      refine .call_bind (fun _ => ⟨rfl, rfl, senderPeer, rfl⟩) ?_
      intro answer
      refine .orFail_bind ?_
      intro plaintext _
      refine .bind (buildDelivered_heeds ports incoming senderPeer) (T := fun _ _ => False) ?_ ?_
      · intro w msg hmsg
        obtain ⟨e, he⟩ := buildDelivered_throws ports incoming senderPeer w
        rw [he] at hmsg
        exact nomatch hmsg
      · intro msg l habsurd
        exact habsurd.elim
  · exact .fail _

end
/-! ## The loop -/

/-- The loop of `run`, and what it waits for: the queue of its channel, and the
signal's value, whether it has been seen, and whether its sender is gone.
`arrived` is what the channel has taken and `served` what was processed. -/
structure Receiver (W : Type) where
  app : App W
  queue : List IncomingMessage
  signal : Bool
  unseen : Bool
  dropped : Bool
  returned : Bool
  arrived : List IncomingMessage
  served : List (Prog.Served IncomingMessage (App W) Call ApplicationError Panic Unit)

inductive ReceiverEvent (W : Type) where
  /-- A message is put into the channel. -/
  | arrives (incoming : IncomingMessage)
  /-- `shutdown_tx.send(value)` -/
  | signals (value : Bool)
  /-- `shutdown_tx` is dropped. -/
  | drops
  /-- The rest of the process moves on. -/
  | elsewhere (app : App W)
  /-- A turn that takes the branch of the messages, if it is ready. -/
  | receives
  /-- A turn that takes the branch of the signal, if it is ready. -/
  | looksUp

namespace Receiver

def start (app : App W) : Receiver W :=
  { app, queue := [], signal := false, unseen := false, dropped := false, returned := false,
    arrived := [], served := [] }

section
variable [Chrono] (ports : Ports W)

/-- `process(msg)`, at the head of the queue. -/
def receive (s : Receiver W) : Receiver W :=
  match s.queue with
  | [] => s
  | incoming :: queue =>
      { s with
        app := (process ports incoming s.app).world
        queue
        served := s.served ++ [⟨incoming, s.app, process ports incoming s.app⟩] }

/-- `changed()` is ready for a value not seen, and for ever without a sender. -/
def lookUp (s : Receiver W) : Receiver W :=
  if s.unseen || s.dropped then { s with unseen := false, returned := s.signal } else s

def step (s : Receiver W) : ReceiverEvent W → Receiver W
  | .arrives incoming =>
      if s.returned then s
      else { s with queue := s.queue ++ [incoming], arrived := s.arrived ++ [incoming] }
  | .signals value => if s.dropped then s else { s with signal := value, unseen := true }
  | .drops => { s with dropped := true }
  | .elsewhere app => { s with app }
  | .receives => if s.returned then s else s.receive ports
  | .looksUp => if s.returned then s else s.lookUp

/-! ## What every run keeps -/

/-- What was processed and what is queued is what arrived, in its order, and
every processing was a run of `process` where it stood. -/
structure InOrder (s : Receiver W) : Prop where
  order : s.served.map (·.request) ++ s.queue = s.arrived
  runs : ∀ e ∈ s.served, e.run = process ports e.request e.before

variable {ports} {s : Receiver W}

theorem InOrder.receive (h : s.InOrder ports) : (s.receive ports).InOrder ports := by
  rw [Receiver.receive]
  split
  · exact h
  · next incoming queue hqueue =>
      constructor
      · rw [List.map_append, List.append_assoc]
        rw [← h.order, hqueue]
        rfl
      · intro e he
        rcases List.mem_append.mp he with hbefore | hlast
        · exact h.runs e hbefore
        · rw [List.mem_singleton.mp hlast]

theorem InOrder.step (h : s.InOrder ports) (e : ReceiverEvent W) :
    (s.step ports e).InOrder ports := by
  cases e with
  | arrives incoming =>
      rw [Receiver.step]
      split
      · exact h
      · refine ⟨?_, h.runs⟩
        rw [← List.append_assoc, h.order]
  | signals value =>
      rw [Receiver.step]
      split
      · exact h
      · exact ⟨h.order, h.runs⟩
  | drops => exact ⟨h.order, h.runs⟩
  | elsewhere app => exact ⟨h.order, h.runs⟩
  | receives =>
      rw [Receiver.step]
      split
      · exact h
      · exact h.receive
  | looksUp =>
      rw [Receiver.step, lookUp]
      split
      · exact h
      · split
        · exact ⟨h.order, h.runs⟩
        · exact h

/-- No value of true has been sent. -/
structure Unsignalled (s : Receiver W) : Prop where
  signal : s.signal = false
  returned : s.returned = false

theorem Unsignalled.receive (h : s.Unsignalled) : (s.receive ports).Unsignalled := by
  rw [Receiver.receive]
  split
  · exact h
  · exact ⟨h.signal, h.returned⟩

/-- Without a sender of true, or without any sender, the loop goes on. -/
theorem Unsignalled.step (h : s.Unsignalled) {e : ReceiverEvent W}
    (hquiet : s.dropped = true ∨ e ≠ .signals true) : (s.step ports e).Unsignalled := by
  cases e with
  | arrives incoming =>
      rw [Receiver.step]
      split
      · exact h
      · exact ⟨h.signal, h.returned⟩
  | signals value =>
      rw [Receiver.step]
      split
      · exact h
      · next hsender =>
          refine ⟨?_, h.returned⟩
          cases value with
          | false => rfl
          | true =>
              rcases hquiet with hdropped | hne
              · exact absurd hdropped hsender
              · exact absurd rfl hne
  | drops => exact ⟨h.signal, h.returned⟩
  | elsewhere app => exact ⟨h.signal, h.returned⟩
  | receives =>
      rw [Receiver.step]
      split
      · exact h
      · exact h.receive
  | looksUp =>
      rw [Receiver.step, lookUp]
      split
      · exact h
      · split
        · exact ⟨h.signal, h.signal⟩
        · exact h

theorem dropped_step (h : s.dropped = true) (e : ReceiverEvent W) :
    (s.step ports e).dropped = true := by
  cases e with
  | arrives incoming | signals value =>
      rw [Receiver.step]
      split
      · exact h
      · exact h
  | drops => rfl
  | elsewhere app => exact h
  | receives =>
      rw [Receiver.step, Receiver.receive]
      split
      · exact h
      · split
        · exact h
        · exact h
  | looksUp =>
      rw [Receiver.step, lookUp]
      split
      · exact h
      · split
        · exact h
        · exact h

/-- A turn for each message queued takes them all. -/
theorem drains (n : Nat) (h : s.returned = false) (hn : s.queue.length = n) :
    (Runs.run (Receiver.step ports) (List.replicate n .receives) s).queue = [] := by
  induction n generalizing s with
  | zero => exact List.length_eq_zero_iff.mp hn
  | succ n ih =>
      obtain ⟨incoming, queue, hqueue⟩ := List.exists_cons_of_length_eq_add_one hn
      have hstep : s.step ports .receives = s.receive ports := by
        rw [Receiver.step, h]
        rfl
      have hnext : (s.receive ports).returned = false ∧ (s.receive ports).queue = queue := by
        rw [Receiver.receive, hqueue]
        exact ⟨h, rfl⟩
      rw [List.replicate_succ, run_cons, hstep]
      refine ih hnext.1 ?_
      rw [hqueue] at hn
      rw [hnext.2]
      exact Nat.succ.inj hn

/-- For every run of the loop, whatever arrives, however the branches are
chosen, and whatever the rest of the process does between the turns:

* what has been processed, followed by what is queued, is what has arrived;
* every processing calls a port where it is due only;
* without a true sent the loop has not returned, nor has it if the sender was
  dropped before one was sent;
* and while it has not, a turn for each message queued takes them all. -/
theorem receives_in_order (ports : Ports W) (app : App W) (events : List (ReceiverEvent W)) :
    let s := Runs.run (Receiver.step ports) events (start app)
    s.served.map (·.request) ++ s.queue = s.arrived ∧
    (∀ e ∈ s.served, e.run = process ports e.request e.before ∧
      ∀ before k after, e.run.log = before ++ k :: after → Due e.request before k) ∧
    (.signals true ∉ events → s.returned = false) ∧
    (∀ before after, events = before ++ .drops :: after → .signals true ∉ before →
      s.returned = false) ∧
    (s.returned = false →
      (Runs.run (Receiver.step ports) (List.replicate s.queue.length .receives) s).queue = []) := by
  intro s
  have hinorder : s.InOrder ports :=
    (always_of_invariant (P := InOrder ports) ⟨rfl, fun _ h => absurd h List.not_mem_nil⟩
      (fun s e h => h.step e) events).last
  have hunsignalled : ∀ before, .signals true ∉ before →
      (Runs.run (Receiver.step ports) before (start app)).Unsignalled := by
    intro before hnone
    refine (always_of_step (C := fun _ e => e ≠ .signals true) (P := Unsignalled) ⟨rfl, rfl⟩
      (fun s e h hne => h.step (.inr hne)) ?_).last
    rintro front e hfront rfl
    exact hnone (hfront.subset (List.mem_append_right _ List.mem_cons_self))
  refine ⟨hinorder.order, ?_, ?_, ?_, ?_⟩
  · intro e he
    refine ⟨hinorder.runs e he, ?_⟩
    intro before k after hlog
    rw [hinorder.runs e he] at hlog
    exact process_heeds ports e.request e.before before k after hlog
  · intro hnone
    exact (hunsignalled events hnone).returned
  · intro before after hevents hnone
    have hdrops : (.drops : ReceiverEvent W) ≠ .signals true := by
      intro heq
      cases heq
    have hkept : (Runs.run (Receiver.step ports) after
        ((Runs.run (Receiver.step ports) before (start app)).step ports .drops)).Unsignalled := by
      refine (always_of_invariant (P := fun s : Receiver W => s.Unsignalled ∧ s.dropped = true)
        ⟨(hunsignalled before hnone).step (.inr hdrops), rfl⟩ ?_ after).last.1
      rintro s e ⟨h, hdropped⟩
      exact ⟨h.step (.inl hdropped), dropped_step hdropped e⟩
    have hs : s = Runs.run (Receiver.step ports) after
        ((Runs.run (Receiver.step ports) before (start app)).step ports .drops) := by
      rw [← run_cons, ← run_append, ← hevents]
    rw [hs]
    exact hkept.returned
  · intro hreturned
    exact drains s.queue.length hreturned rfl

end

section
open Memory

/-- A message of the trusted peer, and then the sender of the signal is gone. -/
def abandoned : List (ReceiverEvent Memory) :=
  [.arrives ⟨peer.fingerprint, [header, 0x68, 0x69], 0⟩, .drops, .looksUp, .receives, .looksUp]

theorem receives_in_order_abandoned :
    (Runs.run (Receiver.step Memory.ports) abandoned
      (start (Memory.app trusting))).returned = false :=
  (receives_in_order Memory.ports (Memory.app trusting) abandoned).2.2.2.1
    [.arrives ⟨peer.fingerprint, [header, 0x68, 0x69], 0⟩] [.looksUp, .receives, .looksUp] rfl
    (by simp)

end
end Receiver
end ReceiveMessage
end Rubix
