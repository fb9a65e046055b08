/-
# `Rubix.Networking.SecureChannel` — two connection tasks, and a network between them

Each end of a connection runs its task on a transport of its own.  The network
between them is nobody's: what arrives at an end is any bytes at all, in any
chunks, whatever the other end has written.

What an end passes on to its application is all the same, at every moment, a
front of the messages that the application of the other end has by then given
to it (`handed_prefix`): nothing is altered, invented, repeated or reordered,
also where a dropped decode has lost the bounds of the frames.

One thing is assumed of the cipher, in the run at hand: a frame that an end
opens under its counter is one that the other end has sealed under that counter
(`Genuine`).  That the counters stay in step with what was sent and with what
was passed on, through refused messages, failed writes, frames that do not
open and receivers that are gone, is what has to be proved.
-/
import Mathlib.Logic.Function.Basic
import Rubix.Networking.Disconnect
import Rubix.Security.Sealing
import Rubix.Security.TwoParty

namespace Rubix.Networking

open Effect (Prog)
open Security (SnowTransport Sealing CipherState counterTag counterSnow counterSealing
  Transport.encrypt Transport.decrypt Role)

variable {T O κ : Type}

/-! ## One end -/

/-- What a task uses of its surroundings, beside its transport. -/
structure Outside (O : Type) where
  /-- `write_all` on the stream -/
  writeAll : List UInt8 → O → Except String Unit × O
  /-- `incoming_tx.send`: is there still a receiver? -/
  handOver : List UInt8 → O → Bool × O

structure Station (T O : Type) where
  transport : T
  outside : O
  /-- What was encrypted, each with what that gave. -/
  encrypted : List (List UInt8 × List UInt8)

/-- The link of a station: `Transport::encrypt` and `decrypt` on its transport. -/
def Station.link (snow : SnowTransport T) (outside : Outside O) (peer : Fingerprint) :
    Link (Station T O) where
  peerFingerprint := peer
  encrypt data w :=
    match Transport.encrypt snow data w.transport with
    | (.ok frame, t) =>
        (.ok frame, { w with transport := t, encrypted := w.encrypted ++ [(data, frame)] })
    | (.error e, t) => (.error e, { w with transport := t })
  decrypt frame w :=
    let r := Transport.decrypt snow frame w.transport
    (r.1, { w with transport := r.2 })
  writeAll bytes w :=
    let r := outside.writeAll bytes w.outside
    (r.1, { w with outside := r.2 })
  handOver msg w :=
    let r := outside.handOver msg w.outside
    (r.1, { w with outside := r.2 })

/-- A task on a station, with a record of the messages passed on. -/
abbrev EndTask (T O : Type) : Type := Task (Station T O × List (List UInt8))

namespace EndTask

/-- A task that enters its loop. -/
def start (transport : T) (outside : O) : EndTask T O := Task.start (⟨transport, outside, []⟩, [])

def transport (t : EndTask T O) : T := t.world.1.transport

def encrypted (t : EndTask T O) : List (List UInt8 × List UInt8) := t.world.1.encrypted

/-- The messages passed on to `incoming_tx`. -/
def handed (t : EndTask T O) : List (List UInt8) := t.world.2

def step (snow : SnowTransport T) (outside : Outside O) (peer : Fingerprint) (t : EndTask T O)
    (e : Event) : EndTask T O :=
  Networking.step (Station.link snow outside peer).recording t e

/-- The messages given to a task to send. -/
def given (events : List Event) : List (List UInt8) :=
  events.filterMap fun
    | .outgoing msg => some msg
    | _ => none

/-- The frame that a poll of the task hands up. -/
def frame? (t : EndTask T O) : Option (List UInt8) :=
  match (poll t.decoding t.socket).1 with
  | .ready (.ok frame) => some frame
  | _ => none

/-- The frame that an event makes the task open. -/
def opens? (snow : SnowTransport T) (t : EndTask T O) : Event → Option (List UInt8)
  | .wake =>
      if t.running then
        t.frame?.filter fun frame => (Transport.decrypt snow frame t.transport).1.isOk
      else none
  | _ => none

/-! ## What a step does -/

section
variable {snow : SnowTransport T} (outside : Outside O) (peer : Fingerprint) {t : EndTask T O}

/-- What a step does: what it encrypts, what it passes on, and what the transport
comes through. -/
inductive Does (snow : SnowTransport T) (t t' : EndTask T O) : Event → Prop
  /-- Nothing was encrypted or opened. -/
  | idle (e : Event) : t'.transport = t.transport → t'.encrypted = t.encrypted →
      t'.handed = t.handed → (t'.running = true → t.running = true ∧ given [e] = []) →
      Does snow t t' e
  /-- The task ended: cancelled, or at something that was refused. -/
  | refused (e : Event) : t'.encrypted = t.encrypted → t'.handed = t.handed →
      t'.running = false → Does snow t t' e
  | encrypts (msg frame : List UInt8) : t.running = true →
      Transport.encrypt snow msg t.transport = (.ok frame, t'.transport) →
      t'.encrypted = t.encrypted ++ [(msg, frame)] → t'.handed = t.handed →
      Does snow t t' (.outgoing msg)
  /-- What was opened is passed on, unless there is no receiver left. -/
  | opens (frame msg : List UInt8) : t.running = true → t.opens? snow .wake = some frame →
      Transport.decrypt snow frame t.transport = (.ok msg, t'.transport) →
      t'.encrypted = t.encrypted →
      (t'.handed = t.handed ++ [msg] ∨ t'.handed = t.handed ∧ t'.running = false) →
      Does snow t t' .wake

/-- A message the transport refuses leaves no record, and ends the send. -/
theorem send_refused {msg : List UInt8} {e : Security.SecurityError} {t' : T}
    {w : Station T O × List (List UInt8)}
    (h : Transport.encrypt snow msg w.1.transport = (.error e, t')) :
    ∃ e', EncryptedConnection.send (Station.link snow outside peer).recording msg w
      = ⟨.err e', ({ w.1 with transport := t' }, w.2), []⟩ := by
  refine ⟨EncryptedConnection.encryptError (Station.link snow outside peer).recording e, ?_⟩
  simp only [EncryptedConnection.send, Prog.silent_bind, Link.recording, Station.link, h,
    Prog.orFail_error, Prog.fail_bind]

/-- What a send leaves behind that got past the transport, whether or not it is
written. -/
theorem send_encrypted {msg frame : List UInt8} {t' : T} {w : Station T O × List (List UInt8)}
    (h : Transport.encrypt snow msg w.1.transport = (.ok frame, t')) :
    let w' := (EncryptedConnection.send (Station.link snow outside peer).recording msg w).world
    w'.1.transport = t' ∧ w'.1.encrypted = w.1.encrypted ++ [(msg, frame)] ∧ w'.2 = w.2 := by
  simp only [EncryptedConnection.send, Prog.silent_bind, Link.recording, Station.link, h,
    Prog.orFail_ok, Prog.pure_bind_run]
  split
  · rw [Prog.silent_bind]
    rcases outside.writeAll (encode frame) w.1.outside with ⟨written, o⟩
    cases written with
    | ok u => exact ⟨rfl, rfl, rfl⟩
    | error e => exact ⟨rfl, rfl, rfl⟩
  · exact ⟨rfl, rfl, rfl⟩

theorem takeOutgoing_does (hrun : t.running = true) (msg : List UInt8) :
    Does snow t (takeOutgoing (Station.link snow outside peer).recording t msg)
      (.outgoing msg) := by
  rcases hencrypt : Transport.encrypt snow msg t.world.1.transport with ⟨result, t'⟩
  cases result with
  | error e =>
      obtain ⟨e', hsend⟩ := send_refused outside peer hencrypt
      simp only [takeOutgoing, hsend]
      exact .refused _ rfl rfl rfl
  | ok frame =>
      obtain ⟨htransport, hencrypted, hhanded⟩ :=
        send_encrypted outside peer hencrypt
      rw [← htransport] at hencrypt
      simp only [takeOutgoing]
      split
      · exact .encrypts msg frame hrun hencrypt hencrypted hhanded
      · exact .encrypts msg frame hrun hencrypt hencrypted hhanded
      · exact .encrypts msg frame hrun hencrypt hencrypted hhanded

/-- What is done with a frame that a poll hands up. -/
theorem takeFrame_does (snow : SnowTransport T) (frame : List UInt8)
    (w : Station T O × List (List UInt8)) :
    (∃ e t', Transport.decrypt snow frame w.1.transport = (.error e, t') ∧
      ∃ e', takeFrame (Station.link snow outside peer).recording frame w
        = ⟨.err e', ({ w.1 with transport := t' }, w.2), []⟩) ∨
    ∃ msg t', Transport.decrypt snow frame w.1.transport = (.ok msg, t') ∧
      ∃ taken o, outside.handOver msg w.1.outside = (taken, o) ∧
        takeFrame (Station.link snow outside peer).recording frame w
          = ⟨.ok taken, ({ w.1 with transport := t', outside := o },
              if taken then w.2 ++ [msg] else w.2), []⟩ := by
  rcases hdecrypt : Transport.decrypt snow frame w.1.transport with ⟨result, t'⟩
  cases result with
  | error e =>
      refine .inl ⟨e, t', rfl,
        EncryptedConnection.decryptError (Station.link snow outside peer).recording e, ?_⟩
      simp only [takeFrame, EncryptedConnection.decryptFrame, Prog.bind_assoc, Prog.silent_bind,
        Link.recording, Station.link, hdecrypt, Prog.orFail_error, Prog.fail_bind]
  | ok msg =>
      refine .inr ⟨msg, t', rfl, (outside.handOver msg w.1.outside).1,
        (outside.handOver msg w.1.outside).2, rfl, ?_⟩
      simp only [takeFrame, EncryptedConnection.decryptFrame, Prog.bind_assoc, Prog.silent_bind,
        Link.recording, Station.link, hdecrypt, Prog.orFail_ok, Prog.pure_bind_run]
      rfl

theorem pollRecv_does (hrun : t.running = true) :
    Does snow t (pollRecv (Station.link snow outside peer).recording t) .wake := by
  rw [pollRecv]
  rcases hpoll : poll t.decoding t.socket with ⟨result, socket⟩
  cases result with
  | pending d => exact .idle _ rfl rfl rfl fun _ => ⟨hrun, rfl⟩
  | ready result =>
      cases result with
      | error e => exact .refused _ rfl rfl rfl
      | ok frame =>
          have hframe : t.frame? = some frame := by
            rw [frame?, hpoll]
          rcases takeFrame_does outside peer snow frame t.world with
            ⟨e, t', hdecrypt, e', htake⟩ | ⟨msg, t', hdecrypt, taken, o, -, htake⟩
          · simp only [htake]
            exact .refused _ rfl rfl rfl
          · have hopens : t.opens? snow .wake = some frame := by
              rw [opens?, if_pos hrun, hframe, Option.filter_some, transport, hdecrypt]
              rfl
            simp only [htake]
            cases taken with
            | true => exact .opens frame msg hrun hopens hdecrypt rfl (.inl rfl)
            | false => exact .opens frame msg hrun hopens hdecrypt rfl (.inr ⟨rfl, rfl⟩)

theorem step_does (snow : SnowTransport T) (t : EndTask T O) (e : Event) :
    Does snow t (t.step snow outside peer e) e := by
  cases e with
  | arrive chunk => exact .idle _ rfl rfl rfl fun hrun => ⟨hrun, rfl⟩
  | hangUp e => exact .idle _ rfl rfl rfl fun hrun => ⟨hrun, rfl⟩
  | cancel => exact .refused _ rfl rfl rfl
  | outgoing msg =>
      rw [step, Networking.step]
      split
      · next hrun => exact takeOutgoing_does outside peer hrun msg
      · next hstopped => exact .idle _ rfl rfl rfl fun hrun => absurd hrun hstopped
  | wake =>
      rw [step, Networking.step]
      split
      · next hrun => exact pollRecv_does outside peer hrun
      · exact .idle _ rfl rfl rfl fun hrun => ⟨hrun, rfl⟩

/-- A step encrypts what the task was given, or nothing. -/
theorem Does.given {t' : EndTask T O} {e : Event} (h : Does snow t t' e) :
    t'.encrypted.map Prod.fst = t.encrypted.map Prod.fst ∧
        (t'.running = true → t.running = true ∧ EndTask.given [e] = []) ∨
      t.running = true ∧
        t'.encrypted.map Prod.fst = t.encrypted.map Prod.fst ++ EndTask.given [e] := by
  cases h with
  | idle _ htransport hencrypted hhanded hrun =>
      rw [hencrypted]
      exact .inl ⟨rfl, hrun⟩
  | refused _ hencrypted hhanded hstopped =>
      rw [hencrypted, hstopped]
      exact .inl ⟨rfl, nofun⟩
  | encrypts msg frame hrun _ hencrypted hhanded =>
      rw [hencrypted, List.map_append]
      exact .inr ⟨hrun, rfl⟩
  | opens frame msg hrun _ _ hencrypted hhanded =>
      rw [hencrypted]
      exact .inl ⟨rfl, fun _ => ⟨hrun, rfl⟩⟩

/-- A task has encrypted what it was given, or it has ended with a front of it
encrypted. -/
theorem run_given (snow : SnowTransport T) (t : EndTask T O) (events : List Event) :
    (Runs.run (step snow outside peer) events t).encrypted.map Prod.fst
        = t.encrypted.map Prod.fst ++ EndTask.given events ∨
      (Runs.run (step snow outside peer) events t).running = false ∧
        ∃ msgs, msgs <+: EndTask.given events ∧
          (Runs.run (step snow outside peer) events t).encrypted.map Prod.fst
            = t.encrypted.map Prod.fst ++ msgs := by
  induction events using List.reverseRecOn with
  | nil => exact .inl (List.append_nil _).symm
  | append_singleton events e ih =>
      have hsplit : EndTask.given (events ++ [e]) = EndTask.given events ++ EndTask.given [e] :=
        List.filterMap_append
      rw [Runs.run_concat, hsplit]
      generalize Runs.run (step snow outside peer) events t = t' at ih
      rcases (step_does outside peer snow t' e).given with
        ⟨hsame, hstill⟩ | ⟨hrun, hmore⟩
      · rw [hsame]
        cases hnext : (t'.step snow outside peer e).running with
        | true =>
            obtain ⟨hrun, hnone⟩ := hstill hnext
            rw [hnone, List.append_nil]
            exact .inl (ih.resolve_right fun hstopped => by simp [hrun] at hstopped)
        | false =>
            refine .inr ⟨rfl, ?_⟩
            rcases ih with hall | ⟨-, msgs, hmsgs, hfront⟩
            · exact ⟨_, List.prefix_append _ _, hall⟩
            · exact ⟨msgs, hmsgs.trans (List.prefix_append _ _), hfront⟩
      · have hall := ih.resolve_right fun hstopped => by simp [hrun] at hstopped
        rw [hmore, hall, List.append_assoc]
        exact .inl rfl

theorem run_given_front (snow : SnowTransport T) (hnew : t.encrypted = []) (events : List Event) :
    (Runs.run (step snow outside peer) events t).encrypted.map Prod.fst <+:
      EndTask.given events := by
  rcases run_given outside peer snow t events with hall | ⟨-, msgs, hmsgs, hfront⟩
  · rw [hall, hnew]
    exact List.prefix_rfl
  · rw [hfront, hnew]
    exact hmsgs

end

end EndTask

/-! ## Two ends -/

section
variable (snow : SnowTransport T) (outside : Role → Outside O) (fingerprint : Role → Fingerprint)

/-- An event at one of the ends. -/
def stepEnds (d : Role → EndTask T O) (e : Role × Event) : Role → EndTask T O :=
  Function.update d e.1 ((d e.1).step snow (outside e.1) (fingerprint e.1.other) e.2)

/-- What happens at an end. -/
def eventsAt (r : Role) (events : List (Role × Event)) : List Event :=
  events.filterMap fun e => if e.1 = r then some e.2 else none

theorem eventsAt_cons (r : Role) (e : Role × Event) (events : List (Role × Event)) :
    eventsAt r (e :: events) = if e.1 = r then e.2 :: eventsAt r events else eventsAt r events := by
  by_cases hr : e.1 = r
  · simp [eventsAt, hr]
  · simp [eventsAt, hr]

/-- The ends meet in the bytes that arrive, and nowhere else. -/
theorem run_ends (events : List (Role × Event)) (d : Role → EndTask T O) (r : Role) :
    Runs.run (stepEnds snow outside fingerprint) events d r =
      Runs.run (EndTask.step snow (outside r) (fingerprint r.other)) (eventsAt r events) (d r) := by
  induction events generalizing d with
  | nil => rfl
  | cons e events ih =>
      rw [Runs.run_cons, ih]
      by_cases hr : e.1 = r
      · subst hr
        rw [stepEnds, Function.update_self, eventsAt_cons, if_pos rfl, Runs.run_cons]
      · rw [stepEnds, Function.update_of_ne (Ne.symm hr), eventsAt_cons, if_neg hr]

end

section
variable {snow : SnowTransport T} (S : Sealing snow κ)

/-- A frame that an end opens is the one that the other end has sealed under
the same counter. -/
def Genuine (d : Role → EndTask T O) (e : Role × Event) : Prop :=
  ∀ frame ∈ (d e.1).opens? snow e.2,
    ((d e.1.other).encrypted.map Prod.snd)[(S.receiving (d e.1).transport).nonce]? = some frame

instance (d : Role → EndTask T O) (e : Role × Event) : Decidable (Genuine S d e) :=
  inferInstanceAs (Decidable (∀ frame ∈ (d e.1).opens? snow e.2, _))

/-- Where the two ends of one direction are. -/
structure InStep (key : κ) (sender receiver : EndTask T O) : Prop where
  sealed : ∀ (n : Nat) (p : List UInt8 × List UInt8), sender.encrypted[n]? = some p →
    p.2 = S.ciphertext ⟨key, n⟩ p.1
  sending : sender.running = true → S.sending sender.transport = ⟨key, sender.encrypted.length⟩
  receiving : receiver.running = true →
    S.receiving receiver.transport = ⟨key, receiver.handed.length⟩
  front : receiver.handed <+: sender.encrypted.map Prod.fst

variable {S} {key : κ} {sender receiver : EndTask T O}

/-- What the sending end does keeps the direction in step. -/
theorem InStep.send (h : InStep S key sender receiver) {sender' : EndTask T O} {e : Event}
    (hdoes : EndTask.Does snow sender sender' e) : InStep S key sender' receiver := by
  cases hdoes with
  | idle _ htransport hencrypted _ hrun =>
      refine ⟨?_, fun hrunning => ?_, h.receiving, ?_⟩
      · rw [hencrypted]
        exact h.sealed
      · rw [htransport, hencrypted]
        exact h.sending (hrun hrunning).1
      · rw [hencrypted]
        exact h.front
  | refused _ hencrypted _ hstopped =>
      refine ⟨?_, fun hrunning => ?_, h.receiving, ?_⟩
      · rw [hencrypted]
        exact h.sealed
      · rw [hstopped] at hrunning
        cases hrunning
      · rw [hencrypted]
        exact h.front
  | encrypts msg frame hrun hencrypt hencrypted _ =>
      have hcounter := h.sending hrun
      rcases S.encrypt_cases msg sender.transport with ⟨t', hok, hnext, -⟩ | ⟨e, t', herror, -⟩
      · rw [hok] at hencrypt
        obtain ⟨hframe, rfl⟩ := Prod.mk.inj hencrypt
        have hframe' : S.ciphertext (S.sending sender.transport) msg = frame := Except.ok.inj hframe
        rw [hcounter] at hframe' hnext
        refine ⟨fun n p hp => ?_, fun _ => ?_, h.receiving, ?_⟩
        · rw [hencrypted] at hp
          rcases Nat.lt_trichotomy n sender.encrypted.length with hlt | rfl | hgt
          · rw [List.getElem?_append_left hlt] at hp
            exact h.sealed n p hp
          · rw [List.getElem?_concat_length] at hp
            cases hp
            exact hframe'.symm
          · have hnone : (sender.encrypted ++ [(msg, frame)])[n]? = none := by
              rw [List.getElem?_eq_none_iff, List.length_append, List.length_singleton]
              exact hgt
            rw [hnone] at hp
            cases hp
        · rw [hnext, hencrypted, List.length_append]
          rfl
        · rw [hencrypted, List.map_append]
          exact h.front.trans (List.prefix_append _ _)
      · rw [herror] at hencrypt
        cases hencrypt
  | opens frame msg hrun _ hdecrypt hencrypted _ =>
      have hkept : S.sending sender'.transport = S.sending sender.transport := by
        rcases S.decrypt_cases frame sender.transport with
          ⟨plaintext, t', hok, -, -, hsending⟩ | ⟨e, t', herror, -⟩
        · rw [hok] at hdecrypt
          cases hdecrypt
          exact hsending
        · rw [herror] at hdecrypt
          cases hdecrypt
      refine ⟨?_, fun _ => ?_, h.receiving, ?_⟩
      · rw [hencrypted]
        exact h.sealed
      · rw [hkept, hencrypted]
        exact h.sending hrun
      · rw [hencrypted]
        exact h.front

/-- What the receiving end does keeps the direction in step, if what it opens is
genuine. -/
theorem InStep.receive (h : InStep S key sender receiver) {receiver' : EndTask T O} {e : Event}
    (hdoes : EndTask.Does snow receiver receiver' e)
    (hgenuine : ∀ frame ∈ receiver.opens? snow e,
      (sender.encrypted.map Prod.snd)[(S.receiving receiver.transport).nonce]? = some frame) :
    InStep S key sender receiver' := by
  cases hdoes with
  | idle _ htransport _ hhanded hrun =>
      refine ⟨h.sealed, h.sending, fun hrunning => ?_, ?_⟩
      · rw [htransport, hhanded]
        exact h.receiving (hrun hrunning).1
      · rw [hhanded]
        exact h.front
  | refused _ _ hhanded hstopped =>
      refine ⟨h.sealed, h.sending, fun hrunning => ?_, ?_⟩
      · rw [hstopped] at hrunning
        cases hrunning
      · rw [hhanded]
        exact h.front
  | encrypts msg frame hrun hencrypt _ hhanded =>
      have hkept : S.receiving receiver'.transport = S.receiving receiver.transport := by
        rcases S.encrypt_cases msg receiver.transport with ⟨t', hok, -, hkept⟩ | ⟨e, t', herror, -⟩
        · rw [hok] at hencrypt
          cases hencrypt
          exact hkept
        · rw [herror] at hencrypt
          cases hencrypt
      refine ⟨h.sealed, h.sending, fun _ => ?_, ?_⟩
      · rw [hkept, hhanded]
        exact h.receiving hrun
      · rw [hhanded]
        exact h.front
  | opens frame msg hrun hopens hdecrypt _ hhanded =>
      have hcounter := h.receiving hrun
      obtain ⟨hframe, hnext⟩ : frame = S.ciphertext (S.receiving receiver.transport) msg ∧
          S.receiving receiver'.transport = (S.receiving receiver.transport).next := by
        rcases S.decrypt_cases frame receiver.transport with
          ⟨plaintext, t', hok, hsealed, hnext, -⟩ | ⟨e, t', herror, -⟩
        · rw [hok] at hdecrypt
          cases hdecrypt
          exact ⟨hsealed, hnext⟩
        · rw [herror] at hdecrypt
          cases hdecrypt
      -- the other end has sealed this frame under this counter, and of one payload only
      have hmade := hgenuine frame hopens
      rw [hcounter, List.getElem?_map] at hmade
      obtain ⟨pair, hpair, hsecond⟩ := Option.map_eq_some_iff.mp hmade
      have hsealed := h.sealed _ pair hpair
      rw [hsecond, hframe, hcounter] at hsealed
      have hmsg : msg = pair.1 := S.injective hsealed
      have hlonger : receiver.handed ++ [msg] <+: sender.encrypted.map Prod.fst := by
        obtain ⟨rest, hrest⟩ := h.front
        have hat : (sender.encrypted.map Prod.fst)[receiver.handed.length]? = some msg := by
          rw [List.getElem?_map, hpair, hmsg]
          rfl
        rw [← hrest, List.getElem?_append_right (Nat.le_refl _), Nat.sub_self] at hat
        cases rest with
        | nil => cases hat
        | cons first rest =>
            cases hat
            exact ⟨rest, by rw [← hrest, List.append_assoc]; rfl⟩
      rcases hhanded with hhanded | ⟨hhanded, hstopped⟩
      · refine ⟨h.sealed, h.sending, fun _ => ?_, ?_⟩
        · rw [hnext, hcounter, hhanded, List.length_append]
          rfl
        · rw [hhanded]
          exact hlonger
      · refine ⟨h.sealed, h.sending, fun hrunning => ?_, ?_⟩
        · rw [hstopped] at hrunning
          cases hrunning
        · rw [hhanded]
          exact h.front

end

/-! ## Whole runs -/

section
variable {snow : SnowTransport T} (S : Sealing snow κ) (keys : Role → κ)

/-- An end whose handshake has just finished: it sends with its key, and
receives with that of the other end. -/
structure Fresh (r : Role) (t : EndTask T O) : Prop where
  sending : S.sending t.transport = ⟨keys r, 0⟩
  receiving : S.receiving t.transport = ⟨keys r.other, 0⟩
  encrypted : t.encrypted = []
  handed : t.handed = []

variable {S keys} {outside : Role → Outside O} {fingerprint : Role → Fingerprint}
  {d : Role → EndTask T O} {events : List (Role × Event)}

theorem Fresh.inStep (h : ∀ r, Fresh S keys r (d r)) (r : Role) :
    InStep S (keys r) (d r) (d r.other) := by
  have hother : (keys r.other.other) = keys r := by cases r <;> rfl
  refine ⟨fun n p hp => ?_, fun _ => ?_, fun _ => ?_, ?_⟩
  · rw [(h r).encrypted] at hp
    cases hp
  · rw [(h r).sending, (h r).encrypted]
    rfl
  · rw [(h r.other).receiving, (h r.other).handed, hother]
    rfl
  · rw [(h r.other).handed]
    exact List.nil_prefix

/-- Both directions stay in step. -/
theorem stepEnds_inStep (h : ∀ r, InStep S (keys r) (d r) (d r.other)) (e : Role × Event)
    (hgenuine : Genuine S d e) (r : Role) :
    InStep S (keys r) (stepEnds snow outside fingerprint d e r)
      (stepEnds snow outside fingerprint d e r.other) := by
  obtain ⟨at_, e⟩ := e
  have hdoes := EndTask.step_does (outside at_) (fingerprint at_.other) snow (d at_) e
  by_cases hr : at_ = r
  · subst hr
    have hne : at_.other ≠ at_ := by cases at_ <;> nofun
    rw [stepEnds, Function.update_self, Function.update_of_ne hne]
    exact (h at_).send hdoes
  · have hother : at_ = r.other := by cases at_ <;> cases r <;> first | rfl | exact absurd rfl hr
    subst hother
    have hback : r.other.other = r := by cases r <;> rfl
    rw [stepEnds, Function.update_of_ne (Ne.symm hr), Function.update_self]
    refine (h r).receive hdoes fun frame hframe => ?_
    have hmade := hgenuine frame hframe
    rw [hback] at hmade
    exact hmade

/-- Whatever the network does, what an end has passed on is at every moment a
front of what the other end had by then been given to send. -/
theorem handed_prefix (hfresh : ∀ r, Fresh S keys r (d r))
    (hgenuine : Runs.Guarded (stepEnds snow outside fingerprint) (Genuine S) events d) :
    ∀ before, before <+: events → ∀ r : Role,
      (Runs.run (stepEnds snow outside fingerprint) before d r).handed <+:
        EndTask.given (eventsAt r.other before) := by
  intro before hbefore r
  have hinStep := Runs.always_of_step (P := fun d => ∀ r, InStep S (keys r) (d r) (d r.other))
    (Fresh.inStep hfresh) (fun d e h he => stepEnds_inStep h e he) hgenuine before hbefore r.other
  have hback : r.other.other = r := by cases r <;> rfl
  rw [hback] at hinStep
  refine hinStep.front.trans ?_
  rw [run_ends]
  exact EndTask.run_given_front _ _ _ (hfresh r.other).encrypted _

end

/-! ## A frame that is sent twice -/

/-- A stream that takes every byte, and an application that takes every
message. -/
def openStream : Outside (List UInt8) where
  writeAll bytes o := (.ok (), o ++ bytes)
  handOver _ o := (true, o)

/-- Two ends behind a handshake. -/
def twoEnds : Role → EndTask (CipherState Nat × CipherState Nat) (List UInt8)
  | .initiator => .start (⟨1, 0⟩, ⟨2, 0⟩) []
  | .responder => .start (⟨2, 0⟩, ⟨1, 0⟩) []

/-- A message, and the network delivers its frame in two chunks, and then once
more. -/
def replayed : List (Role × Event) :=
  [(.initiator, .outgoing [7]),
    (.responder, .arrive ((encode ([7] ++ counterTag ⟨1, 0⟩)).take 6)), (.responder, .wake),
    (.responder, .arrive ((encode ([7] ++ counterTag ⟨1, 0⟩)).drop 6)), (.responder, .wake),
    (.responder, .arrive (encode ([7] ++ counterTag ⟨1, 0⟩))), (.responder, .wake)]

theorem handed_prefix_replayed :
    (Runs.run (stepEnds counterSnow (fun _ => openStream) fun _ => ⟨Vector.replicate 20 0⟩)
        replayed twoEnds .responder).handed = [[7]] ∧
      ∀ before, before <+: replayed → ∀ r : Role,
        (Runs.run (stepEnds counterSnow (fun _ => openStream) fun _ => ⟨Vector.replicate 20 0⟩)
            before twoEnds r).handed <+:
          EndTask.given (eventsAt r.other before) := by
  have hfresh :
      ∀ r, Fresh counterSealing (fun | .initiator => 1 | .responder => 2) r (twoEnds r) := by
    intro r
    cases r with
    | initiator => exact ⟨rfl, rfl, rfl, rfl⟩
    | responder => exact ⟨rfl, rfl, rfl, rfl⟩
  exact ⟨by decide +kernel, handed_prefix hfresh (by decide +kernel)⟩

end Rubix.Networking
