/-
# `Rubix.Application.ReceiveMessage` — the message receiver

`process` checks the sender, decrypts, builds a message out of the ciphertext,
marks it delivered, and only then saves, updates and notifies.  A message
built by the builder is `Pending`, and the delivery state machine has no step
from `Pending` to `Delivered`: everything after `mark_delivered` is dead
(`buildDelivered_yields`), so `process` saves nothing, updates nothing and
notifies nobody (`process_effectless`).
-/
import Rubix.Application.Dto
import Rubix.Application.Memory

namespace Rubix

variable {W : Type}

open Effect (Prog Run)

namespace ReceiveMessage

def previewLen : Nat := 100

section
variable [Chrono]

/-- Steps 4 and 5: build the message, with the sender as its recipient, and
mark it delivered. -/
def buildDelivered (ports : Ports W) (incoming : IncomingMessage) (senderPeer : Peer) :
    UseCase W Message := do
  let id ← draw ports.newUuid
  let now ← draw ports.utcNow
  let msg ← Prog.orFail (fun _ => .domain) (MessageBuilder.build
    { senderFingerprint := some incoming.senderFingerprint
      recipientFingerprints := [senderPeer.fingerprint]
      content := some incoming.ciphertext } id now)
  let now ← draw ports.utcNow
  Prog.orFail (fun _ => .domain) (msg.markDelivered now)

/-- Steps 6 to 8: persist, update the sender's status, notify. -/
def deliver (ports : Ports W) (incoming : IncomingMessage) (plaintext : List UInt8)
    (msg : Message) : UseCase W Unit := do
  let saved ← ports.saveMessage msg
  orPersistence saved
  let now ← draw ports.utcNow
  let updated ← ports.updatePeerStatus incoming.senderFingerprint (.onlineNow now)
  orPersistence updated
  let text ← preview previewLen (Utf8.lossy plaintext)
  let _ ← ports.notifyMessageReceived incoming.senderFingerprint text

/-- `ReceiveMessageUseCase::process` -/
def process (ports : Ports W) (incoming : IncomingMessage) : UseCase W Unit := do
  let found ← ports.loadPeer incoming.senderFingerprint
  let sender? ← orPersistence found
  let senderPeer ← require .peerNotFound sender?
  let trusted ← ports.isTrusted incoming.senderFingerprint
  if trusted.toOption.getD false then do
    let answer ← ports.decryptFromPeer incoming.ciphertext incoming.senderFingerprint
    let plaintext ← Prog.orFail (fun _ => .security) answer
    let msg ← buildDelivered ports incoming senderPeer
    deliver ports incoming plaintext msg
  else Prog.fail .peerNotVerified

/-- `ReceiveMessageUseCase::run` on the messages the channel yields: an error
is logged and the loop goes on.  A panic would end it, but there is none
(`process_throws`). -/
def run (ports : Ports W) (incoming : List IncomingMessage) (s : App W) :
    List (Prog.Served IncomingMessage (App W) Call ApplicationError Panic Unit) :=
  Prog.serve (process ports) incoming s

end

/-! ## What a message must do -/

/-- The ports accept the message: the sender is stored and trusted, the
ciphertext decrypts, and it is a content the builder takes. -/
def acceptable (ports : Ports W) (incoming : IncomingMessage) (s : App W) : Bool :=
  let found := ports.persistence.loadPeer incoming.senderFingerprint s.env
  let trusted := ports.trust.isTrusted incoming.senderFingerprint found.2
  let decrypted := ports.security.decryptFromPeer incoming.ciphertext incoming.senderFingerprint
    trusted.2
  match found.1, trusted.1, decrypted.1 with
  | .ok (some _), .ok true, .ok _ =>
      decide (1 ≤ incoming.ciphertext.length ∧ incoming.ciphertext.length ≤ 65536)
  | _, _, _ => false

/-- Saving, updating a status, notifying: what a discarded message must not cause. -/
def IsEffect : Call → Prop
  | .saveMessage _ _ | .updatePeerStatus _ _ _ | .notifyMessageReceived _ _ _ => True
  | _ => False

/-- `m` is the delivered form of the incoming message. -/
def DeliveredAs (incoming : IncomingMessage) (m : Message) : Prop :=
  (∃ t, m.state = .delivered t) ∧ m.senderFingerprint = incoming.senderFingerprint ∧
    m.content = incoming.ciphertext ∧ incoming.senderFingerprint ∉ m.recipientFingerprints

/-- The accepted messages of a run are saved, one for one and in order of
arrival, and the others have no effect. -/
def Faithful (ports : Ports W)
    (served : List (Prog.Served IncomingMessage (App W) Call ApplicationError Panic Unit)) :
    Prop :=
  List.Forall₂ (fun e m => DeliveredAs e.request m)
      (served.filter fun e => acceptable ports e.request e.before) (saves (Prog.history served)) ∧
    ∀ e ∈ served, acceptable ports e.request e.before = false →
      ∀ k ∈ e.run.log, ¬ IsEffect k

/-! ## What `process` does -/

section
variable [Chrono] (ports : Ports W)

/-- The freshly built message is pending, and pending messages cannot be
marked delivered. -/
theorem buildDelivered_throws (incoming : IncomingMessage) (senderPeer : Peer) :
    Prog.Throws (buildDelivered ports incoming senderPeer) := by
  refine .bind (.silent _) ?_
  intro id
  refine .bind (.silent _) ?_
  intro now
  refine .bind_of (.orFail _ _) (.orFail fun msg hb => (MessageBuilder.build_ok hb).1)
    fun msg hpending => .bind (.silent _) fun now => ?_
  obtain ⟨e, he⟩ := Message.markDelivered_of_pending hpending now
  rw [he]
  exact .fail _

/-- No message is processed to the end, and none makes `process` panic. -/
theorem process_throws (incoming : IncomingMessage) : Prog.Throws (process ports incoming) := by
  refine .bind (.call _ _) fun found => .bind (.orFail _ _) fun sender? => ?_
  refine .bind (.orFail _ _) ?_
  intro senderPeer
  refine .bind (.call _ _) ?_
  intro trusted
  split
  · refine .bind (.call _ _) ?_
    intro answer
    refine .bind (.orFail _ _) ?_
    intro plaintext
    exact .bind_left (buildDelivered_throws ports incoming senderPeer) _
  · exact .fail _

/-- No message is saved, no status updated and nobody notified. -/
theorem process_effectless (incoming : IncomingMessage) :
    Prog.Logs (¬ IsEffect ·) (process ports incoming) := by
  refine .bind (.call fun _ => id) fun found => .bind (.orFail _ _) fun sender? => ?_
  refine .bind (.orFail _ _) fun senderPeer => .bind (.call fun _ => id) ?_
  intro trusted
  split
  · refine .bind (.call fun _ => id) ?_
    intro answer
    refine .bind (.orFail _ _) ?_
    intro plaintext
    refine .bind_of ?_ (buildDelivered_throws ports incoming senderPeer).yields
      fun _ habsurd => habsurd.elim
    refine .bind (.silent _) ?_
    intro id
    refine .bind (.silent _) ?_
    intro now
    exact .bind (.orFail _ _) fun msg => .bind (.silent _) fun now => .orFail _ _
  · exact .fail _

theorem run_effectless (incoming : List IncomingMessage) (s : App W) :
    ∀ e ∈ run ports incoming s, ∀ k ∈ e.run.log, ¬ IsEffect k :=
  Prog.serve_logs (process_effectless ports)

theorem saves_run (incoming : List IncomingMessage) (s : App W) :
    saves (Prog.history (run ports incoming s)) = [] := by
  refine List.filterMap_eq_nil_iff.mpr ?_
  intro k hk
  obtain ⟨e, he, hke⟩ := List.mem_flatMap.mp hk
  cases k with
  | saveMessage m answer => exact absurd trivial (run_effectless ports incoming s e he _ hke)
  | _ => rfl

/-- A run is faithful exactly when the ports accept none of its messages. -/
theorem run_faithful_iff (incoming : List IncomingMessage) (s : App W) :
    Faithful ports (run ports incoming s) ↔
      ∀ e ∈ run ports incoming s, acceptable ports e.request e.before = false := by
  constructor
  · rintro ⟨hsaved, -⟩ e he
    rw [saves_run, List.forall₂_nil_right_iff, List.filter_eq_nil_iff] at hsaved
    exact Bool.eq_false_iff.mpr (hsaved e he)
  · intro hnone
    refine ⟨?_, fun e he _ => run_effectless ports incoming s e he⟩
    rw [saves_run, List.forall₂_nil_right_iff, List.filter_eq_nil_iff]
    exact fun e he => Bool.eq_false_iff.mp (hnone e he)

end

section
open Memory

/-- A memory in which the example peer is stored and trusted. -/
def trusting : Memory := { peers := [peer], trusted := [peer.fingerprint] }

/-- A message of the trusted peer that decrypts to `hi` is not saved. -/
theorem trusted_message_lost :
    ¬ Faithful Memory.ports
      (run Memory.ports [⟨peer.fingerprint, [header, 0x68, 0x69], 0⟩] (app trusting)) := by
  rintro ⟨hsaved, -⟩
  rw [saves_run, List.forall₂_nil_right_iff] at hsaved
  exact absurd (congrArg List.length hsaved) (by decide)

end

end ReceiveMessage
end Rubix
