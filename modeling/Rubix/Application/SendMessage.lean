/-
# `Rubix.Application.SendMessage` — sending a message with retries

A message is saved in `Pending`, sent, and saved again in the state the
sending left it in.  `sendWithRetry` first marks it `Sending`, then resolves
the recipient's address and connects, and only then enters the loop of
attempts:

    prepare        validate, limit, encrypt, build, save       (steps 1 to 7)
    sendWithRetry  mark Sending, connect, attempt at most 4 times    (step 8)
    finish         step 8, save again, respond                 (steps 8 to 10)

Inside the loop every end is accounted for: `Sent` on the first success,
`Failed` after the last failure (`sendLoop_settles`).  An address that does
not resolve or a connection that fails returns before the loop, and the
message is saved as `Sending` — with no attempt pending.
-/
import Rubix.Application.Dto
import Rubix.Application.Memory

namespace Rubix

variable {W : Type}

open Effect (Prog Run)

namespace SendMessage

/-- Max retries for message delivery. -/
def maxRetries : Nat := 3

/-- Base delay for exponential backoff. -/
def baseBackoffMs : Int := 500

/-- Max message content size, before encryption. -/
def maxContentBytes : Nat := 65536

/-- `validate_request` -/
def validateRequest (request : SendMessageRequest) : Except ApplicationError Unit :=
  if request.recipientFingerprint.utf8ByteSize = 0 then
    .error (.validation "recipient_fingerprint" "cannot be empty")
  else if request.content.utf8ByteSize = 0 then
    .error (.validation "content" "cannot be empty")
  else if maxContentBytes < request.content.utf8ByteSize then
    .error (.validation "content" s!"exceeds {maxContentBytes} bytes")
  else .ok ()

/-- Steps 1 and 2: the request and the recipient's fingerprint. -/
def validate (request : SendMessageRequest) : Except ApplicationError Fingerprint :=
  match validateRequest request with
  | .error e => .error e
  | .ok () =>
      match Fingerprint.fromHex request.recipientFingerprint with
      | .error e => .error (.validation "recipient_fingerprint" e.toString)
      | .ok fp => .ok fp

/-- `format!("send:{}", ...)` -/
def rateKey (fp : Fingerprint) : String := "send:" ++ fp.toFormattedString

def checkLimiter (key : String) : UseCase W Bool :=
  Prog.silent fun s =>
    ((s.sendLimiter.check s.now key).1,
      { s with sendLimiter := (s.sendLimiter.check s.now key).2 })

/-- What the first steps hand on. -/
structure Prepared where
  message : Message
  recipientFp : Fingerprint
  ciphertext : List UInt8
  plaintext : List UInt8
  deriving DecidableEq

/-- Steps 1 to 7: everything up to the first save. -/
def prepare (ports : Ports W) (request : SendMessageRequest) : UseCase W Prepared := do
  let recipientFp ← Prog.orFail id (validate request)
  let allowed ← checkLimiter (rateKey recipientFp)
  if allowed then do
    let identity ← Prog.silent fun s => (s.identity, s)
    let plaintext := Utf8.encode request.content.toList
    let encrypted ← ports.encryptForPeer plaintext recipientFp
    let ciphertext ← Prog.orFail (fun _ => .security) encrypted
    let id ← draw ports.newUuid
    let now ← draw ports.utcNow
    let message ← Prog.orFail (fun _ => .domain) (MessageBuilder.build
      { senderFingerprint := some identity.fingerprint
        recipientFingerprints := [recipientFp]
        content := some ciphertext
        contentType := request.contentType.toDomain } id now)
    let saved ← ports.saveMessage message
    orPersistence saved
    pure { message, recipientFp, ciphertext, plaintext }
  else Prog.fail .rateLimited

/-- `resolve_address`, on what `load_peer` answers. -/
def addressOf (ports : Ports W) :
    Except PersistenceError (Option Peer) → Except ApplicationError SocketAddr
  | .error _ => .error .persistence
  | .ok none => .error .peerNotFound
  | .ok (some peer) =>
      match peer.addresses.head? with
      | none => .error (.validation "peer_address" "peer has no known addresses")
      | some text =>
          match ports.parseSocketAddr text with
          | none => .error (.validation "peer_address" "invalid address format")
          | some addr => .ok addr

/-- What gets past step 7: a pending message, saved once and before any attempt. -/
theorem prepare_traces (ports : Ports W) (request : SendMessageRequest) :
    Prog.Traces (fun p log => p.message.state = .pending ∧ saves log = [p.message] ∧ sends log = [])
      (prepare ports request) := by
  refine .orFail_bind ?_
  intro fp _
  refine .silent_bind ?_
  intro allowed
  split
  · refine .silent_bind ?_
    intro identity
    refine .call_bind ?_
    intro encrypted
    refine .orFail_bind ?_
    intro ct _
    refine .silent_bind ?_
    intro id
    refine .silent_bind ?_
    intro now
    refine .orFail_bind ?_
    intro message hbuilt
    refine .call_bind fun saved => .orFail_bind fun _ _ => .pure ⟨?_, rfl, rfl⟩
    exact (MessageBuilder.build_ok hbuilt).1
  · exact .fail _

/-! ## What the answers to the attempts must do -/

/-- What the answers to the attempts make of the message. -/
def Settled (answers : List (Except NetworkError Unit)) (m : Message) : Prop :=
  (.ok () ∈ answers → ∃ t, m.state = .sent t) ∧
    (.ok () ∉ answers → ∃ t, m.state = .failed t true)

/-- No attempt is made after the first success. -/
def StopsAtSuccess (answers : List (Except NetworkError Unit)) : Prop :=
  ∀ before after, answers = before ++ .ok () :: after → after = []

theorem StopsAtSuccess.singleton (a : Except NetworkError Unit) : StopsAtSuccess [a] := by
  intro before after h
  cases before with
  | nil => exact (List.cons.inj h).2.symm
  | cons b before => exact absurd (List.cons.inj h).2 (by simp)

theorem StopsAtSuccess.cons {answers : List (Except NetworkError Unit)} {e : NetworkError}
    (h : StopsAtSuccess answers) : StopsAtSuccess (.error e :: answers) := by
  intro before after heq
  cases before with
  | nil => exact nomatch (List.cons.inj heq).1
  | cons b before => exact h before after (List.cons.inj heq).2

/-! ## Steps 8 to 10 -/

section
variable [Chrono]

/-- `Duration::from_millis(BASE_BACKOFF_MS * 2_u64.pow(attempt))` -/
def backoff (attempt : Nat) : Duration := baseBackoffMs * (Nat.pow 2 attempt : Nat) * 1000000

/-- The loop of attempts, on the attempt numbers left; the message comes back
with the result, as it is borrowed mutably. -/
def sendLoop (ports : Ports W) (conn : ConnectionId) (ciphertext : List UInt8) :
    List Nat → Message → UseCase W (Message × Except ApplicationError Unit)
  | [], _ => Prog.abort .unreachable
  | attempt :: rest, msg => do
      let answer ← ports.sendToPeer conn ciphertext
      match answer with
      | .ok () => do
          let now ← draw ports.utcNow
          match msg.markSent now with
          | .ok msg => pure (msg, .ok ())
          | .error _ => pure (msg, .error .domain)
      | .error _ =>
          -- the three guarded arms of the source differ in what they log only
          if attempt < maxRetries then do
            sleep (backoff attempt)
            sendLoop ports conn ciphertext rest msg
          else do
            let now ← draw ports.utcNow
            match msg.markFailed true now with
            | .ok msg => pure (msg, .error .network)
            | .error _ => pure (msg, .error .domain)

/-- `send_with_retry` -/
def sendWithRetry (ports : Ports W) (msg : Message) (recipientFp : Fingerprint)
    (ciphertext : List UInt8) : UseCase W (Message × Except ApplicationError Unit) :=
  match msg.markSending with
  | .error _ => pure (msg, .error .domain)
  | .ok msg => do
      let found ← ports.loadPeer recipientFp
      match addressOf ports found with
      | .error e => pure (msg, .error e)
      | .ok addr => do
          let answer ← ports.connect addr (some recipientFp)
          match answer.value with
          | .error _ => pure (msg, .error .network)
          | .ok (conn, _) =>
              sendLoop ports conn ciphertext (List.range (maxRetries + 1)) msg

/-- Steps 8 to 10; the result of the sending only decides what is logged. -/
def finish (ports : Ports W) (p : Prepared) : UseCase W MessageResponse := do
  let (msg, _) ← sendWithRetry ports p.message p.recipientFp p.ciphertext
  let saved ← ports.saveMessage msg
  orPersistence saved
  MessageResponse.fromMessage msg (Utf8.lossy p.plaintext)

/-- `SendMessageUseCase::execute` -/
def execute (ports : Ports W) (request : SendMessageRequest) : UseCase W MessageResponse :=
  prepare ports request >>= finish ports

/-! ## The loop of attempts -/

/-- The sending returns, the message is settled, and the attempts were few
enough and none too many; nothing was saved meanwhile. -/
structure Settles (limit : Nat) (msg : Message)
    (run : Run (App W) Call ApplicationError Panic (Message × Except ApplicationError Unit)) :
    Prop where
  returns : ∃ final result, run.outcome = .ok (final, result) ∧ final.id = msg.id ∧
    Settled (sends run.log) final
  bounded : (sends run.log).length ≤ limit
  stops : StopsAtSuccess (sends run.log)
  quiet : saves run.log = []

variable (ports : Ports W)

theorem sendLoop_success (conn : ConnectionId) (ciphertext : List UInt8) {msg : Message}
    (hmsg : msg.state = .sending) {s : App W}
    (hanswer : (ports.network.sendToPeer conn ciphertext s.env).1 = .ok ()) (attempt : Nat)
    (rest : List Nat) :
    Settles 1 msg (sendLoop ports conn ciphertext (attempt :: rest) msg s) := by
  have hvalid : ∀ t, msg.state.validTransition (.sent t) = true := fun t => by rw [hmsg]; rfl
  simp only [sendLoop, Ports.sendToPeer, ask, draw, Prog.call_bind, hanswer, Prog.silent_bind]
  obtain ⟨final, hfinal, hstate, hid⟩ := Message.transitionState_ok
    (hvalid (ports.utcNow (ports.network.sendToPeer conn ciphertext s.env).2).1)
  simp only [Message.markSent, hfinal, Prog.pure_run]
  exact ⟨⟨final, .ok (), rfl, hid, fun _ => ⟨_, hstate⟩, fun h => absurd List.mem_cons_self h⟩,
    Nat.le_refl 1, .singleton _, rfl⟩

theorem sendLoop_last (conn : ConnectionId) (ciphertext : List UInt8) {msg : Message}
    (hmsg : msg.state = .sending) {s : App W} {e : NetworkError}
    (hanswer : (ports.network.sendToPeer conn ciphertext s.env).1 = .error e) (rest : List Nat) :
    Settles 1 msg (sendLoop ports conn ciphertext (maxRetries :: rest) msg s) := by
  have hvalid : ∀ t, msg.state.validTransition (.failed t true) = true := fun t => by
    rw [hmsg]; rfl
  simp only [sendLoop, Ports.sendToPeer, ask, draw, Prog.call_bind, hanswer, Prog.silent_bind,
    Nat.lt_irrefl, if_false]
  obtain ⟨final, hfinal, hstate, hid⟩ := Message.transitionState_ok
    (hvalid (ports.utcNow (ports.network.sendToPeer conn ciphertext s.env).2).1)
  simp only [Message.markFailed, hfinal, Prog.pure_run]
  refine ⟨⟨final, .error .network, rfl, hid, fun h => ?_, fun _ => ⟨_, hstate⟩⟩,
    Nat.le_refl 1, .singleton _, rfl⟩
  exact nomatch List.mem_singleton.mp h

/-- A failed attempt that is not the last leaves everything to the attempts
after it. -/
theorem sendLoop_retry (conn : ConnectionId) (ciphertext : List UInt8) {msg : Message}
    {s : App W} {e : NetworkError}
    (hanswer : (ports.network.sendToPeer conn ciphertext s.env).1 = .error e) {attempt : Nat}
    (hlt : attempt < maxRetries) {rest : List Nat} {limit : Nat}
    (hrest : ∀ s, Settles limit msg (sendLoop ports conn ciphertext rest msg s)) :
    Settles (limit + 1) msg (sendLoop ports conn ciphertext (attempt :: rest) msg s) := by
  simp only [sendLoop, Ports.sendToPeer, ask, Prog.call_bind, hanswer, hlt, if_true, sleep]
  obtain ⟨⟨final, result, hout, hid, hsent, hfailed⟩, hbounded, hstops, hquiet⟩ :=
    hrest { s with env := (ports.network.sendToPeer conn ciphertext s.env).2 }
  have hmem : ∀ {answers : List (Except NetworkError Unit)},
      .ok () ∈ .error e :: answers ↔ .ok () ∈ answers := by
    simp [List.mem_cons]
  refine ⟨⟨final, result, hout, hid, fun h => hsent (hmem.mp h), fun h => hfailed (hmem.not.mp h)⟩,
    Nat.succ_le_succ hbounded, hstops.cons, hquiet⟩

/-- Every way through the loop settles the message. -/
theorem sendLoop_settles (conn : ConnectionId) (ciphertext : List UInt8) {msg : Message}
    (hmsg : msg.state = .sending) (n : Nat) :
    ∀ (k : Nat) (s : App W), k + n = maxRetries →
      Settles (n + 1) msg (sendLoop ports conn ciphertext (List.range' k (n + 1)) msg s) := by
  induction n with
  | zero =>
      intro k s hk
      cases hanswer : (ports.network.sendToPeer conn ciphertext s.env).1 with
      | ok u => exact sendLoop_success ports conn ciphertext hmsg hanswer k _
      | error e =>
          rw [show k = maxRetries from hk]
          exact sendLoop_last ports conn ciphertext hmsg hanswer _
  | succ n ih =>
      intro k s hk
      cases hanswer : (ports.network.sendToPeer conn ciphertext s.env).1 with
      | ok u =>
          have hone := sendLoop_success ports conn ciphertext hmsg hanswer k
            (List.range' (k + 1) (n + 1))
          exact ⟨hone.returns, Nat.le_trans hone.bounded (by omega), hone.stops, hone.quiet⟩
      | error e =>
          exact sendLoop_retry ports conn ciphertext hanswer (by omega)
            fun s => ih (k + 1) s (by omega)

/-! ## Before the loop -/

/-- The recipient's stored address resolves and the connection is made. -/
def connects (recipientFp : Fingerprint) (s : App W) : Bool :=
  let found := ports.persistence.loadPeer recipientFp s.env
  match addressOf ports found.1 with
  | .error _ => false
  | .ok addr => (ports.network.connect addr (some recipientFp) found.2).1.value.isOk

/-- The message is left as `Sending` though nothing is pending; no attempt was
made. -/
structure Strands
    (run : Run (App W) Call ApplicationError Panic (Message × Except ApplicationError Unit)) :
    Prop where
  returns : ∃ final result, run.outcome = .ok (final, result) ∧ final.state = .sending
  quiet : saves run.log = []

/-- With a connection, the loop runs and settles the message; without one, it
is stranded. -/
theorem sendWithRetry_spec {msg : Message} (hmsg : msg.state = .pending) (fp : Fingerprint)
    (ciphertext : List UInt8) (s : App W) :
    (connects ports fp s = true →
        Settles (maxRetries + 1) msg (sendWithRetry ports msg fp ciphertext s)) ∧
      (connects ports fp s = false → Strands (sendWithRetry ports msg fp ciphertext s)) := by
  have hvalid : msg.state.validTransition .sending = true := by rw [hmsg]; rfl
  obtain ⟨msg', hmarked, hsending, hid⟩ := Message.transitionState_ok hvalid
  simp only [sendWithRetry, connects, Message.markSending, hmarked, Ports.loadPeer, ask,
    Prog.call_bind]
  cases haddr : addressOf ports (ports.persistence.loadPeer fp s.env).1 with
  | error e =>
      constructor
      · intro h
        exact absurd h Bool.false_ne_true
      · intro _
        exact ⟨⟨msg', .error e, rfl, hsending⟩, rfl⟩
  | ok addr =>
      simp only [Ports.connect_bind]
      cases hanswer : (ports.network.connect addr (some fp)
        (ports.persistence.loadPeer fp s.env).2).1.value with
      | error e =>
          constructor
          · intro h
            exact absurd h Bool.false_ne_true
          · intro _
            exact ⟨⟨msg', .error .network, rfl, hsending⟩, rfl⟩
      | ok r =>
          refine ⟨fun _ => ?_, fun h => nomatch h⟩
          obtain ⟨⟨final, result, hout, hfid, hsettled⟩, hbounded, hstops, hquiet⟩ :=
            sendLoop_settles ports r.1 ciphertext hsending maxRetries 0
              { s with env := (ports.network.connect addr (some fp)
                (ports.persistence.loadPeer fp s.env).2).2 } (Nat.zero_add _)
          rw [← List.range_eq_range'] at hout hsettled hbounded hstops hquiet
          exact ⟨⟨final, result, hout, hfid.trans hid, hsettled⟩, hbounded, hstops, hquiet⟩

/-! ## Whole runs -/

/-- A run that saved a message before sending left it in no limbo: the message
saved afterwards, and described in the response if there is one, is settled by
the answers to the attempts; the attempts were at most four, none after a
success; and the end of the loop was not reached. -/
structure NoLimbo (run : Run (App W) Call ApplicationError Panic MessageResponse) : Prop where
  saved : ∃ first final, saves run.log = [first, final] ∧ final.id = first.id ∧
    Settled (sends run.log) final ∧
    ∀ response, run.outcome = .ok response → ∃ text, response = .describe final text
  bounded : (sends run.log).length ≤ maxRetries + 1
  stops : StopsAtSuccess (sends run.log)
  reachable : run.outcome ≠ .panic .unreachable

/-- The last steps save what the sending left and respond about it. -/
theorem finish_spec {p : Prepared} {s : App W} {final : Message}
    {result : Except ApplicationError Unit}
    (h : (sendWithRetry ports p.message p.recipientFp p.ciphertext s).outcome
      = .ok (final, result)) :
    let sending := sendWithRetry ports p.message p.recipientFp p.ciphertext s
    saves (finish ports p s).log = saves sending.log ++ [final] ∧
      sends (finish ports p s).log = sends sending.log ∧
      (∀ response, (finish ports p s).outcome = .ok response → ∃ text, response = .describe final text) ∧
      (finish ports p s).outcome ≠ .panic .unreachable := by
  intro sending
  simp only [finish, Prog.bind_of_ok h, Ports.saveMessage, ask, Prog.call_bind, orPersistence]
  cases hsaved : (ports.persistence.saveMessage final sending.world.env).1 with
  | error e =>
      simp only [Prog.orFail_error, Prog.fail_bind, saves_append, sends_append]
      exact ⟨rfl, List.append_nil _, fun _ h => (nomatch h), fun h => (nomatch h)⟩
  | ok u =>
      simp only [Prog.orFail_ok, Prog.pure_bind_run]
      rcases MessageResponse.fromMessage_run final (Utf8.lossy p.plaintext)
        { sending.world with
          env := (ports.persistence.saveMessage final sending.world.env).2 } with ⟨text, ht⟩ | ht
      · rw [ht, saves_append, sends_append]
        refine ⟨rfl, List.append_nil _, fun response hr => ⟨text, ?_⟩, fun h => (nomatch h)⟩
        exact (Effect.Outcome.ok.inj hr).symm
      · rw [ht, saves_append, sends_append]
        exact ⟨rfl, List.append_nil _, fun _ h => (nomatch h), fun h => (nomatch h)⟩

/-- A run that saved its message before sending leaves it in no limbo exactly
when, after that, the recipient's address resolves and the connection is made. -/
theorem no_limbo_iff {request : SendMessageRequest} {s : App W} {p : Prepared}
    (h : (prepare ports request s).outcome = .ok p) :
    NoLimbo (execute ports request s) ↔
      connects ports p.recipientFp (prepare ports request s).world = true := by
  obtain ⟨hpending, hsaves, hsends⟩ := prepare_traces ports request s p h
  obtain ⟨hsettles, hstrands⟩ := sendWithRetry_spec ports hpending p.recipientFp p.ciphertext
    (prepare ports request s).world
  have hrun : execute ports request s = _ := Prog.bind_of_ok h (finish ports)
  rw [hrun]
  constructor
  · intro hno
    by_contra hconn
    obtain ⟨⟨final, result, hout, hsending⟩, hquiet⟩ := hstrands (Bool.eq_false_iff.mpr hconn)
    obtain ⟨hfsaves, -, -, -⟩ := finish_spec ports hout
    obtain ⟨first, last, hlog, -, ⟨hsent, hfailed⟩, -⟩ := hno.saved
    -- the message saved last is the stranded one, which is neither sent nor failed
    have hlast : last = final := by
      rw [saves_append, hsaves, hfsaves, hquiet] at hlog
      exact (List.cons.inj (List.cons.inj hlog).2).1.symm
    subst hlast
    by_cases hok : .ok () ∈ sends ((prepare ports request s).log ++
      (finish ports p (prepare ports request s).world).log)
    · obtain ⟨t, ht⟩ := hsent hok
      exact nomatch hsending.symm.trans ht
    · obtain ⟨t, ht⟩ := hfailed hok
      exact nomatch hsending.symm.trans ht
  · intro hconn
    obtain ⟨⟨final, result, hout, hid, hsettled⟩, hbounded, hstops, hquiet⟩ := hsettles hconn
    obtain ⟨hfsaves, hfsends, hresponse, hreach⟩ := finish_spec ports hout
    have hall : sends ((prepare ports request s).log ++
        (finish ports p (prepare ports request s).world).log)
          = sends (sendWithRetry ports p.message p.recipientFp p.ciphertext
              (prepare ports request s).world).log := by
      rw [sends_append, hsends, hfsends, List.nil_append]
    refine ⟨⟨p.message, final, ?_, hid, ?_, hresponse⟩, ?_, ?_, hreach⟩
    · rw [saves_append, hsaves, hfsaves, hquiet]
      rfl
    · rw [hall]
      exact hsettled
    · rw [hall]
      exact hbounded
    · rw [hall]
      exact hstops

end

/-! ## In memory -/

section
open Memory

/-- Send `hi` to the example peer. -/
def request : SendMessageRequest := ⟨peer.fingerprint.toFormattedString, "hi", .text⟩

def message : Message :=
  { id := ⟨Vector.replicate 16 0⟩
    senderFingerprint := identity.fingerprint
    recipientFingerprints := [peer.fingerprint]
    content := [header, 0x68, 0x69]
    contentType := .text
    state := .pending
    createdAt := 0
    sentAt := none
    deliveredAt := none
    readAt := none }

def prepared : Prepared :=
  ⟨message, peer.fingerprint, [header, 0x68, 0x69], [0x68, 0x69]⟩

/-- The peer answers, but disconnects during the first attempt. -/
def reachable : App Memory :=
  app { peers := [peer], connection := ⟨0, .ok (⟨⟨Vector.replicate 16 7⟩⟩, peer)⟩,
        sends := [.error .peerDisconnected] }

/-- The peer is known, but refuses the connection. -/
def refusing : App Memory := app { peers := [peer] }

theorem reachable_no_limbo : NoLimbo (execute Memory.ports request reachable) :=
  (no_limbo_iff Memory.ports (p := prepared) (by decide +kernel)).mpr (by decide +kernel)

/-- A refused connection: the message is saved as `Pending`, then as `Sending`,
and that is the end of it. -/
theorem refused_limbo :
    (prepare Memory.ports request refusing).outcome = .ok prepared ∧
      ¬ NoLimbo (execute Memory.ports request refusing) := by
  refine ⟨by decide +kernel, fun hno => ?_⟩
  have hstates : (saves (execute Memory.ports request refusing).log).map Message.state
      = [.pending, .sending] := by decide +kernel
  have hsends : sends (execute Memory.ports request refusing).log = [] := by decide +kernel
  obtain ⟨first, final, hlog, -, ⟨-, hfailed⟩, -⟩ := hno.saved
  rw [hsends] at hfailed
  obtain ⟨t, ht⟩ := hfailed List.not_mem_nil
  rw [hlog] at hstates
  exact nomatch ht.symm.trans (List.cons.inj (List.cons.inj hstates).2).1

end

end SendMessage
end Rubix
