/-
# `Rubix.Security.Handshake` — the Noise KK handshake and the identity it accepts

A handshake is constructed for an expected fingerprint `fp` and a remote
static key `rx`; the Noise library gets `rx`, the payload check gets `fp`.
Each side reads one message of the other, and the payload the Noise session
delivers with it goes through `verifyIdentityPayload`:

    parse → version, timestamp, signature → fingerprint = fp → nonce not seen

The payload carries an X25519 key of its own, which no step compares with
`rx`: that the two agree is a condition on the payload that is delivered
(`bound_iff`), and whoever holds the key of `rx` can deliver another peer's
payload.

The Noise library, the stream, the clocks and the generator are parameters;
a stream that delivers other bytes is another stream.
-/
import Rubix.Lib.Effect
import Rubix.Security.IdentityBind
import Rubix.Security.NonceCache

namespace Rubix.Security

open Effect (Prog)

variable {W S T : Type}

def maxHandshakeMsgSize : Nat := 4096

/-- What the crate uses of the Noise library, on its handshake states `S` and
transport states `T`; errors are the library's texts. -/
structure Snow (S T : Type) where
  /-- a builder with these parameters, `build_initiator` and `build_responder` -/
  buildInitiator : (localPrivate remotePublic : Vector UInt8 32) → Except String S
  buildResponder : (localPrivate remotePublic : Vector UInt8 32) → Except String S
  readMessage : S → List UInt8 → Except String (List UInt8 × S)
  writeMessage : S → List UInt8 → Except String (List UInt8 × S)
  isHandshakeFinished : S → Bool
  intoTransportMode : S → Except String T

/-- The two clocks. -/
structure Clock (W : Type) where
  /-- `Utc::now` -/
  utcNow : W → DateTime × W
  /-- `Instant::now` -/
  instantNow : W → Instant × W

/-- The byte stream; a read that succeeds fills its buffer. -/
structure Stream (W : Type) where
  readExact : (n : Nat) → W → Except String (Vector UInt8 n) × W
  writeAll : List UInt8 → W → Except String Unit × W
  flush : W → Except String Unit × W

/-- Everything a handshake runs on. -/
structure Env (W S T : Type) where
  crypto : Crypto
  snow : Snow S T
  clock : Clock W
  stream : Stream W
  /-- `OsRng.fill_bytes` on a nonce -/
  fillBytes : W → Vector UInt8 12 × W

/-- The shared nonce cache, and the world the rest lives in.  The cache's
mutex is never poisoned: nothing panics while holding it. -/
structure Node (W : Type) where
  nonceCache : NonceCache
  env : W

/-- Programs of the crate: no panics, and no calls worth a log. -/
abbrev Hs (W α : Type) : Type := Prog (Node W) Empty SecurityError Empty α

/-- Wrapper for the Noise KK handshake with identity verification. -/
structure NoiseHandshake (S : Type) where
  state : S
  ourIdentity : IdentityKeys
  remoteFingerprint : Option Fingerprint
  verifiedRemote : Option VerifiedIdentity

/-- A call of the world outside. -/
def reach {ρ : Type} (f : W → ρ × W) : Hs W ρ :=
  Prog.silent fun s => ((f s.env).1, { s with env := (f s.env).2 })

/-- `DateTime::timestamp` as the `i64` it returns. -/
def unixSeconds (t : DateTime) : Int64 := Int64.ofInt t.timestamp

/-- A reading of `Utc::now`: chrono's years end before ±262144, and with them
its seconds before ±2^43. -/
structure UtcReading where
  time : DateTime
  calendar : -8796093022208 ≤ time.timestamp ∧ time.timestamp ≤ 8796093022208

/-- The clocks of a step in which each is read once at most. -/
def Clock.stopped (utc : UtcReading) (instant : Instant) : Clock W where
  utcNow w := (utc.time, w)
  instantNow w := (instant, w)

namespace NoiseHandshake

/-- `new_initiator_with_cache`; the cache is the node's. -/
def newInitiatorWithCache (snow : Snow S T) (keys : IdentityKeys) (fp : Fingerprint)
    (rx : X25519PublicKey) : SecurityResult (NoiseHandshake S) :=
  match snow.buildInitiator keys.x25519.secret rx with
  | .error e => .error (.handshakeFailed ("build initiator: " ++ e))
  | .ok state => .ok ⟨state, keys, some fp, none⟩

/-- `new_responder_with_cache` -/
def newResponderWithCache (snow : Snow S T) (keys : IdentityKeys) (fp : Fingerprint)
    (rx : X25519PublicKey) : SecurityResult (NoiseHandshake S) :=
  match snow.buildResponder keys.x25519.secret rx with
  | .error e => .error (.handshakeFailed ("build responder: " ++ e))
  | .ok state => .ok ⟨state, keys, some fp, none⟩

/-- `read_message` -/
def readMessage (snow : Snow S T) (h : NoiseHandshake S) (input : List UInt8) :
    SecurityResult (List UInt8 × NoiseHandshake S) :=
  if maxHandshakeMsgSize < input.length then
    .error (.handshakeFailed s!"message too large: {input.length} bytes")
  else
    match snow.readMessage h.state input with
    | .error e => .error (.handshakeFailed ("read error: " ++ e))
    | .ok (output, state) => .ok (output, { h with state })

/-- `write_message` -/
def writeMessage (snow : Snow S T) (h : NoiseHandshake S) (payload : List UInt8) :
    SecurityResult (List UInt8 × NoiseHandshake S) :=
  match snow.writeMessage h.state payload with
  | .error e => .error (.handshakeFailed ("write error: " ++ e))
  | .ok (output, state) => .ok (output, { h with state })

/-- `set_verified_remote` -/
def setVerifiedRemote (h : NoiseHandshake S) (identity : VerifiedIdentity) : NoiseHandshake S :=
  { h with verifiedRemote := some identity }

/-- `into_transport` -/
def intoTransport (snow : Snow S T) (h : NoiseHandshake S) : SecurityResult T :=
  if snow.isHandshakeFinished h.state = false then
    .error (.handshakeFailed "handshake not complete")
  else if h.verifiedRemote.isNone then
    .error (.identityBindingFailed "remote identity not verified")
  else
    match snow.intoTransportMode h.state with
    | .error e => .error (.handshakeFailed ("into transport: " ++ e))
    | .ok transport => .ok transport

/-- `create_identity_payload` -/
def createIdentityPayload (env : Env W S T) (h : NoiseHandshake S) : Hs W (List UInt8) := do
  let now ← reach env.clock.utcNow
  let nonce ← reach env.fillBytes
  pure (IdentityBindPayload.create env.crypto h.ourIdentity.ed25519 h.ourIdentity.x25519.pub
    (unixSeconds now) nonce).toBytes

/-- `verify_identity_payload` -/
def verifyIdentityPayload (crypto : Crypto) (clock : Clock W) (h : NoiseHandshake S)
    (bytes : List UInt8) : Hs W VerifiedIdentity := do
  let payload ← Prog.orFail (fun e => .identityBindingFailed ("parse: " ++ e.toString))
    (IdentityBindPayload.fromBytes bytes)
  let expectedFp ← Prog.orFail id (match h.remoteFingerprint with
    | some fp => .ok fp
    | none => .error (.internal "no expected fingerprint"))
  let now ← reach clock.utcNow
  let verified ← Prog.orFail id (payload.verify crypto (unixSeconds now) expectedFp)
  let instant ← reach clock.instantNow
  let inserted ← Prog.silent fun s =>
    let r := s.nonceCache.checkAndInsert instant (verified.fingerprint, verified.nonce)
    (r.1, { s with nonceCache := r.2 })
  if inserted then pure verified else Prog.fail (.replayDetected "duplicate nonce")

end NoiseHandshake

/-! ## The message exchange -/

/-- `map_err(|e| SecurityError::HandshakeFailed(format!("...: {}", e)))?` -/
def orHandshakeFailed {α : Type} (what : String) : Except String α → Hs W α :=
  Prog.orFail fun e => .handshakeFailed (what ++ e)

/-- `send_message` -/
def sendMessage (stream : Stream W) (data : List UInt8) : Hs W Unit := do
  let sent ← reach (stream.writeAll (Bytes.toBe 4 data.length))
  orHandshakeFailed "send: " sent
  let sent ← reach (stream.writeAll data)
  orHandshakeFailed "send: " sent
  let flushed ← reach stream.flush
  orHandshakeFailed "flush: " flushed

/-- `recv_message` -/
def recvMessage (stream : Stream W) : Hs W (List UInt8) := do
  let header ← reach (stream.readExact 4)
  let header ← orHandshakeFailed "recv len: " header
  let len := Bytes.ofBe header.toList
  if maxHandshakeMsgSize < len then
    Prog.fail (.handshakeFailed s!"message size {len} exceeds max {maxHandshakeMsgSize}")
  else do
    let data ← reach (stream.readExact len)
    let data ← orHandshakeFailed "recv data: " data
    pure data.toList

/-- The two ends of a handshake. -/
inductive Role where
  | initiator
  | responder
  deriving DecidableEq

open NoiseHandshake

/-- The constructors with a shared cache. -/
def construct (role : Role) (snow : Snow S T) (keys : IdentityKeys) (fp : Fingerprint)
    (rx : X25519PublicKey) : SecurityResult (NoiseHandshake S) :=
  match role with
  | .initiator => newInitiatorWithCache snow keys fp rx
  | .responder => newResponderWithCache snow keys fp rx

/-- Send the own identity in the next message. -/
def introduce (env : Env W S T) (h : NoiseHandshake S) : Hs W (NoiseHandshake S) := do
  let payload ← createIdentityPayload env h
  let (msg, h) ← Prog.orFail id (h.writeMessage env.snow payload)
  sendMessage env.stream msg
  pure h

/-- Receive the other side's message, with the payload it carries. -/
def receive (env : Env W S T) (h : NoiseHandshake S) : Hs W (List UInt8 × NoiseHandshake S) := do
  let msg ← recvMessage env.stream
  Prog.orFail id (h.readMessage env.snow msg)

/-- `perform_initiator_handshake` -/
def performInitiatorHandshake (env : Env W S T) (h : NoiseHandshake S) :
    Hs W (T × VerifiedIdentity) := do
  let h ← introduce env h
  let (payload, h) ← receive env h
  let verified ← h.verifyIdentityPayload env.crypto env.clock payload
  let transport ← Prog.orFail id
    ({ h with verifiedRemote := some verified }.intoTransport env.snow)
  pure (transport, verified)

/-- `HANDSHAKE_TIMEOUT_SECS` -/
def handshakeTimeoutSecs : Nat := 10

/-- What can end a handshake before it is through. -/
inductive Interrupt where
  | timeout
  | cancelled

/-- How an interrupted handshake ends. -/
def Interrupt.error : Interrupt → SecurityError
  | .timeout => .handshakeTimeout handshakeTimeoutSecs
  | .cancelled => .handshakeCancelled

/-- `run_initiator_handshake`; what an interrupted handshake did until then is
dropped with it. -/
def runInitiatorHandshake (interrupt : Option Interrupt) (env : Env W S T) (h : NoiseHandshake S) :
    Hs W (T × VerifiedIdentity) :=
  match interrupt with
  | some i => Prog.fail i.error
  | none => performInitiatorHandshake env h

/-- `perform_responder_handshake` -/
def performResponderHandshake (env : Env W S T) (h : NoiseHandshake S) :
    Hs W (T × VerifiedIdentity) := do
  let (payload, h) ← receive env h
  let verified ← h.verifyIdentityPayload env.crypto env.clock payload
  let h ← introduce env { h with verifiedRemote := some verified }
  let transport ← Prog.orFail id (h.intoTransport env.snow)
  pure (transport, verified)

/-- `run_responder_handshake` -/
def runResponderHandshake (interrupt : Option Interrupt) (env : Env W S T) (h : NoiseHandshake S) :
    Hs W (T × VerifiedIdentity) :=
  match interrupt with
  | some i => Prog.fail i.error
  | none => performResponderHandshake env h

/-- Construct a handshake and perform it. -/
def handshake (role : Role) (env : Env W S T) (keys : IdentityKeys) (fp : Fingerprint)
    (rx : X25519PublicKey) : Hs W (T × VerifiedIdentity) := do
  let h ← Prog.orFail id (construct role env.snow keys fp rx)
  match role with
  | .initiator => performInitiatorHandshake env h
  | .responder => performResponderHandshake env h

/-- A handshake expects the fingerprint it was constructed for. -/
theorem construct_ok {h : NoiseHandshake S} {role : Role} {snow : Snow S T} {keys : IdentityKeys}
    {fp : Fingerprint} {rx : X25519PublicKey} (hc : construct role snow keys fp rx = .ok h) :
    h.remoteFingerprint = some fp := by
  cases role with
  | initiator =>
      simp only [construct, newInitiatorWithCache] at hc
      split at hc
      · exact nomatch hc
      · cases hc
        rfl
  | responder =>
      simp only [construct, newResponderWithCache] at hc
      split at hc
      · exact nomatch hc
      · cases hc
        rfl

/-! ## A verification by what ends it -/

theorem UtcReading.toInt_unixSeconds (r : UtcReading) :
    (unixSeconds r.time).toInt = r.time.timestamp := by
  obtain ⟨hmin, hmax⟩ := r.calendar
  rw [unixSeconds]
  refine Int64.toInt_ofInt_of_le ?_ ?_
  · exact Int.le_trans (by decide) hmin
  · exact Int.lt_of_le_of_lt hmax (by decide)

/-- On a payload in the right version that is signed, a clock's reading decides. -/
theorem IdentityBindPayload.WellSigned.verify_at {crypto : Crypto} {p : IdentityBindPayload}
    (h : WellSigned crypto p) (r : UtcReading) :
    p.verifySignatureAndFreshness crypto (unixSeconds r.time) =
      if r.time.timestamp + timestampSkewSecs < p.timestamp.toInt then
        .error (.replayDetected "timestamp in future")
      else if p.timestamp.toInt < r.time.timestamp - timestampSkewSecs then
        .error (.replayDetected "timestamp too old")
      else .ok () := by
  have hcalendar := r.calendar
  have hmax : (unixSeconds r.time).toInt + timestampSkewSecs ≤ i64Max := by
    rw [r.toInt_unixSeconds, timestampSkewSecs, i64Max]
    omega
  have hmin : i64Min ≤ (unixSeconds r.time).toInt - timestampSkewSecs := by
    rw [r.toInt_unixSeconds, timestampSkewSecs, i64Min]
    omega
  have hverify := h.verify hmax hmin
  rw [r.toInt_unixSeconds] at hverify
  exact hverify

/-- A payload made by the owner of `keys`, against the fingerprint of `keys`. -/
theorem IdentityBindPayload.verify_create {crypto : Crypto} {keys : IdentityKeys}
    (hsigns : crypto.Signs keys.ed25519) (made r : UtcReading) (nonce : Vector UInt8 12)
    (hfuture : made.time.timestamp ≤ r.time.timestamp + timestampSkewSecs)
    (hpast : r.time.timestamp - timestampSkewSecs ≤ made.time.timestamp) :
    (create crypto keys.ed25519 keys.x25519.pub (unixSeconds made.time) nonce).verify crypto
        (unixSeconds r.time) (keys.fingerprint crypto) = .ok
      { ed25519Public := keys.ed25519.pub
        x25519Public := keys.x25519.pub
        fingerprint := keys.fingerprint crypto
        timestamp := unixSeconds made.time
        nonce } := by
  have hsigned := create_wellSigned hsigns keys.x25519.pub (unixSeconds made.time) nonce
  have htimestamp : (create crypto keys.ed25519 keys.x25519.pub (unixSeconds made.time)
      nonce).timestamp.toInt = made.time.timestamp := made.toInt_unixSeconds
  rw [IdentityBindPayload.verify, hsigned.verify_at r, htimestamp, if_neg (Int.not_lt.mpr hfuture),
    if_neg (Int.not_lt.mpr hpast)]
  exact if_neg (not_not_intro rfl)

/-- The verification of a payload that parses, on a handshake that expects
somebody: the checks of the payload, and then the nonce. -/
theorem NoiseHandshake.verifyIdentityPayload_run {crypto : Crypto} {clock : Clock W}
    {h : NoiseHandshake S} {bytes : List UInt8} {p : IdentityBindPayload} {fp : Fingerprint}
    (hp : IdentityBindPayload.fromBytes bytes = .ok p) (hfp : h.remoteFingerprint = some fp)
    (s : Node W) :
    h.verifyIdentityPayload crypto clock bytes s =
      match p.verify crypto (unixSeconds (clock.utcNow s.env).1) fp with
      | .error e => ⟨.err e, ⟨s.nonceCache, (clock.utcNow s.env).2⟩, []⟩
      | .ok v =>
          let instant := clock.instantNow (clock.utcNow s.env).2
          match s.nonceCache.checkAndInsert instant.1 (v.fingerprint, v.nonce) with
          | (true, cache) => ⟨.ok v, ⟨cache, instant.2⟩, []⟩
          | (false, cache) =>
              ⟨.err (.replayDetected "duplicate nonce"), ⟨cache, instant.2⟩, []⟩ := by
  rw [verifyIdentityPayload, hp, hfp, Prog.orFail_ok, Prog.pure_bind_run, Prog.orFail_ok,
    Prog.pure_bind_run, reach, Prog.silent_bind]
  cases p.verify crypto (unixSeconds (clock.utcNow s.env).1) fp with
  | error e => rfl
  | ok v =>
      rw [Prog.orFail_ok, Prog.pure_bind_run, reach, Prog.silent_bind, Prog.silent_bind]
      dsimp only
      rcases s.nonceCache.checkAndInsert (clock.instantNow (clock.utcNow s.env).2).1
        (v.fingerprint, v.nonce) with ⟨inserted, cache⟩
      cases inserted with
      | true => rfl
      | false => rfl

end Rubix.Security
