/-
# `Rubix.Security.Endpoint` — an end of a handshake on a stream that arrives in chunks

An end reads what has arrived of the other's bytes, in whatever chunks, and
writes its own.  A read that finds too few bytes would wait for more; it marks
the wire, and what the end did in that attempt does not count (`waiting`).

    introduce    writes the frame of one message, with one reading of the clock
    receive      reads such a frame, if all of it is there
    verify       accepts the payload of the peer it expects, with another reading
-/
import Rubix.Lib.Chunks
import Rubix.Security.Binding

namespace Rubix.Security

open Effect (Prog)

variable {S T : Type}

/-- An end's side of the stream. -/
structure Wire where
  /-- the chunks that have arrived and are not read -/
  arrived : List (List UInt8)
  written : List UInt8
  /-- a read found too few bytes -/
  waiting : Bool
  /-- how often the wall clock was read -/
  readings : Nat

namespace Wire

def new : Wire := ⟨[], [], false, 0⟩

/-- As many bytes as the buffer has. -/
def fill (n : Nat) (bytes : List UInt8) (h : bytes.length = n) : Vector UInt8 n :=
  ⟨bytes.toArray, h⟩

/-- `read_exact` -/
def readExact (n : Nat) (w : Wire) : Except String (Vector UInt8 n) × Wire :=
  match h : Chunks.gather n w.arrived with
  | some (bytes, rest) =>
      (.ok (fill n bytes (Chunks.length_of_gather h)), { w with arrived := rest })
  | none => (.error "would block", { w with waiting := true })

/-- A stream that is reliable and in order. -/
def stream : Stream Wire where
  readExact := readExact
  writeAll bytes w := (.ok (), { w with written := w.written ++ bytes })
  flush w := (.ok (), w)

theorem readExact_ok {n : Nat} {w : Wire} (h : n ≤ w.arrived.flatten.length) :
    ∃ v rest, w.readExact n = (.ok v, { w with arrived := rest }) ∧
      v.toList = w.arrived.flatten.take n ∧ rest.flatten = w.arrived.flatten.drop n := by
  obtain ⟨rest, hgather, hrest⟩ := Chunks.gather_of_le h
  rw [readExact]
  split
  · next bytes rest' h' =>
      obtain ⟨rfl, rfl⟩ := Prod.mk.inj (Option.some.inj (h'.symm.trans hgather))
      exact ⟨_, _, rfl, rfl, hrest⟩
  · next h' => exact absurd (h'.symm.trans hgather) (by simp)

theorem readExact_short {n : Nat} {w : Wire} (h : w.arrived.flatten.length < n) :
    w.readExact n = (.error "would block", { w with waiting := true }) := by
  have hgather := Chunks.gather_of_lt h
  rw [readExact]
  split
  · next h' => exact absurd (h'.symm.trans hgather) (by simp)
  · rfl

end Wire

/-- A message as it is sent. -/
def frame (msg : List UInt8) : List UInt8 := Bytes.toBe 4 msg.length ++ msg

theorem length_frame (msg : List UInt8) : (frame msg).length = 4 + msg.length := by
  rw [frame, List.length_append, Bytes.length_toBe]

theorem frame_pos (msg : List UInt8) : 0 < (frame msg).length := by
  rw [length_frame]
  omega

/-! ## Messages -/

section

theorem sendMessage_run (msg : List UInt8) (s : Node Wire) :
    sendMessage Wire.stream msg s
      = ⟨.ok (), ⟨s.nonceCache, { s.env with written := s.env.written ++ frame msg }⟩, []⟩ := by
  rw [frame, ← List.append_assoc]
  rfl

variable {msg : List UInt8} {s : Node Wire}

/-- Past a header that is there, the message is read. -/
theorem recvMessage_header {front : List UInt8} (hmsg : msg.length ≤ maxHandshakeMsgSize)
    (harrived : s.env.arrived.flatten = Bytes.toBe 4 msg.length ++ front) :
    ∃ behind, behind.flatten = front ∧
      recvMessage Wire.stream s = (do
        let data ← reach (Wire.readExact msg.length)
        let data ← orHandshakeFailed "recv data: " data
        pure data.toList : Hs Wire (List UInt8))
          ⟨s.nonceCache, { s.env with arrived := behind }⟩ := by
  have hheader : (Bytes.toBe 4 msg.length).length = 4 := Bytes.length_toBe 4 _
  have hfour : 4 ≤ s.env.arrived.flatten.length := by
    rw [harrived, List.length_append, hheader]
    omega
  obtain ⟨header, behind, hread, htake, hbehind⟩ := Wire.readExact_ok hfour
  rw [harrived, List.take_left' hheader] at htake
  rw [harrived, List.drop_left' hheader] at hbehind
  have hlength : Bytes.ofBe header.toList = msg.length := by
    rw [htake, Bytes.ofBe_toBe_of_lt (Nat.lt_of_le_of_lt hmsg (by decide))]
  refine ⟨behind, hbehind, ?_⟩
  rw [recvMessage, reach, Prog.silent_bind]
  simp only [Wire.stream]
  rw [hread, orHandshakeFailed, Prog.orFail_ok, Prog.pure_bind_run, hlength,
    if_neg (Nat.not_lt.mpr hmsg)]

theorem recvMessage_frame (hmsg : msg.length ≤ maxHandshakeMsgSize)
    (harrived : s.env.arrived.flatten = frame msg) :
    ∃ rest, rest.flatten = [] ∧
      recvMessage Wire.stream s =
        ⟨.ok msg, ⟨s.nonceCache, { s.env with arrived := rest }⟩, []⟩ := by
  obtain ⟨behind, hbehind, hrun⟩ := recvMessage_header hmsg harrived
  have hall : msg.length ≤ (Wire.arrived { s.env with arrived := behind }).flatten.length :=
    Nat.le_of_eq (congrArg List.length hbehind.symm)
  obtain ⟨data, rest, hread, htake, hrest⟩ := Wire.readExact_ok hall
  rw [hbehind, List.take_length] at htake
  rw [hbehind, List.drop_length] at hrest
  refine ⟨rest, hrest, ?_⟩
  rw [hrun, reach, Prog.silent_bind, hread, orHandshakeFailed, Prog.orFail_ok, Prog.pure_bind_run,
    Prog.pure_run, htake]

/-- A read that would have to wait for the rest of the message. -/
theorem recvMessage_waits {d : Nat} (hmsg : msg.length ≤ maxHandshakeMsgSize)
    (harrived : s.env.arrived.flatten = (frame msg).take d) (hd : d < (frame msg).length) :
    ∃ e, (recvMessage Wire.stream s).outcome = .err e ∧
      (recvMessage Wire.stream s).world.env.waiting = true := by
  have hheader : (Bytes.toBe 4 msg.length).length = 4 := Bytes.length_toBe 4 _
  rw [length_frame] at hd
  by_cases hfour : 4 ≤ d
  · rw [frame, List.take_append, hheader, List.take_of_length_le (hheader ▸ hfour)] at harrived
    obtain ⟨behind, hbehind, hrun⟩ := recvMessage_header hmsg harrived
    have hshort : (Wire.arrived { s.env with arrived := behind }).flatten.length < msg.length := by
      show behind.flatten.length < msg.length
      rw [hbehind, List.length_take]
      omega
    rw [hrun, reach, Prog.silent_bind, Wire.readExact_short hshort]
    exact ⟨_, rfl, rfl⟩
  · have hshort : s.env.arrived.flatten.length < 4 := by
      rw [harrived, List.length_take]
      omega
    rw [recvMessage, reach, Prog.silent_bind]
    simp only [Wire.stream]
    rw [Wire.readExact_short hshort]
    exact ⟨_, rfl, rfl⟩

end

/-! ## An end and its peer -/

/-- The owner of some keys in a handshake: the readings of the wall clock in
their order, the monotonic clock when the nonce is checked, and the nonce that
is drawn. -/
structure Side where
  keys : IdentityKeys
  utc : Nat → UtcReading
  instant : Instant
  nonce : Vector UInt8 12

namespace Side

def clock (side : Side) : Clock Wire where
  utcNow w := ((side.utc w.readings).time, { w with readings := w.readings + 1 })
  instantNow w := (side.instant, w)

def env (crypto : Crypto) (snow : Snow S T) (side : Side) : Env Wire S T where
  crypto := crypto
  snow := snow
  clock := side.clock
  stream := Wire.stream
  fillBytes w := (side.nonce, w)

section
variable (crypto : Crypto) (snow : Snow S T) (side : Side)

@[simp] theorem env_crypto : (side.env crypto snow).crypto = crypto := rfl

@[simp] theorem env_snow : (side.env crypto snow).snow = snow := rfl

@[simp] theorem env_clock : (side.env crypto snow).clock = side.clock := rfl

@[simp] theorem env_stream : (side.env crypto snow).stream = Wire.stream := rfl

end

/-- The payload that is made at a reading of the clock. -/
def payload (crypto : Crypto) (side : Side) (reading : Nat) : List UInt8 :=
  (IdentityBindPayload.create crypto side.keys.ed25519 side.keys.x25519.pub
    (unixSeconds (side.utc reading).time) side.nonce).toBytes

/-- The identity that the payload is verified to. -/
def identity (crypto : Crypto) (side : Side) (reading : Nat) : VerifiedIdentity where
  ed25519Public := side.keys.ed25519.pub
  x25519Public := side.keys.x25519.pub
  fingerprint := side.keys.fingerprint crypto
  timestamp := unixSeconds (side.utc reading).time
  nonce := side.nonce

/-- What the cache knows the payload by. -/
def nonceKey (crypto : Crypto) (side : Side) : NonceKey :=
  (side.keys.fingerprint crypto, side.nonce)

end Side

/-- Two readings in whole seconds that differ by the allowed skew at most. -/
def Close (made verified : UtcReading) : Prop :=
  made.time.timestamp ≤ verified.time.timestamp + timestampSkewSecs ∧
    verified.time.timestamp - timestampSkewSecs ≤ made.time.timestamp

section
variable {crypto : Crypto} {snow : Snow S T} {side peer : Side} {h : NoiseHandshake S} {state : S}
  {msg payload : List UInt8} {s : Node Wire}

theorem writeMessage_run (hwrite : snow.writeMessage h.state payload = .ok (msg, state)) :
    h.writeMessage snow payload = .ok (msg, { h with state }) := by
  rw [NoiseHandshake.writeMessage, hwrite]

theorem readMessage_run (hmsg : msg.length ≤ maxHandshakeMsgSize)
    (hread : snow.readMessage h.state msg = .ok (payload, state)) :
    h.readMessage snow msg = .ok (payload, { h with state }) := by
  rw [NoiseHandshake.readMessage, if_neg (Nat.not_lt.mpr hmsg), hread]

theorem intoTransport_run {transport : T} (hverified : h.verifiedRemote.isNone = false)
    (hfinished : snow.isHandshakeFinished h.state = true)
    (htransport : snow.intoTransportMode h.state = .ok transport) :
    h.intoTransport snow = .ok transport := by
  rw [NoiseHandshake.intoTransport, hfinished, hverified, if_neg Bool.false_ne_true.symm,
    if_neg Bool.false_ne_true, htransport]

theorem introduce_run (hkeys : h.ourIdentity = side.keys)
    (hwrite : snow.writeMessage h.state (side.payload crypto s.env.readings) = .ok (msg, state)) :
    introduce (side.env crypto snow) h s = ⟨.ok { h with state }, ⟨s.nonceCache,
      { s.env with
        written := s.env.written ++ frame msg
        readings := s.env.readings + 1 }⟩, []⟩ := by
  have hcreate : h.createIdentityPayload (side.env crypto snow) s
      = ⟨.ok (side.payload crypto s.env.readings),
          ⟨s.nonceCache, { s.env with readings := s.env.readings + 1 }⟩, []⟩ := by
    rw [NoiseHandshake.createIdentityPayload, hkeys]
    rfl
  rw [introduce, Prog.bind_of_silent hcreate, Side.env_snow, writeMessage_run hwrite,
    Prog.orFail_ok, Prog.pure_bind_run]
  dsimp only
  rw [Side.env_stream, Prog.bind_of_silent (sendMessage_run _ _)]
  rfl

theorem receive_run (hmsg : msg.length ≤ maxHandshakeMsgSize)
    (harrived : s.env.arrived.flatten = frame msg)
    (hread : snow.readMessage h.state msg = .ok (payload, state)) :
    ∃ rest, rest.flatten = [] ∧ receive (side.env crypto snow) h s
      = ⟨.ok (payload, { h with state }), ⟨s.nonceCache, { s.env with arrived := rest }⟩, []⟩ := by
  obtain ⟨rest, hrest, hrun⟩ := recvMessage_frame hmsg harrived
  refine ⟨rest, hrest, ?_⟩
  rw [receive, Side.env_stream, Prog.bind_of_silent hrun, Side.env_snow,
    readMessage_run hmsg hread]
  rfl

/-- A receive that would have to wait. -/
theorem receive_waits {d : Nat} (hmsg : msg.length ≤ maxHandshakeMsgSize)
    (harrived : s.env.arrived.flatten = (frame msg).take d) (hd : d < (frame msg).length) :
    ∃ e, (receive (side.env crypto snow) h s).outcome = .err e ∧
      (receive (side.env crypto snow) h s).world.env.waiting = true := by
  obtain ⟨e, herr, hwaiting⟩ := recvMessage_waits hmsg harrived hd
  have hrun : receive (side.env crypto snow) h s
      = ⟨.err e, (recvMessage Wire.stream s).world, (recvMessage Wire.stream s).log⟩ :=
    Prog.bind_of_err herr _
  rw [hrun]
  exact ⟨e, rfl, hwaiting⟩

/-- The peer that is expected, on clocks that are close, with a nonce that is
new. -/
theorem verify_run {reading : Nat} (hfp : h.remoteFingerprint = some (peer.keys.fingerprint crypto))
    (hsigns : crypto.Signs peer.keys.ed25519)
    (hclose : Close (peer.utc reading) (side.utc s.env.readings))
    (hnew : peer.nonceKey crypto ∉ s.nonceCache.inner) :
    h.verifyIdentityPayload crypto side.clock (peer.payload crypto reading) s
      = ⟨.ok (peer.identity crypto reading),
          ⟨(s.nonceCache.checkAndInsert side.instant (peer.nonceKey crypto)).2,
            { s.env with readings := s.env.readings + 1 }⟩, []⟩ := by
  have hparsed := IdentityBindPayload.fromBytes_toBytes (IdentityBindPayload.create crypto
    peer.keys.ed25519 peer.keys.x25519.pub (unixSeconds (peer.utc reading).time) peer.nonce)
  have hverified := IdentityBindPayload.verify_create hsigns (peer.utc reading)
    (side.utc s.env.readings) peer.nonce hclose.1 hclose.2
  have hinserted : (s.nonceCache.checkAndInsert side.instant (peer.nonceKey crypto)).1 = true :=
    NonceCache.checkAndInsert_new hnew
  rw [Side.payload, NoiseHandshake.verifyIdentityPayload_run hparsed hfp]
  simp only [Side.clock]
  rw [hverified]
  dsimp only
  rw [Side.nonceKey] at hinserted ⊢
  rcases hcache : s.nonceCache.checkAndInsert side.instant
    (peer.keys.fingerprint crypto, peer.nonce) with ⟨inserted, cache⟩
  rw [hcache] at hinserted
  obtain rfl : inserted = true := hinserted
  rfl

/-- The initiator, once it has the payload. -/
theorem conclude_initiator {reading : Nat} {transport : T}
    (hfp : h.remoteFingerprint = some (peer.keys.fingerprint crypto))
    (hsigns : crypto.Signs peer.keys.ed25519)
    (hclose : Close (peer.utc reading) (side.utc s.env.readings))
    (hnew : peer.nonceKey crypto ∉ s.nonceCache.inner)
    (hfinished : snow.isHandshakeFinished h.state = true)
    (htransport : snow.intoTransportMode h.state = .ok transport) :
    conclude .initiator (side.env crypto snow) (peer.payload crypto reading, h) s
      = ⟨.ok (transport, peer.identity crypto reading),
          ⟨(s.nonceCache.checkAndInsert side.instant (peer.nonceKey crypto)).2,
            { s.env with readings := s.env.readings + 1 }⟩, []⟩ := by
  have hinto : NoiseHandshake.intoTransport snow
      { h with verifiedRemote := some (peer.identity crypto reading) } = .ok transport :=
    intoTransport_run rfl hfinished htransport
  rw [conclude, Side.env_crypto, Side.env_clock,
    Prog.bind_of_silent (verify_run hfp hsigns hclose hnew), answer, Prog.pure_bind_run,
    Side.env_snow, hinto]
  rfl

/-- The responder, which introduces itself before it is through. -/
theorem conclude_responder {reading : Nat} {transport : T}
    (hfp : h.remoteFingerprint = some (peer.keys.fingerprint crypto))
    (hsigns : crypto.Signs peer.keys.ed25519)
    (hclose : Close (peer.utc reading) (side.utc s.env.readings))
    (hnew : peer.nonceKey crypto ∉ s.nonceCache.inner) (hkeys : h.ourIdentity = side.keys)
    (hwrite : snow.writeMessage h.state (side.payload crypto (s.env.readings + 1))
      = .ok (msg, state))
    (hfinished : snow.isHandshakeFinished state = true)
    (htransport : snow.intoTransportMode state = .ok transport) :
    conclude .responder (side.env crypto snow) (peer.payload crypto reading, h) s
      = ⟨.ok (transport, peer.identity crypto reading),
          ⟨(s.nonceCache.checkAndInsert side.instant (peer.nonceKey crypto)).2,
            { s.env with
              written := s.env.written ++ frame msg
              readings := s.env.readings + 2 }⟩, []⟩ := by
  have hinto : NoiseHandshake.intoTransport snow
      { h with state, verifiedRemote := some (peer.identity crypto reading) } = .ok transport :=
    intoTransport_run rfl hfinished htransport
  -- what the end knows when it introduces itself
  let verified : NoiseHandshake S :=
    { h with verifiedRemote := some (peer.identity crypto reading) }
  let checked : Node Wire := ⟨(s.nonceCache.checkAndInsert side.instant (peer.nonceKey crypto)).2,
    { s.env with readings := s.env.readings + 1 }⟩
  have hintroduce : introduce (side.env crypto snow) verified checked
      = ⟨.ok { verified with state }, ⟨checked.nonceCache,
        { checked.env with
          written := s.env.written ++ frame msg
          readings := s.env.readings + 2 }⟩, []⟩ := introduce_run hkeys hwrite
  rw [conclude, Side.env_crypto, Side.env_clock,
    Prog.bind_of_silent (verify_run hfp hsigns hclose hnew), answer,
    Prog.bind_of_silent hintroduce, Side.env_snow, hinto]
  rfl

end

end Rubix.Security
