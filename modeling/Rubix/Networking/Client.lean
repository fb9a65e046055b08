/-
# `Rubix.Networking.Client` — a connection to a peer, from its first byte on

`TcpClient::connect` opens a TCP connection, runs an initiator handshake on it,
and wraps what comes of it.  An attempt carries all that is not the client's
own: whether the TCP connection comes about, the stream with the peer at its
other end, the clocks, the generator, and what may interrupt the handshake.

    no TCP connection                ConnectionTimeout, ConnectionFailed
    no handshake state               HandshakeFailed
    interrupted                      HandshakeTimeout, HandshakeCancelled
    another peer than expected       IdentityMismatch
    any other failure                HandshakeFailed
    through                          the connection, under the expected fingerprint

Whoever is at the other end, a connection comes from a handshake whose verified
identity has that fingerprint and signed the payload it was taken from
(`connect_authenticated`).
-/
import Rubix.Networking.Codec
import Rubix.Security.Binding

namespace Rubix.Networking

open Security (Clock Crypto Env IdentityKeys Interrupt Node NoiseHandshake Snow Stream
  VerifiedIdentity X25519PublicKey)

variable {W S T : Type}

/-- An active encrypted connection to a peer. -/
structure EncryptedConnection (W T : Type) where
  stream : Stream W
  transport : T
  peerFingerprint : Fingerprint

/-- What an attempt to connect meets. -/
structure Attempt (W : Type) where
  /-- `TcpStream::connect` under its timeout: `none` when that elapses -/
  tcp : Option (Except String Unit)
  tryClone : Except String Unit
  interrupt : Option Interrupt
  stream : Stream W
  clock : Clock W
  fillBytes : W → Vector UInt8 12 × W
  world : W

/-- TCP client for connecting to peers. -/
structure TcpClient (S T : Type) where
  crypto : Crypto
  snow : Snow S T
  ourIdentity : IdentityKeys

namespace TcpClient

/-- What the handshake of an attempt runs on. -/
def env (client : TcpClient S T) (a : Attempt W) : Env W S T where
  crypto := client.crypto
  snow := client.snow
  clock := a.clock
  stream := a.stream
  fillBytes := a.fillBytes

/-- A handshake that `new_initiator` makes has a nonce cache of its own. -/
def node (a : Attempt W) : Node W := ⟨.new 10000, a.world⟩

/-- `map_err` on the handshake. -/
def handshakeError : Security.SecurityError → NetworkError
  | .handshakeTimeout secs => .handshakeTimeout secs
  | .handshakeCancelled => .handshakeCancelled
  | .fingerprintMismatch => .identityMismatch "peer fingerprint does not match expected"
  | e => .handshakeFailed e.toString

/-- `TcpClient::connect` -/
def connect (client : TcpClient S T) (ip : String) (port : Nat) (fp : Fingerprint)
    (rx : X25519PublicKey) (a : Attempt W) : NetworkResult (EncryptedConnection W T) :=
  let addr := ip ++ ":" ++ Nat.repr port
  match a.tcp with
  | none => .error (.connectionTimeout addr)
  | some (.error e) => .error (.connectionFailed (addr ++ ": " ++ e))
  | some (.ok ()) =>
      match NoiseHandshake.newInitiatorWithCache client.snow client.ourIdentity fp rx with
      | .error e => .error (.handshakeFailed ("initiator setup: " ++ e.toString))
      | .ok h =>
          match a.tryClone with
          | .error e => .error (.internal ("stream clone: " ++ e))
          | .ok () =>
              match (Security.runInitiatorHandshake a.interrupt (client.env a) h (node a)).outcome with
              | .err e => .error (handshakeError e)
              | .ok (transport, _) => .ok ⟨a.stream, transport, fp⟩

end TcpClient

/-- The connection came from a handshake that took the peer for `fp`: on this
stream an initiator handshake delivered a payload with a valid signature, and
the fingerprint that is derived from its two keys is `fp`. -/
def Authenticated (client : TcpClient S T) (fp : Fingerprint) (conn : EncryptedConnection W T) :
    Prop :=
  conn.peerFingerprint = fp ∧ ∃ (a : Attempt W) (rx : X25519PublicKey) (v : VerifiedIdentity),
    conn.stream = a.stream ∧
      (Security.handshake .initiator (client.env a) client.ourIdentity fp rx
        (TcpClient.node a)).outcome = .ok (conn.transport, v) ∧
      v.fingerprint = fp ∧
      ∃ d, (Security.deliver .initiator (client.env a) client.ourIdentity fp rx
          (TcpClient.node a)).outcome = .ok d ∧
        Security.Signed client.crypto d.1 v

/-- The steps of a `connect` that succeeds. -/
theorem TcpClient.connect_ok {client : TcpClient S T} {ip : String} {port : Nat} {fp : Fingerprint}
    {rx : X25519PublicKey} {a : Attempt W} {conn : EncryptedConnection W T}
    (h : client.connect ip port fp rx a = .ok conn) :
    conn.stream = a.stream ∧ conn.peerFingerprint = fp ∧
      ∃ v, (Security.handshake .initiator (client.env a) client.ourIdentity fp rx
        (TcpClient.node a)).outcome = .ok (conn.transport, v) := by
  rw [TcpClient.connect] at h
  split at h
  · exact nomatch h
  · exact nomatch h
  · split at h
    · exact nomatch h
    · next hs hconstruct =>
        split at h
        · exact nomatch h
        · split at h
          · exact nomatch h
          · next transport v hrun =>
              cases h
              refine ⟨rfl, rfl, v, ?_⟩
              have hconstructed : Security.construct .initiator (client.env a).snow
                  client.ourIdentity fp rx = .ok hs := hconstruct
              rw [Security.handshake, hconstructed, Effect.Prog.orFail_ok]
              cases hinterrupt : a.interrupt with
              | some i =>
                  rw [hinterrupt] at hrun
                  cases hrun
              | none =>
                  rw [hinterrupt] at hrun
                  exact hrun

/-- Whoever is at the other end, a connection is authenticated. -/
theorem connect_authenticated {client : TcpClient S T} {ip : String} {port : Nat} {fp : Fingerprint}
    {rx : X25519PublicKey} {a : Attempt W} {conn : EncryptedConnection W T}
    (h : client.connect ip port fp rx a = .ok conn) : Authenticated client fp conn := by
  obtain ⟨hstream, hpeer, v, hrun⟩ := TcpClient.connect_ok h
  obtain ⟨hfp, d, hd, hsigned⟩ := Security.handshake_authentic hrun
  exact ⟨hpeer, a, rx, v, hstream, hrun, hfp, d, hd, hsigned⟩

end Rubix.Networking
