/-
# `Rubix.Application.Ports` — the ports, and the programs that call them

The use cases reach the outside only through five ports, the clock and the
UUID generator.  Each is a function of a world `W` of which nothing is known:
its answer may depend on everything that happened before, and it may change
whatever it likes.

    App W        what a use case can touch: its limiters, the identity, the
                 monotonic clock's reading, and the world behind the ports
    Call         one port call with its arguments and its answer
    UseCase W    a program over App W that logs its port calls

A use case reads the monotonic clock only in a rate limiter's `check`, before
its first await, so one reading `now` is enough for a run.
-/
import Rubix.Lib.Effect
import Rubix.Domain.Identity
import Rubix.Domain.Message
import Rubix.Domain.Peer
import Rubix.Application.RateLimit

namespace Rubix

/-! ## Errors -/

/-- Core application error enum. -/
inductive ApplicationError where
  | validation (field reason : String)
  | domain | network | persistence | security | peerNotVerified | peerNotFound | rateLimited
  | timeout | cancelled | internal
  deriving DecidableEq

inductive NetworkError where
  | connectionRefused | timeout | handshakeFailed | peerDisconnected | backpressure
  | discoveryFailed (reason : String)
  | internal
  deriving DecidableEq

inductive PersistenceError where
  | unavailable
  | queryFailed (reason : String)
  | constraintViolation | internal
  deriving DecidableEq

inductive SecurityError where
  | keyGenerationFailed | encryptionFailed | decryptionFailed | signatureInvalid
  | fingerprintFailed | storageFailed | internal
  deriving DecidableEq

inductive TrustError where
  | storage | internal
  deriving DecidableEq

inductive NotificationError where
  | unavailable | internal
  deriving DecidableEq

/-- The two ways a use case can panic. -/
inductive Panic where
  /-- `unreachable!()` -/
  | unreachable
  /-- a string sliced inside a character -/
  | strSlice
  deriving DecidableEq

/-! ## What crosses the ports -/

/-- `std::net::SocketAddr` -/
inductive SocketAddr where
  | v4 (octets : Vector UInt8 4) (port : UInt16)
  | v6 (segments : Vector UInt16 8) (port : UInt16) (flowinfo scope : UInt32)
  deriving DecidableEq

/-- Opaque connection identifier. -/
structure ConnectionId where
  id : Uuid
  deriving DecidableEq

/-- A peer discovered via LAN advertisement. -/
structure DiscoveredPeer where
  fingerprint : Fingerprint
  displayName : String
  addresses : List String
  ed25519Public : Vector UInt8 32
  x25519Public : Vector UInt8 32
  deriving DecidableEq

/-- An incoming encrypted message from the network. -/
structure IncomingMessage where
  senderFingerprint : Fingerprint
  ciphertext : List UInt8
  receivedAt : DateTime
  deriving DecidableEq

/-- An answer, and the time its future took to resolve. -/
structure Timed (ρ : Type) where
  took : Duration
  value : ρ
  deriving DecidableEq

/-- `tokio::time::timeout`: at the deadline the future is still polled first. -/
def Timed.within {ρ : Type} (limit : Duration) (t : Timed ρ) : Option ρ :=
  if t.took ≤ limit then some t.value else none

/-! ## The ports -/

variable {W : Type}

structure NetworkPort (W : Type) where
  connect : SocketAddr → Option Fingerprint → W →
    Timed (Except NetworkError (ConnectionId × Peer)) × W
  sendToPeer : ConnectionId → List UInt8 → W → Except NetworkError Unit × W
  discoverPeers : Duration → W → Except NetworkError (List DiscoveredPeer) × W

structure PersistencePort (W : Type) where
  saveMessage : Message → W → Except PersistenceError Unit × W
  savePeer : Peer → W → Except PersistenceError Unit × W
  loadPeer : Fingerprint → W → Except PersistenceError (Option Peer) × W
  updatePeerStatus : Fingerprint → PeerStatus → W → Except PersistenceError Unit × W

structure SecurityPort (W : Type) where
  encryptForPeer : List UInt8 → Fingerprint → W → Except SecurityError (List UInt8) × W
  decryptFromPeer : List UInt8 → Fingerprint → W → Except SecurityError (List UInt8) × W

structure TrustPort (W : Type) where
  isTrusted : Fingerprint → W → Except TrustError Bool × W

structure NotificationPort (W : Type) where
  notifyMessageReceived : Fingerprint → String → W → Except NotificationError Unit × W

/-- Everything a use case calls: the ports, the wall clock, the UUID
generator, and the standard library's address parser. -/
structure Ports (W : Type) where
  network : NetworkPort W
  persistence : PersistencePort W
  security : SecurityPort W
  trust : TrustPort W
  notification : NotificationPort W
  /-- `Utc::now` -/
  utcNow : W → DateTime × W
  /-- `Uuid::new_v4` -/
  newUuid : W → Uuid × W
  /-- `SocketAddr::from_str` -/
  parseSocketAddr : String → Option SocketAddr

/-- One port call and its answer; `connect` also keeps the instant it started. -/
inductive Call where
  | connect (start : Instant) (addr : SocketAddr) (expected : Option Fingerprint)
      (answer : Timed (Except NetworkError (ConnectionId × Peer)))
  | sendToPeer (conn : ConnectionId) (ciphertext : List UInt8) (answer : Except NetworkError Unit)
  | discoverPeers (timeout : Duration) (answer : Except NetworkError (List DiscoveredPeer))
  | saveMessage (m : Message) (answer : Except PersistenceError Unit)
  | savePeer (p : Peer) (answer : Except PersistenceError Unit)
  | loadPeer (fp : Fingerprint) (answer : Except PersistenceError (Option Peer))
  | updatePeerStatus (fp : Fingerprint) (s : PeerStatus) (answer : Except PersistenceError Unit)
  | encryptForPeer (plaintext : List UInt8) (fp : Fingerprint)
      (answer : Except SecurityError (List UInt8))
  | decryptFromPeer (ciphertext : List UInt8) (fp : Fingerprint)
      (answer : Except SecurityError (List UInt8))
  | isTrusted (fp : Fingerprint) (answer : Except TrustError Bool)
  | notifyMessageReceived (fp : Fingerprint) (preview : String)
      (answer : Except NotificationError Unit)
  | sleep (d : Duration)
  deriving DecidableEq

/-- The messages a log hands to `save_message`. -/
def saves (log : List Call) : List Message :=
  log.filterMap fun
    | .saveMessage m _ => some m
    | _ => none

/-- The answers of the send attempts in a log. -/
def sends (log : List Call) : List (Except NetworkError Unit) :=
  log.filterMap fun
    | .sendToPeer _ _ answer => some answer
    | _ => none

@[simp] theorem saves_append (l l' : List Call) : saves (l ++ l') = saves l ++ saves l' :=
  List.filterMap_append

@[simp] theorem sends_append (l l' : List Call) : sends (l ++ l') = sends l ++ sends l' :=
  List.filterMap_append

/-- What a use case can touch; the limiters live as long as the process. -/
structure App (W : Type) where
  now : Instant
  connectLimiter : RateLimiter
  sendLimiter : RateLimiter
  identity : Identity
  env : W

abbrev UseCase (W α : Type) : Type := Effect.Prog (App W) Call ApplicationError Panic α

open Effect (Prog)

/-! ## Calling them -/

/-- A program run from the instant `t`. -/
def startedAt {α : Type} (t : Instant) (x : UseCase W α) : UseCase W α :=
  fun s => x { s with now := t }

/-- A logged call of a port. -/
def ask {ρ : Type} (ev : ρ → Call) (f : W → ρ × W) : UseCase W ρ :=
  Prog.call ev fun s => ((f s.env).1, { s with env := (f s.env).2 })

/-- The clock and the UUID generator are called without a trace. -/
def draw {ρ : Type} (f : W → ρ × W) : UseCase W ρ :=
  Prog.silent fun s => ((f s.env).1, { s with env := (f s.env).2 })

namespace Ports

variable (ports : Ports W)

def connect (addr : SocketAddr) (expected : Option Fingerprint) :
    UseCase W (Timed (Except NetworkError (ConnectionId × Peer))) := do
  let r ← Prog.call (fun r => .connect r.1 addr expected r.2) fun s =>
    ((s.now, (ports.network.connect addr expected s.env).1),
      { s with env := (ports.network.connect addr expected s.env).2 })
  pure r.2

def sendToPeer (conn : ConnectionId) (ciphertext : List UInt8) :
    UseCase W (Except NetworkError Unit) :=
  ask (.sendToPeer conn ciphertext) (ports.network.sendToPeer conn ciphertext)

def discoverPeers (timeout : Duration) : UseCase W (Except NetworkError (List DiscoveredPeer)) :=
  ask (.discoverPeers timeout) (ports.network.discoverPeers timeout)

def saveMessage (m : Message) : UseCase W (Except PersistenceError Unit) :=
  ask (.saveMessage m) (ports.persistence.saveMessage m)

def savePeer (p : Peer) : UseCase W (Except PersistenceError Unit) :=
  ask (.savePeer p) (ports.persistence.savePeer p)

def loadPeer (fp : Fingerprint) : UseCase W (Except PersistenceError (Option Peer)) :=
  ask (.loadPeer fp) (ports.persistence.loadPeer fp)

def updatePeerStatus (fp : Fingerprint) (s : PeerStatus) :
    UseCase W (Except PersistenceError Unit) :=
  ask (.updatePeerStatus fp s) (ports.persistence.updatePeerStatus fp s)

def encryptForPeer (plaintext : List UInt8) (fp : Fingerprint) :
    UseCase W (Except SecurityError (List UInt8)) :=
  ask (.encryptForPeer plaintext fp) (ports.security.encryptForPeer plaintext fp)

def decryptFromPeer (ciphertext : List UInt8) (fp : Fingerprint) :
    UseCase W (Except SecurityError (List UInt8)) :=
  ask (.decryptFromPeer ciphertext fp) (ports.security.decryptFromPeer ciphertext fp)

def isTrusted (fp : Fingerprint) : UseCase W (Except TrustError Bool) :=
  ask (.isTrusted fp) (ports.trust.isTrusted fp)

def notifyMessageReceived (fp : Fingerprint) (preview : String) :
    UseCase W (Except NotificationError Unit) :=
  ask (.notifyMessageReceived fp preview) (ports.notification.notifyMessageReceived fp preview)

/-- What follows a connection runs on its answer. -/
theorem connect_bind {α : Type} (addr : SocketAddr) (expected : Option Fingerprint)
    (g : Timed (Except NetworkError (ConnectionId × Peer)) → UseCase W α) (s : App W) :
    (ports.connect addr expected >>= g) s =
      let answer := ports.network.connect addr expected s.env
      let r := g answer.1 { s with env := answer.2 }
      ⟨r.outcome, r.world, .connect s.now addr expected answer.1 :: r.log⟩ := rfl

end Ports

/-- `tokio::time::sleep` -/
def sleep (d : Duration) : UseCase W Unit := Prog.call (fun _ => .sleep d) fun s => ((), s)

/-! ## What a call leaves alone

A predicate on `App W` that does not look at the world behind the ports is
kept by every port call. -/

section Blind
variable {ρ : Type} {I : App W → Prop}

/-- `I` does not look at the world behind the ports. -/
def Blind (I : App W → Prop) : Prop := ∀ s env, I s → I { s with env := env }

theorem keeps_ask (hI : Blind I) (ev : ρ → Call) (f : W → ρ × W) : Prog.Keeps I (ask ev f) :=
  Prog.Keeps.call fun s hs => hI s _ hs

theorem keeps_draw (hI : Blind I) (f : W → ρ × W) : Prog.Keeps I (draw f) :=
  Prog.Keeps.silent fun s hs => hI s _ hs

end Blind

/-- `map_err(|_| ApplicationError::Persistence)?`, the commonest of the kind. -/
def orPersistence {α : Type} : Except PersistenceError α → UseCase W α :=
  Prog.orFail fun _ => .persistence

/-- `ok_or(e)?` -/
def require {α : Type} (e : ApplicationError) (o : Option α) : UseCase W α :=
  Prog.orFail id (match o with
    | some a => .ok a
    | none => .error e)

end Rubix
