/-
# `Rubix.Application.Memory` — ports held in memory

The environment of a single process: a table of peers with one row for each
fingerprint, a list of saved messages, and fixed answers where the outside
world would decide.  It stores what it is given and never fails to, and it
computes, so a run of a use case over it can be evaluated.
-/
import Rubix.Application.Ports

namespace Rubix

structure Memory where
  peers : List Peer := []
  messages : List Message := []
  trusted : List Fingerprint := []
  discovered : List DiscoveredPeer := []
  /-- the answer to every connection -/
  connection : Timed (Except NetworkError (ConnectionId × Peer)) := ⟨0, .error .connectionRefused⟩
  /-- the answers to the next sends; after them every send succeeds -/
  sends : List (Except NetworkError Unit) := []
  clock : DateTime := 0
  nextId : Uuid := ⟨Vector.replicate 16 0⟩

namespace Memory

/-- The address the examples use. -/
def address : String := "192.168.1.7:9000"

def socketAddr : SocketAddr := .v4 #v[192, 168, 1, 7] 9000

/-- The row of a fingerprint. -/
def find (m : Memory) (fp : Fingerprint) : Option Peer := m.peers.find? (·.fingerprint = fp)

/-- Insert or replace the row of the peer's fingerprint. -/
def put (m : Memory) (p : Peer) : Memory :=
  { m with peers := p :: m.peers.filter (·.fingerprint ≠ p.fingerprint) }

/-- Set the status column of a row, if there is one. -/
def putStatus (m : Memory) (fp : Fingerprint) (s : PeerStatus) : Memory :=
  { m with peers := m.peers.map fun p => if p.fingerprint = fp then { p with status := s } else p }

/-- Encryption that adds and removes a one-byte header. -/
def header : UInt8 := 1

def ports : Ports Memory where
  network :=
    { connect := fun _ _ m => (m.connection, m)
      sendToPeer := fun _ _ m => (m.sends.headD (.ok ()), { m with sends := m.sends.tail })
      discoverPeers := fun _ m => (.ok m.discovered, m) }
  persistence :=
    { saveMessage := fun msg m => (.ok (), { m with messages := msg :: m.messages })
      savePeer := fun p m => (.ok (), m.put p)
      loadPeer := fun fp m => (.ok (m.find fp), m)
      updatePeerStatus := fun fp s m => (.ok (), m.putStatus fp s) }
  security :=
    { encryptForPeer := fun plaintext _ m => (.ok (header :: plaintext), m)
      decryptFromPeer := fun ciphertext _ m =>
        (if ciphertext.head? = some header then .ok ciphertext.tail else .error .decryptionFailed, m) }
  trust := { isTrusted := fun fp m => (.ok (m.trusted.contains fp), m) }
  notification := { notifyMessageReceived := fun _ _ m => (.ok (), m) }
  utcNow := fun m => (m.clock, m)
  newUuid := fun m => (m.nextId, m)
  parseSocketAddr := fun s => if s = address then some socketAddr else none

/-! ## An example

Everything the runs below read of the clock is the epoch. -/

scoped instance : Chrono where
  toRfc3339 _ := "1970-01-01T00:00:00+00:00"
  debug _ := "1970-01-01T00:00:00Z"

def identity : Identity :=
  { id := ⟨Vector.replicate 16 1⟩
    displayName := "Local"
    ed25519Public := Vector.replicate 32 0x11
    x25519Public := Vector.replicate 32 0x12
    fingerprint := ⟨Vector.replicate 20 0x1A⟩
    createdAt := 0
    updatedAt := 0 }

def peer : Peer :=
  { id := ⟨Vector.replicate 16 2⟩
    displayName := "Remote"
    fingerprint := ⟨Vector.replicate 20 0xBB⟩
    ed25519Public := Vector.replicate 32 0x21
    x25519Public := Vector.replicate 32 0x22
    addresses := [address]
    status := .offline none
    verified := true
    firstSeen := 0
    lastSeen := 0 }

/-- A process just started over the given memory. -/
def app (m : Memory) : App Memory :=
  { now := 0
    connectLimiter := .withConfig (seconds 60) 3
    sendLimiter := .new
    identity := identity
    env := m }

/-! ## The table of peers -/

theorem find_put_self (m : Memory) (p : Peer) : (m.put p).find p.fingerprint = some p := by
  simp [find, put]

theorem find_put_of_ne (m : Memory) {p : Peer} {fp : Fingerprint} (h : p.fingerprint ≠ fp) :
    (m.put p).find fp = m.find fp := by
  simp only [find, put, List.find?_cons, decide_eq_false h]
  rw [List.find?_filter]
  congr 1
  funext q
  by_cases hq : q.fingerprint = fp
  · simp [hq, Ne.symm h]
  · simp [hq]

theorem find_putStatus (m : Memory) (fp fp' : Fingerprint) (s : PeerStatus) :
    (m.putStatus fp s).find fp'
      = (m.find fp').map fun p => if fp' = fp then { p with status := s } else p := by
  have hfp : ∀ p : Peer, (if p.fingerprint = fp then { p with status := s } else p).fingerprint
      = p.fingerprint := fun p => by split <;> rfl
  simp only [find, putStatus, List.find?_map, Function.comp_def, hfp]
  cases hfound : m.peers.find? (·.fingerprint = fp') with
  | none => rfl
  | some p =>
      have hp : p.fingerprint = fp' := by simpa using List.find?_some hfound
      simp only [Option.map_some, hp]

end Memory
end Rubix
