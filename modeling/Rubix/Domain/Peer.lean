/-
# `Rubix.Domain.Peer` — remote peers and their availability

`PeerStatus` is what the local side believes about a peer's reachability;
`Blocked` is the one state set by the local user and, by its own comment,
overrides the others.  `Peer` is built unverified and offline, and changed
only by the setters below; each reads the clock reading it is given.

`PeerOp` lists the operations that only local code performs on a peer, and
`Reachable` is what the builder and those operations can produce.  A
reachable peer still satisfies the checks its builder made
(`Reachable.wellFormed`).
-/
import Rubix.Domain.Fingerprint
import Rubix.Lib.Effect

namespace Rubix

def onlineTimeoutSeconds : Int := 30

/-- Peer availability status. -/
inductive PeerStatus where
  | online (lastSeen : DateTime)
  | away (lastSeen : DateTime)
  | offline (lastSeen : Option DateTime)
  | blocked
  deriving DecidableEq

namespace PeerStatus

/-- `PeerStatus::online_now` -/
def onlineNow (now : DateTime) : PeerStatus := .online now

/-- `PeerStatus::refresh`, at the clock reading `now`. -/
def refresh (now : DateTime) : PeerStatus → PeerStatus
  | .online lastSeen =>
      if seconds onlineTimeoutSeconds < now - lastSeen then .away lastSeen else .online lastSeen
  | .away lastSeen =>
      if seconds (onlineTimeoutSeconds + 300) < now - lastSeen then .offline (some lastSeen)
      else .away lastSeen
  | other => other

def isOnline : PeerStatus → Bool
  | .online _ => true
  | _ => false

def lastSeen : PeerStatus → Option DateTime
  | .online t | .away t => some t
  | .offline t => t
  | .blocked => none

@[simp] theorem refresh_blocked (now : DateTime) : refresh now .blocked = .blocked := rfl

/-- A refresh carries over when the peer was seen. -/
theorem lastSeen_refresh (status : PeerStatus) (now : DateTime) :
    (status.refresh now).lastSeen = status.lastSeen := by
  cases status with
  | online t | away t =>
      rw [refresh]
      split
      · rfl
      · rfl
  | offline t | blocked => rfl

end PeerStatus

def maxPeerAddresses : Nat := 10

/-- A remote peer in the system. -/
structure Peer where
  id : Uuid
  displayName : String
  fingerprint : Fingerprint
  ed25519Public : Vector UInt8 32
  x25519Public : Vector UInt8 32
  addresses : List String
  status : PeerStatus
  verified : Bool
  firstSeen : DateTime
  lastSeen : DateTime
  deriving DecidableEq

/-- Builder for `Peer`; the setters of the source are field updates. -/
structure PeerBuilder where
  displayName : Option String := none
  fingerprint : Option Fingerprint := none
  ed25519Public : Option (Vector UInt8 32) := none
  x25519Public : Option (Vector UInt8 32) := none
  addresses : List String := []

/-- `ok_or_else(|| DomainError::Validation { field, reason: "required" })` -/
def required {α : Type} (field : String) : Option α → DomainResult α
  | some a => .ok a
  | none => .error (.validation field "required")

/-- `PeerBuilder::build`, on the UUID and the clock reading it draws. -/
def PeerBuilder.build (b : PeerBuilder) (id : Uuid) (now : DateTime) : DomainResult Peer := do
  let displayName ← required "display_name" b.displayName
  validateDisplayName displayName
  let fingerprint ← required "fingerprint" b.fingerprint
  let ed25519Public ← required "ed25519_public" b.ed25519Public
  let x25519Public ← required "x25519_public" b.x25519Public
  if maxPeerAddresses < b.addresses.length then
    .error (.resourceLimit s!"peer addresses exceed {maxPeerAddresses}")
  else
    .ok { id, displayName, fingerprint, ed25519Public, x25519Public
          addresses := b.addresses
          status := .offline none
          verified := false
          firstSeen := now
          lastSeen := now }

namespace Peer

def setDisplayName (p : Peer) (name : String) (now : DateTime) : DomainResult Peer := do
  validateDisplayName name
  .ok { p with displayName := name, lastSeen := now }

def setAddresses (p : Peer) (addresses : List String) (now : DateTime) : DomainResult Peer :=
  if maxPeerAddresses < addresses.length then
    .error (.resourceLimit s!"peer addresses exceed {maxPeerAddresses}")
  else .ok { p with addresses := addresses, lastSeen := now }

/-- `Peer::set_status`: unconditional; seeing a peer online is seeing it. -/
def setStatus (p : Peer) (status : PeerStatus) (now : DateTime) : Peer :=
  if status.isOnline then { p with status := status, lastSeen := now }
  else { p with status := status }

def verify (p : Peer) : Peer := { p with verified := true }

def unverify (p : Peer) : Peer := { p with verified := false }

def refreshStatus (p : Peer) (now : DateTime) : Peer := { p with status := p.status.refresh now }

def addAddress (p : Peer) (address : String) : DomainResult Peer :=
  if maxPeerAddresses ≤ p.addresses.length then
    .error (.resourceLimit "peer addresses at maximum")
  else if p.addresses.contains address then .ok p
  else .ok { p with addresses := p.addresses ++ [address] }

/-! ## What the setters leave alone -/

theorem setStatus_eq (p : Peer) (s : PeerStatus) (now : DateTime) :
    p.setStatus s now =
      { p with status := s, lastSeen := if s.isOnline then now else p.lastSeen } := by
  rw [setStatus]
  split
  · rfl
  · rfl

@[simp] theorem setStatus_status (p : Peer) (s : PeerStatus) (now : DateTime) :
    (p.setStatus s now).status = s := by
  rw [setStatus_eq]

@[simp] theorem setStatus_fingerprint (p : Peer) (s : PeerStatus) (now : DateTime) :
    (p.setStatus s now).fingerprint = p.fingerprint := by
  rw [setStatus_eq]

theorem setStatus_displayName (p : Peer) (s : PeerStatus) (now : DateTime) :
    (p.setStatus s now).displayName = p.displayName := by
  rw [setStatus_eq]

theorem setStatus_addresses (p : Peer) (s : PeerStatus) (now : DateTime) :
    (p.setStatus s now).addresses = p.addresses := by
  rw [setStatus_eq]

theorem setStatus_id (p : Peer) (s : PeerStatus) (now : DateTime) :
    (p.setStatus s now).id = p.id := by
  rw [setStatus_eq]

theorem setStatus_verified (p : Peer) (s : PeerStatus) (now : DateTime) :
    (p.setStatus s now).verified = p.verified := by
  rw [setStatus_eq]

theorem setDisplayName_ok {p q : Peer} {name : String} {now : DateTime}
    (h : p.setDisplayName name now = .ok q) :
    validateDisplayName name = .ok () ∧ q = { p with displayName := name, lastSeen := now } := by
  obtain ⟨_, hvalid, hq⟩ := Effect.bind_eq_ok.mp h
  exact ⟨hvalid, (Except.ok.inj hq).symm⟩

theorem setAddresses_ok {p q : Peer} {as : List String} {now : DateTime}
    (h : p.setAddresses as now = .ok q) :
    as.length ≤ maxPeerAddresses ∧ q = { p with addresses := as, lastSeen := now } := by
  rw [setAddresses] at h
  split at h
  · exact nomatch h
  · next hle =>
      cases h
      exact ⟨Nat.le_of_not_lt hle, rfl⟩

/-- A peer with room for an address has it behind its own, if it is new. -/
theorem addAddress_ok {p q : Peer} {a : String} (h : p.addAddress a = .ok q) :
    ∃ as : List String, as.length ≤ maxPeerAddresses ∧ q = { p with addresses := as } := by
  rw [addAddress] at h
  split at h
  · exact nomatch h
  · next hroom =>
      have hlt : p.addresses.length < maxPeerAddresses := Nat.lt_of_not_le hroom
      split at h
      · cases h
        exact ⟨p.addresses, Nat.le_of_lt hlt, rfl⟩
      · cases h
        refine ⟨p.addresses ++ [a], ?_, rfl⟩
        rw [List.length_append, List.length_singleton]
        exact hlt

end Peer

/-! ## The builder, inverted -/

theorem required_ok {α : Type} {field : String} {o : Option α} {a : α}
    (h : required field o = .ok a) : o = some a := by
  cases o with
  | none => exact nomatch h
  | some b => exact congrArg some (Except.ok.inj h)

/-- What a built peer looks like: the builder's fields, checked, on top of an
unverified, offline peer seen just now. -/
theorem PeerBuilder.build_ok {b : PeerBuilder} {id : Uuid} {now : DateTime} {p : Peer}
    (h : b.build id now = .ok p) :
    b.displayName = some p.displayName ∧ validateDisplayName p.displayName = .ok () ∧
      b.fingerprint = some p.fingerprint ∧ b.ed25519Public = some p.ed25519Public ∧
      b.x25519Public = some p.x25519Public ∧ b.addresses = p.addresses ∧
      p.addresses.length ≤ maxPeerAddresses ∧
      p.id = id ∧ p.status = .offline none ∧ p.verified = false ∧
      p.firstSeen = now ∧ p.lastSeen = now := by
  obtain ⟨name, hname, h⟩ := Effect.bind_eq_ok.mp h
  obtain ⟨u, hvalid, h⟩ := Effect.bind_eq_ok.mp h
  obtain ⟨fp, hfp, h⟩ := Effect.bind_eq_ok.mp h
  obtain ⟨ed, hed, h⟩ := Effect.bind_eq_ok.mp h
  obtain ⟨x, hx, h⟩ := Effect.bind_eq_ok.mp h
  split at h
  · exact nomatch h
  · next hle =>
      cases h
      exact ⟨required_ok hname, hvalid, required_ok hfp, required_ok hed, required_ok hx, rfl,
        Nat.le_of_not_lt hle, rfl, rfl, rfl, rfl, rfl⟩

/-- A complete builder with a valid name and few enough addresses succeeds. -/
theorem PeerBuilder.build_of_valid {name : String} {fp : Fingerprint}
    {ed x : Vector UInt8 32} {as : List String} (hname : validateDisplayName name = .ok ())
    (has : as.length ≤ maxPeerAddresses) (id : Uuid) (now : DateTime) :
    (PeerBuilder.build ⟨some name, some fp, some ed, some x, as⟩ id now)
      = .ok ⟨id, name, fp, ed, x, as, .offline none, false, now, now⟩ := by
  simp only [PeerBuilder.build, required, bind, Except.bind, hname,
    if_neg (Nat.not_lt.mpr has)]

/-! ## Reachable peers -/

/-- The operations local code performs on a peer, with their clock readings. -/
inductive PeerOp where
  | setStatus (s : PeerStatus) (now : DateTime)
  | verify
  | setAddresses (as : List String) (now : DateTime)
  | addAddress (a : String)
  | setDisplayName (name : String) (now : DateTime)

/-- A failed operation leaves the peer as it is. -/
def PeerOp.apply (p : Peer) : PeerOp → Peer
  | .setStatus s now => p.setStatus s now
  | .verify => p.verify
  | .setAddresses as now => (p.setAddresses as now).toOption.getD p
  | .addAddress a => (p.addAddress a).toOption.getD p
  | .setDisplayName name now => (p.setDisplayName name now).toOption.getD p

/-- What the builder and the operations can produce. -/
inductive Peer.Reachable : Peer → Prop
  | built {b : PeerBuilder} {id : Uuid} {now : DateTime} {p : Peer} :
      b.build id now = .ok p → Reachable p
  | op {p : Peer} (o : PeerOp) : Reachable p → Reachable (o.apply p)

/-- The checks a builder makes. -/
def Peer.WellFormed (p : Peer) : Prop :=
  validateDisplayName p.displayName = .ok () ∧ p.addresses.length ≤ maxPeerAddresses

theorem PeerOp.apply_wellFormed {p : Peer} (h : p.WellFormed) : ∀ o : PeerOp, (o.apply p).WellFormed
  | .setStatus s now => by
      rw [Peer.WellFormed, PeerOp.apply, Peer.setStatus_displayName, Peer.setStatus_addresses]
      exact h
  | .verify => h
  | .setAddresses as now => by
      simp only [PeerOp.apply]
      cases hr : p.setAddresses as now with
      | error e => exact h
      | ok q =>
          obtain ⟨hle, rfl⟩ := Peer.setAddresses_ok hr
          exact ⟨h.1, hle⟩
  | .addAddress a => by
      simp only [PeerOp.apply]
      cases hr : p.addAddress a with
      | error e => exact h
      | ok q =>
          obtain ⟨as, hle, rfl⟩ := Peer.addAddress_ok hr
          exact ⟨h.1, hle⟩
  | .setDisplayName name now => by
      simp only [PeerOp.apply]
      cases hr : p.setDisplayName name now with
      | error e => exact h
      | ok q =>
          obtain ⟨hvalid, rfl⟩ := Peer.setDisplayName_ok hr
          exact ⟨hvalid, h.2⟩

theorem Peer.Reachable.wellFormed {p : Peer} (h : p.Reachable) : p.WellFormed := by
  induction h with
  | built hb => exact ⟨(PeerBuilder.build_ok hb).2.1, (PeerBuilder.build_ok hb).2.2.2.2.2.2.1⟩
  | op o _ ih => exact o.apply_wellFormed ih

end Rubix
