/-
# `Rubix.Domain.PeerLife` — what holds of a peer, whatever is called on it

The methods that change a peer work on it in place: three validate and then
assign, four assign at once, and where `last_seen` is touched it is the last to
be assigned.  `PeerMethod.run` is each of them with the peer as its state; what
it leaves behind is what the function of the same name returns, and an error
leaves the peer it found (`PeerMethod.run_computes`).

`Kept` says what a call that succeeds can have done.  Each method is one case
of that (`PeerCall.kept`), and everything said of whole lives follows from it:

    display name     validated by the builder, or by `set_display_name`
    addresses        counted by the builder, or by the method that changed them
    last_seen        as it was, or the clock's reading
    verified         `verify` and `unverify` alone
    the rest         id, fingerprint, keys and `first_seen` are never assigned
-/
import Rubix.Domain.Peer
import Rubix.Lib.InPlace
import Rubix.Lib.Runs

namespace Rubix

open Runs

/-- The methods on `&mut self`. -/
inductive PeerMethod where
  | setDisplayName (name : String)
  | setAddresses (addresses : List String)
  | addAddress (address : String)
  | setStatus (status : PeerStatus)
  | verify
  | unverify
  | refreshStatus

namespace Peer

/-! ## The methods in place -/

def setDisplayNameInPlace (name : String) (now : DateTime) : EStateM DomainError Peer Unit := do
  match validateDisplayName name with
  | .error e => throw e
  | .ok () =>
      modify fun p => { p with displayName := name }
      modify fun p => { p with lastSeen := now }

def setAddressesInPlace (addresses : List String) (now : DateTime) :
    EStateM DomainError Peer Unit := do
  if maxPeerAddresses < addresses.length then
    throw (.resourceLimit s!"peer addresses exceed {maxPeerAddresses}")
  else
    modify fun p => { p with addresses := addresses }
    modify fun p => { p with lastSeen := now }

def setStatusInPlace (status : PeerStatus) (now : DateTime) : EStateM DomainError Peer Unit := do
  modify fun p => { p with status := status }
  if status.isOnline then modify fun p => { p with lastSeen := now }

def verifyInPlace : EStateM DomainError Peer Unit := modify fun p => { p with verified := true }

def unverifyInPlace : EStateM DomainError Peer Unit := modify fun p => { p with verified := false }

def refreshStatusInPlace (now : DateTime) : EStateM DomainError Peer Unit := do
  let status := (← get).status
  modify fun p => { p with status := status.refresh now }

def addAddressInPlace (address : String) : EStateM DomainError Peer Unit := do
  if maxPeerAddresses ≤ (← get).addresses.length then
    throw (.resourceLimit "peer addresses at maximum")
  else if (← get).addresses.contains address then pure ()
  else modify fun p => { p with addresses := p.addresses ++ [address] }

/-! Each of them is the function of its name. -/

theorem setDisplayNameInPlace_computes (name : String) (now : DateTime) :
    InPlace.Computes (setDisplayNameInPlace name now) fun p => p.setDisplayName name now := by
  intro p
  dsimp only
  rw [setDisplayNameInPlace, setDisplayName]
  cases validateDisplayName name with
  | error e => rfl
  | ok u => rfl

theorem setAddressesInPlace_computes (addresses : List String) (now : DateTime) :
    InPlace.Computes (setAddressesInPlace addresses now) fun p => p.setAddresses addresses now := by
  intro p
  dsimp only
  rw [setAddressesInPlace, setAddresses]
  split
  · rfl
  · rfl

theorem setStatusInPlace_computes (status : PeerStatus) (now : DateTime) :
    InPlace.Computes (setStatusInPlace status now) fun p => .ok (p.setStatus status now) := by
  intro p
  dsimp only
  rw [setStatusInPlace, setStatus]
  split
  · rfl
  · rfl

theorem addAddressInPlace_computes (address : String) :
    InPlace.Computes (addAddressInPlace address) fun p => p.addAddress address := by
  intro p
  dsimp only
  rw [addAddress]
  by_cases hfull : maxPeerAddresses ≤ p.addresses.length
  · simp [addAddressInPlace, hfull]
  · by_cases hknown : address ∈ p.addresses
    · simp [addAddressInPlace, hfull, hknown]
    · simp [addAddressInPlace, hfull, hknown]

end Peer

namespace PeerMethod

/-- The call, when the clock stands at `now`. -/
def run (now : DateTime) : PeerMethod → EStateM DomainError Peer Unit
  | .setDisplayName name => Peer.setDisplayNameInPlace name now
  | .setAddresses addresses => Peer.setAddressesInPlace addresses now
  | .addAddress address => Peer.addAddressInPlace address
  | .setStatus status => Peer.setStatusInPlace status now
  | .verify => Peer.verifyInPlace
  | .unverify => Peer.unverifyInPlace
  | .refreshStatus => Peer.refreshStatusInPlace now

/-- The same by the functions on peers. -/
def apply (now : DateTime) (p : Peer) : PeerMethod → DomainResult Peer
  | .setDisplayName name => p.setDisplayName name now
  | .setAddresses addresses => p.setAddresses addresses now
  | .addAddress address => p.addAddress address
  | .setStatus status => .ok (p.setStatus status now)
  | .verify => .ok p.verify
  | .unverify => .ok p.unverify
  | .refreshStatus => .ok (p.refreshStatus now)

/-- The method in place is the function: its answer, and the peer behind it. -/
theorem run_computes (method : PeerMethod) (now : DateTime) :
    InPlace.Computes (method.run now) fun p => method.apply now p := by
  cases method with
  | setDisplayName name => exact Peer.setDisplayNameInPlace_computes name now
  | setAddresses addresses => exact Peer.setAddressesInPlace_computes addresses now
  | addAddress address => exact Peer.addAddressInPlace_computes address
  | setStatus status => exact Peer.setStatusInPlace_computes status now
  | verify | unverify | refreshStatus =>
      intro p
      rfl

end PeerMethod

/-- A call of a method, with the clock's reading. -/
structure PeerCall where
  now : DateTime
  method : PeerMethod

namespace PeerCall

/-- The peer behind a call, whether it succeeds or not. -/
def step (p : Peer) (call : PeerCall) : Peer := InPlace.behind (call.method.run call.now) p

end PeerCall

namespace Peer

/-- What no method assigns. -/
structure SameIdentity (p q : Peer) : Prop where
  id : q.id = p.id
  fingerprint : q.fingerprint = p.fingerprint
  ed25519Public : q.ed25519Public = p.ed25519Public
  x25519Public : q.x25519Public = p.x25519Public
  firstSeen : q.firstSeen = p.firstSeen

/-- What a method called at `now` may have made of a peer. -/
structure Kept (now : DateTime) (p q : Peer) : Prop where
  identity : SameIdentity p q
  displayName : q.displayName = p.displayName ∨ validateDisplayName q.displayName = .ok ()
  addresses : q.addresses = p.addresses ∨ q.addresses.length ≤ maxPeerAddresses
  lastSeen : q.lastSeen = p.lastSeen ∨ q.lastSeen = now

/-- The bounds that other layers rely on. -/
structure Sound (p : Peer) : Prop where
  displayName_ne : p.displayName ≠ ""
  displayName_size : p.displayName.utf8ByteSize ≤ 64
  displayName_clean : ∀ c ∈ p.displayName.toList, isControl c = false
  addresses : p.addresses.length ≤ maxPeerAddresses
  seen : p.firstSeen ≤ p.lastSeen

theorem SameIdentity.refl (p : Peer) : SameIdentity p p := ⟨rfl, rfl, rfl, rfl, rfl⟩

theorem SameIdentity.trans {p q r : Peer} (h : SameIdentity p q) (h' : SameIdentity q r) :
    SameIdentity p r where
  id := h'.id.trans h.id
  fingerprint := h'.fingerprint.trans h.fingerprint
  ed25519Public := h'.ed25519Public.trans h.ed25519Public
  x25519Public := h'.x25519Public.trans h.x25519Public
  firstSeen := h'.firstSeen.trans h.firstSeen

variable {now created : DateTime} {p q : Peer}

theorem Kept.refl (now : DateTime) (p : Peer) : Kept now p p :=
  ⟨SameIdentity.refl p, .inl rfl, .inl rfl, .inl rfl⟩

theorem Sound.built {b : PeerBuilder} {id : Uuid} (h : b.build id created = .ok p) : p.Sound := by
  obtain ⟨-, hname, -, -, -, -, hfew, -, -, -, hfirst, hlast⟩ := PeerBuilder.build_ok h
  obtain ⟨hne, hsize, hclean⟩ := validateDisplayName_ok_iff.mp hname
  have hseen : p.firstSeen ≤ p.lastSeen := Int.le_of_eq (hfirst.trans hlast.symm)
  exact ⟨hne, hsize, hclean, hfew, hseen⟩

/-- Each bound is kept where its field is, and checked where it is not. -/
theorem Sound.of_kept (h : p.Sound) (hkept : Kept now p q) (hclock : p.lastSeen ≤ now) :
    q.Sound := by
  have hname : q.displayName ≠ "" ∧ q.displayName.utf8ByteSize ≤ 64 ∧
      ∀ c ∈ q.displayName.toList, isControl c = false := by
    rcases hkept.displayName with hsame | hvalid
    · rw [hsame]
      exact ⟨h.displayName_ne, h.displayName_size, h.displayName_clean⟩
    · exact validateDisplayName_ok_iff.mp hvalid
  have hfew : q.addresses.length ≤ maxPeerAddresses := by
    rcases hkept.addresses with hsame | hcounted
    · rw [hsame]
      exact h.addresses
    · exact hcounted
  have hseen : q.firstSeen ≤ q.lastSeen := by
    rw [hkept.identity.firstSeen]
    rcases hkept.lastSeen with hsame | hnow
    · rw [hsame]
      exact h.seen
    · rw [hnow]
      exact Int.le_trans h.seen hclock
  exact ⟨hname.1, hname.2.1, hname.2.2, hfew, hseen⟩

theorem Kept.lastSeen_le (hkept : Kept now p q) (hclock : p.lastSeen ≤ now) :
    p.lastSeen ≤ q.lastSeen := by
  rcases hkept.lastSeen with hsame | hnow
  · exact Int.le_of_eq hsame.symm
  · rw [hnow]
    exact hclock

theorem Kept.lastSeen_le_now (hkept : Kept now p q) (hclock : p.lastSeen ≤ now) :
    q.lastSeen ≤ now := by
  rcases hkept.lastSeen with hsame | hnow
  · rw [hsame]
    exact hclock
  · exact Int.le_of_eq hnow

end Peer

namespace PeerMethod

variable {now : DateTime} {p q : Peer} {method : PeerMethod}

/-- What each method does where it succeeds. -/
theorem kept_of_ok (h : method.apply now p = .ok q) : Peer.Kept now p q := by
  cases method with
  | setDisplayName name =>
      obtain ⟨hvalid, rfl⟩ := Peer.setDisplayName_ok h
      exact ⟨⟨rfl, rfl, rfl, rfl, rfl⟩, .inr hvalid, .inl rfl, .inr rfl⟩
  | setAddresses addresses =>
      obtain ⟨hfew, rfl⟩ := Peer.setAddresses_ok h
      exact ⟨⟨rfl, rfl, rfl, rfl, rfl⟩, .inl rfl, .inr hfew, .inr rfl⟩
  | addAddress address =>
      obtain ⟨addresses, hfew, rfl⟩ := Peer.addAddress_ok h
      exact ⟨⟨rfl, rfl, rfl, rfl, rfl⟩, .inl rfl, .inr hfew, .inl rfl⟩
  | setStatus status =>
      obtain rfl := Except.ok.inj h
      rw [Peer.setStatus_eq]
      refine ⟨⟨rfl, rfl, rfl, rfl, rfl⟩, .inl rfl, .inl rfl, ?_⟩
      cases status with
      | online t => exact .inr rfl
      | away t | offline t | blocked => exact .inl rfl
  | verify | unverify | refreshStatus =>
      obtain rfl := Except.ok.inj h
      exact ⟨⟨rfl, rfl, rfl, rfl, rfl⟩, .inl rfl, .inl rfl, .inl rfl⟩

/-- What becomes of the flag. -/
def verifiedAfter (verified : Bool) : PeerMethod → Bool
  | .verify => true
  | .unverify => false
  | _ => verified

theorem verified_of_ok (h : method.apply now p = .ok q) :
    q.verified = method.verifiedAfter p.verified := by
  cases method with
  | setDisplayName name =>
      obtain ⟨-, rfl⟩ := Peer.setDisplayName_ok h
      rfl
  | setAddresses addresses =>
      obtain ⟨-, rfl⟩ := Peer.setAddresses_ok h
      rfl
  | addAddress address =>
      obtain ⟨addresses, -, rfl⟩ := Peer.addAddress_ok h
      rfl
  | setStatus status =>
      obtain rfl := Except.ok.inj h
      exact Peer.setStatus_verified p status now
  | verify | unverify | refreshStatus =>
      obtain rfl := Except.ok.inj h
      rfl

end PeerMethod

namespace PeerCall

variable {p q : Peer} {call : PeerCall}

theorem step_of_error {e : DomainError} (h : call.method.apply call.now p = .error e) :
    step p call = p :=
  (call.method.run_computes call.now).behind_of_error h

theorem step_of_ok (h : call.method.apply call.now p = .ok q) : step p call = q :=
  (call.method.run_computes call.now).behind_of_ok h

/-- One call, whether it succeeds or not. -/
theorem kept (p : Peer) (call : PeerCall) : Peer.Kept call.now p (step p call) := by
  cases happly : call.method.apply call.now p with
  | error e =>
      rw [step_of_error happly]
      exact Peer.Kept.refl call.now p
  | ok q =>
      rw [step_of_ok happly]
      exact PeerMethod.kept_of_ok happly

theorem verified_ne (h : (step p call).verified ≠ p.verified) :
    call.method = .verify ∨ call.method = .unverify := by
  cases happly : call.method.apply call.now p with
  | error e =>
      rw [step_of_error happly] at h
      exact absurd rfl h
  | ok q =>
      rw [step_of_ok happly, PeerMethod.verified_of_ok happly] at h
      cases hmethod : call.method with
      | verify => exact .inl rfl
      | unverify => exact .inr rfl
      | setDisplayName _ | setAddresses _ | addAddress _ | setStatus _ | refreshStatus =>
          rw [hmethod] at h
          exact absurd rfl h

/-- Along a clock that does not go back: what is sound stays sound, with the
identity it was built with, and was last seen before now. -/
theorem clocked (p : Peer) : Clocked step now
    (fun t q => q.lastSeen ≤ t ∧ q.Sound ∧ Peer.SameIdentity p q) where
  later := by
    rintro t t' q ⟨hseen, hrest⟩ hle
    exact ⟨Int.le_trans hseen hle, hrest⟩
  step := by
    rintro q call ⟨hseen, hsound, hsame⟩
    have hkept := kept q call
    exact ⟨hkept.lastSeen_le_now hseen, hsound.of_kept hkept hseen, hsame.trans hkept.identity⟩

/-- Every life of a built peer, whatever is called on it, under a clock that
does not go back.  It stays within the bounds it was built with and keeps its
identity; a call never takes `last_seen` back, changes `verified` only if it is
`verify` or `unverify`, and leaves the peer as it was if it fails. -/
theorem sound_throughout {b : PeerBuilder} {id : Uuid} {created : DateTime}
    (h : b.build id created = .ok p) {calls : List PeerCall}
    (hclock : (created :: calls.map now).Pairwise (· ≤ ·)) :
    Always step (fun q => q.Sound ∧ Peer.SameIdentity p q) calls p ∧
      Guarded step (fun q call => q.lastSeen ≤ (step q call).lastSeen ∧
        ((step q call).verified ≠ q.verified →
          call.method = .verify ∨ call.method = .unverify) ∧
        ∀ e q', (call.method.run call.now).run q = .error e q' → q' = q) calls p := by
  obtain ⟨-, -, -, -, -, -, -, -, -, -, -, hlast⟩ := PeerBuilder.build_ok h
  have hstart : p.lastSeen ≤ created ∧ p.Sound ∧ Peer.SameIdentity p p :=
    ⟨Int.le_of_eq hlast, Peer.Sound.built h, Peer.SameIdentity.refl p⟩
  constructor
  · refine ((clocked p).always hstart hclock).imp ?_
    rintro q ⟨_, -, hsound, hsame⟩
    exact ⟨hsound, hsame⟩
  · intro before call hbefore
    obtain ⟨hseen, -, -⟩ := (clocked p).guarded hstart hclock before call hbefore
    refine ⟨(kept _ call).lastSeen_le hseen, verified_ne, ?_⟩
    intro e q' herror
    exact (call.method.run_computes call.now).unchanged herror

/-- A peer that is built, seen, verified and refreshed, and refuses an empty
name and eleven addresses. -/
def remoteBuilder : PeerBuilder :=
  { displayName := some "RemotePeer"
    fingerprint := some ⟨Vector.replicate 20 0xBB⟩
    ed25519Public := some (Vector.replicate 32 0x11)
    x25519Public := some (Vector.replicate 32 0x22)
    addresses := ["192.168.1.100:8080"] }

def remotePeer : Peer :=
  { id := ⟨Vector.replicate 16 0⟩
    displayName := "RemotePeer"
    fingerprint := ⟨Vector.replicate 20 0xBB⟩
    ed25519Public := Vector.replicate 32 0x11
    x25519Public := Vector.replicate 32 0x22
    addresses := ["192.168.1.100:8080"]
    status := .offline none
    verified := false
    firstSeen := 0
    lastSeen := 0 }

def remoteCalls : List PeerCall :=
  [⟨1, .setDisplayName ""⟩, ⟨2, .setStatus (.online 2)⟩, ⟨2, .verify⟩,
    ⟨3, .addAddress "10.0.0.1:8080"⟩, ⟨seconds 40, .refreshStatus⟩, ⟨seconds 41, .unverify⟩,
    ⟨seconds 42, .setAddresses (List.replicate 11 "10.0.0.1:8080")⟩]

theorem remoteCalls_sound :
    Always step (fun q => q.Sound ∧ Peer.SameIdentity remotePeer q) remoteCalls remotePeer ∧
      Guarded step (fun q call => q.lastSeen ≤ (step q call).lastSeen ∧
        ((step q call).verified ≠ q.verified →
          call.method = .verify ∨ call.method = .unverify) ∧
        ∀ e q', (call.method.run call.now).run q = .error e q' → q' = q) remoteCalls remotePeer := by
  have hbuilt : remoteBuilder.build remotePeer.id 0 = .ok remotePeer :=
    PeerBuilder.build_of_valid (by decide) (by decide) remotePeer.id 0
  exact sound_throughout hbuilt (by decide)

end PeerCall
end Rubix
