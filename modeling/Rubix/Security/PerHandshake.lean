/-
# `Rubix.Security.PerHandshake` — a nonce cache for every handshake

`new_initiator` and `new_responder` construct a handshake with a fresh cache,
and no other handshake has it.  A process goes on constructing handshakes and
giving them payloads, in any order.  A payload that an earlier handshake
accepted is then up to the later one alone:

    its clock is off the payload's timestamp      replay detected
    it expects somebody else                      fingerprint mismatch
    its own cache has the nonce                   replay detected
    otherwise                                     accepted

so replays are detected across handshakes exactly where the first or the third
of these holds (`replays_rejected_iff`).
-/
import Rubix.Lib.Runs
import Rubix.Security.Replay

namespace Rubix.Security

open Effect (Prog)
open Runs

variable {S T : Type}

/-- The maximum number of entries of a fresh cache. -/
def freshCacheEntries : Nat := 10000

namespace NoiseHandshake

/-- `new_initiator` -/
def newInitiator (snow : Snow S T) (keys : IdentityKeys) (fp : Fingerprint)
    (rx : X25519PublicKey) : SecurityResult (NoiseHandshake S × NonceCache) :=
  (newInitiatorWithCache snow keys fp rx).map (·, .new freshCacheEntries)

/-- `new_responder` -/
def newResponder (snow : Snow S T) (keys : IdentityKeys) (fp : Fingerprint)
    (rx : X25519PublicKey) : SecurityResult (NoiseHandshake S × NonceCache) :=
  (newResponderWithCache snow keys fp rx).map (·, .new freshCacheEntries)

/-- `verify_identity_payload`, with the handshake's cache and one reading of
each clock. -/
def verifyWith (crypto : Crypto) (h : NoiseHandshake S) (cache : NonceCache) (utc : UtcReading)
    (instant : Instant) (payload : List UInt8) :
    Effect.Run (Node Unit) Empty SecurityError Empty VerifiedIdentity :=
  h.verifyIdentityPayload crypto (.stopped utc instant) payload ⟨cache, ()⟩

end NoiseHandshake

/-- A payload that was accepted: by which handshake, and when. -/
structure Acceptance where
  handshake : Nat
  instant : Instant
  payload : List UInt8

/-- The handshakes of a process by number, each with its cache, and what they
have accepted. -/
structure Handshakes (S : Type) where
  held : List (NoiseHandshake S × NonceCache)
  accepted : List Acceptance

inductive HandshakeEvent where
  | newInitiator (keys : IdentityKeys) (fp : Fingerprint) (rx : X25519PublicKey)
  | newResponder (keys : IdentityKeys) (fp : Fingerprint) (rx : X25519PublicKey)
  /-- A handshake is given a payload to verify. -/
  | verify (handshake : Nat) (utc : UtcReading) (instant : Instant) (payload : List UInt8)

namespace Handshakes

/-- A process that has constructed no handshake. -/
def start : Handshakes S := ⟨[], []⟩

def hold (s : Handshakes S) : SecurityResult (NoiseHandshake S × NonceCache) → Handshakes S
  | .ok constructed => { s with held := s.held ++ [constructed] }
  | .error _ => s

def step (crypto : Crypto) (snow : Snow S T) (s : Handshakes S) : HandshakeEvent → Handshakes S
  | .newInitiator keys fp rx => s.hold (NoiseHandshake.newInitiator snow keys fp rx)
  | .newResponder keys fp rx => s.hold (NoiseHandshake.newResponder snow keys fp rx)
  | .verify i utc instant payload =>
      match s.held[i]? with
      | none => s
      | some (h, cache) =>
          let r := h.verifyWith crypto cache utc instant payload
          { held := s.held.set i (h, r.world.nonceCache)
            accepted := match r.outcome with
              | .ok _ => ⟨i, instant, payload⟩ :: s.accepted
              | _ => s.accepted }

/-- A handshake constructed before has accepted the payload, not longer ago
than a nonce is remembered. -/
def AcceptedEarlier (s : Handshakes S) (i : Nat) (instant : Instant) (payload : List UInt8) :
    Prop :=
  ∃ a ∈ s.accepted, a.handshake < i ∧ a.payload = payload ∧ instant - a.instant ≤ nonceCacheTtl

/-- A handshake that is given such a payload detects the replay. -/
def RejectsReplay (crypto : Crypto) (s : Handshakes S) (e : HandshakeEvent) : Prop :=
  ∀ i utc instant payload h cache, e = .verify i utc instant payload →
    s.held[i]? = some (h, cache) → s.AcceptedEarlier i instant payload →
      ∃ why, (h.verifyWith crypto cache utc instant payload).outcome = .err (.replayDetected why)

/-- The handshake can tell by itself: its clock is off the payload's timestamp,
or it expects the payload's sender and its own cache has the nonce. -/
def TellsAlone (crypto : Crypto) (s : Handshakes S) (e : HandshakeEvent) : Prop :=
  ∀ i utc instant payload h cache, e = .verify i utc instant payload →
    s.held[i]? = some (h, cache) → s.AcceptedEarlier i instant payload →
      ∀ p, IdentityBindPayload.fromBytes payload = .ok p →
        p.OutOfWindow (unixSeconds utc.time) ∨
          (h.remoteFingerprint = some (deriveFingerprint crypto p.ed25519Public p.x25519Public) ∧
            nonceKey crypto p ∈ cache.remembered instant)

/-! ## One verification -/

section
variable {crypto : Crypto} {h : NoiseHandshake S} {cache : NonceCache} {utc : UtcReading}
  {instant : Instant} {payload : List UInt8} {p : IdentityBindPayload}

/-- How the verification of a signed payload ends in a detected replay. -/
theorem replayDetected_iff (hp : IdentityBindPayload.fromBytes payload = .ok p)
    (hsigned : p.WellSigned crypto) {fp : Fingerprint} (hfp : h.remoteFingerprint = some fp) :
    (∃ why, (h.verifyWith crypto cache utc instant payload).outcome
        = .err (.replayDetected why)) ↔
      p.OutOfWindow (unixSeconds utc.time) ∨
        (h.remoteFingerprint = some (deriveFingerprint crypto p.ed25519Public p.x25519Public) ∧
          nonceKey crypto p ∈ cache.remembered instant) := by
  rw [NoiseHandshake.verifyWith, NoiseHandshake.verifyIdentityPayload_run hp hfp, hfp,
    IdentityBindPayload.OutOfWindow, utc.toInt_unixSeconds]
  simp only [Clock.stopped]
  rw [IdentityBindPayload.verify, hsigned.verify_at utc]
  by_cases hfuture : utc.time.timestamp + timestampSkewSecs < p.timestamp.toInt
  · rw [if_pos hfuture]
    exact iff_of_true ⟨_, rfl⟩ (.inl (.inl hfuture))
  · rw [if_neg hfuture]
    by_cases hpast : p.timestamp.toInt < utc.time.timestamp - timestampSkewSecs
    · rw [if_pos hpast]
      exact iff_of_true ⟨_, rfl⟩ (.inl (.inr hpast))
    · rw [if_neg hpast, or_iff_right (fun h => h.elim hfuture hpast), Option.some.injEq]
      dsimp only
      by_cases hexpected : deriveFingerprint crypto p.ed25519Public p.x25519Public = fp
      · -- the nonce decides
        rw [if_neg (not_not.mpr hexpected), and_iff_right hexpected.symm,
          ← NonceCache.checkAndInsert_refuses, nonceKey]
        dsimp only
        rcases cache.checkAndInsert instant
          (deriveFingerprint crypto p.ed25519Public p.x25519Public, p.nonce) with ⟨inserted, cache'⟩
        cases inserted with
        | true =>
            refine iff_of_false ?_ Bool.true_eq_false.mp
            rintro ⟨why, h⟩
            cases h
        | false => exact iff_of_true ⟨_, rfl⟩ rfl
      · rw [if_pos hexpected]
        refine iff_of_false ?_ fun h => hexpected h.1.symm
        rintro ⟨why, h⟩
        cases h

/-- An accepted payload parses and is signed, whatever the time. -/
theorem accepted_signed {v : VerifiedIdentity} {fp : Fingerprint}
    (hfp : h.remoteFingerprint = some fp)
    (haccepted : (h.verifyWith crypto cache utc instant payload).outcome = .ok v) :
    ∃ p, IdentityBindPayload.fromBytes payload = .ok p ∧ p.WellSigned crypto := by
  cases hp : IdentityBindPayload.fromBytes payload with
  | error e =>
      rw [NoiseHandshake.verifyWith, NoiseHandshake.verifyIdentityPayload, hp] at haccepted
      cases haccepted
  | ok p =>
      rw [NoiseHandshake.verifyWith, NoiseHandshake.verifyIdentityPayload_run hp hfp] at haccepted
      cases hv : p.verify crypto (unixSeconds utc.time) fp with
      | error e =>
          simp only [Clock.stopped] at haccepted
          rw [hv] at haccepted
          cases haccepted
      | ok v' =>
          obtain ⟨hfresh, -, -⟩ := IdentityBindPayload.verify_ok hv
          exact ⟨p, rfl, (IdentityBindPayload.verifySignatureAndFreshness_ok hfresh).1⟩

end

/-! ## Runs -/

/-- Every handshake expects somebody, and what was accepted is signed. -/
structure Sound (crypto : Crypto) (s : Handshakes S) : Prop where
  expecting : ∀ e ∈ s.held, ∃ fp, e.1.remoteFingerprint = some fp
  signed : ∀ a ∈ s.accepted,
    ∃ p, IdentityBindPayload.fromBytes a.payload = .ok p ∧ p.WellSigned crypto

section
variable {crypto : Crypto} {snow : Snow S T} {s : Handshakes S}

theorem Sound.hold (h : Sound crypto s) {made : SecurityResult (NoiseHandshake S × NonceCache)}
    (hmade : ∀ e, made = .ok e → ∃ fp, e.1.remoteFingerprint = some fp) :
    Sound crypto (s.hold made) := by
  cases made with
  | error e => exact h
  | ok constructed =>
      refine ⟨?_, h.signed⟩
      intro e he
      rcases List.mem_append.mp he with he | he
      · exact h.expecting e he
      · rw [List.mem_singleton.mp he]
        exact hmade constructed rfl

/-- What a constructor returns is what it constructs with a cache, plus a fresh
one. -/
theorem expecting_of_construct (role : Role) {keys : IdentityKeys} {fp : Fingerprint}
    {rx : X25519PublicKey} {e : NoiseHandshake S × NonceCache}
    (h : (construct role snow keys fp rx).map (·, .new freshCacheEntries) = .ok e) :
    ∃ fp, e.1.remoteFingerprint = some fp := by
  cases hc : construct role snow keys fp rx with
  | error err =>
      rw [hc] at h
      cases h
  | ok constructed =>
      rw [hc] at h
      cases h
      exact ⟨fp, construct_ok hc⟩

theorem Sound.step (h : Sound crypto s) (e : HandshakeEvent) :
    Sound crypto (s.step crypto snow e) := by
  cases e with
  | newInitiator keys fp rx => exact h.hold fun e he => expecting_of_construct .initiator he
  | newResponder keys fp rx => exact h.hold fun e he => expecting_of_construct .responder he
  | verify i utc instant payload =>
      rw [Handshakes.step]
      split
      · exact h
      · next hs cache hheld =>
          obtain ⟨fp, hfp⟩ := h.expecting _ (List.mem_of_getElem? hheld)
          constructor
          · intro e he
            rcases List.mem_or_eq_of_mem_set he with he | rfl
            · exact h.expecting e he
            · exact ⟨fp, hfp⟩
          · intro a ha
            dsimp only at ha
            split at ha
            · next v haccepted =>
                rcases List.mem_cons.mp ha with rfl | ha
                · exact accepted_signed hfp haccepted
                · exact h.signed a ha
            · exact h.signed a ha

theorem rejectsReplay_iff (h : Sound crypto s) (e : HandshakeEvent) :
    s.RejectsReplay crypto e ↔ s.TellsAlone crypto e := by
  constructor
  · intro hrejects i utc instant payload hs cache he hheld hearlier p hp
    obtain ⟨fp, hfp⟩ := h.expecting _ (List.mem_of_getElem? hheld)
    obtain ⟨a, ha, -, rfl, -⟩ := id hearlier
    obtain ⟨p', hp', hsigned⟩ := h.signed a ha
    obtain rfl : p' = p := Except.ok.inj (hp'.symm.trans hp)
    exact (replayDetected_iff hp hsigned hfp).mp
      (hrejects i utc instant _ hs cache he hheld hearlier)
  · intro htells i utc instant payload hs cache he hheld hearlier
    obtain ⟨fp, hfp⟩ := h.expecting _ (List.mem_of_getElem? hheld)
    obtain ⟨a, ha, -, rfl, -⟩ := id hearlier
    obtain ⟨p, hp, hsigned⟩ := h.signed a ha
    exact (replayDetected_iff hp hsigned hfp).mpr
      (htells i utc instant _ hs cache he hheld hearlier p hp)

end

/-- In a process, a payload that an earlier handshake accepted is detected as a
replay exactly where the handshake that is given it can tell by itself. -/
theorem replays_rejected_iff (crypto : Crypto) (snow : Snow S T) (events : List HandshakeEvent) :
    Guarded (step crypto snow) (RejectsReplay crypto) events start ↔
      Guarded (step crypto snow) (TellsAlone crypto) events start := by
  have hsound : Always (step crypto snow) (Sound crypto) events start :=
    always_of_invariant ⟨by simp [start], by simp [start]⟩ (fun _ e h => h.step e) events
  constructor
  · intro h before e hbefore
    have hs := hsound before ((List.prefix_append _ _).trans hbefore)
    exact (rejectsReplay_iff hs e).mp (h before e hbefore)
  · intro h before e hbefore
    have hs := hsound before ((List.prefix_append _ _).trans hbefore)
    exact (rejectsReplay_iff hs e).mpr (h before e hbefore)

section
open Idealized

/-- Alice's handshake with Bob. -/
def aliceToBob : NoiseHandshake Idealized.Session where
  state := ⟨(Vector.zipWith (· ^^^ ·) alice.x25519.secret bob.x25519.pub).toList, 0⟩
  ourIdentity := alice
  remoteFingerprint := some (fingerprintOf bob)
  verifiedRemote := none

/-- What she takes from his payload. -/
def verifiedBob : VerifiedIdentity where
  ed25519Public := bob.ed25519.pub
  x25519Public := bob.x25519.pub
  fingerprint := fingerprintOf bob
  timestamp := 0
  nonce := Vector.replicate 12 7

def bobAt (handshake : Nat) (s : UInt8) : HandshakeEvent :=
  .verify handshake (second s) (second s).time (payloadOf bob 0)

/-- Alice constructs two handshakes with Bob, and his payload from the first is
given to the second a second later. -/
def reconnected : List HandshakeEvent :=
  [.newInitiator alice (fingerprintOf bob) bob.x25519.pub,
    .newInitiator alice (fingerprintOf bob) bob.x25519.pub, bobAt 0 0, bobAt 1 1]

theorem replayed_to_second :
    ¬ Guarded (step crypto snow) (RejectsReplay crypto) reconnected start := by
  intro h
  have hfirst : (aliceToBob.verifyWith crypto (.new freshCacheEntries) (second 0) (second 0).time
      (payloadOf bob 0)).outcome = .ok verifiedBob := by decide +kernel
  have hsecond : (aliceToBob.verifyWith crypto (.new freshCacheEntries) (second 1) (second 1).time
      (payloadOf bob 0)).outcome = .ok verifiedBob := by decide +kernel
  have haccepted : (run (step crypto snow) (reconnected.take 3) start).accepted
      = [⟨0, (second 0).time, payloadOf bob 0⟩] := by
    show (match (aliceToBob.verifyWith crypto (.new freshCacheEntries) (second 0) (second 0).time
        (payloadOf bob 0)).outcome with
      | .ok _ => [(⟨0, (second 0).time, payloadOf bob 0⟩ : Acceptance)]
      | _ => []) = _
    rw [hfirst]
  have hearlier : (run (step crypto snow) (reconnected.take 3) start).AcceptedEarlier 1
      (second 1).time (payloadOf bob 0) := by
    refine ⟨⟨0, (second 0).time, payloadOf bob 0⟩, ?_, by decide, rfl, by decide⟩
    rw [haccepted]
    exact List.mem_cons_self
  obtain ⟨why, hwhy⟩ := h (reconnected.take 3) (bobAt 1 1) List.prefix_rfl 1 (second 1)
    (second 1).time (payloadOf bob 0) aliceToBob (.new freshCacheEntries) rfl rfl hearlier
  rw [hsecond] at hwhy
  cases hwhy

end

end Handshakes
end Rubix.Security
