/-
# `Rubix.Networking.Listener` — every step from a datagram to a peer

`verify` and `process_beacon` again, with the operations in them that could
panic: two sums on `u64`, one of them on a timestamp that the sender chose, and
the copies into fixed arrays.  The order of the checks is what they rely on:

    timestamp ≤ now + 60      checked first
    timestamp + 60            does not overflow then, for now < 2^64 - 120
    length checks             before each copy

So no datagram makes the listener panic, and a peer that it reports is one
whose keys, fingerprint and signature have been verified
(`listener_authenticated`).
-/
import Rubix.Domain.FingerprintText
import Rubix.Lib.Effect
import Rubix.Networking.UdpDiscovery

namespace Rubix.Networking

open Checked (Stop Steps NoPanic addU64 copyFromSlice orPanic okOr refuseIf)
open Security (Crypto X25519PublicKey deriveFingerprint)

/-- `from_bytes` of a key, or a signature: the length check and the copy. -/
def arrayFromBytes (n : Nat) (e : String) (bytes : List UInt8) : Steps String (Vector UInt8 n) := do
  refuseIf (bytes.length ≠ n) e
  orPanic (copyFromSlice n bytes)

/-- `Fingerprint::from_hex(..).map_err(|_| e)?` -/
def fingerprintFromHex (e : String) (hex : String) : Steps String Fingerprint := do
  let parsed ← orPanic (Fingerprint.fromHexSteps hex)
  okOr e parsed.toOption

namespace DiscoveryBeacon

/-- `BEACON_MAX_AGE_SECS` -/
def maxAge : UInt64 := 60

/-- `DiscoveryBeacon::verify`, at a reading of the clock. -/
def verifySteps (crypto : Crypto) (b : DiscoveryBeacon) (now : UInt64) : Steps String Unit := do
  let latest ← orPanic (addU64 now maxAge)
  refuseIf (latest < b.timestamp) "beacon timestamp in future"
  let stale ← orPanic (addU64 b.timestamp maxAge)
  refuseIf (stale < now) "beacon too old"
  let ed25519Bytes ← okOr "invalid ed25519 hex" (Hex.decode b.ed25519Public.toList)
  let x25519Bytes ← okOr "invalid x25519 hex" (Hex.decode b.x25519Public.toList)
  let ed25519 ← arrayFromBytes 32 "invalid ed25519 key" ed25519Bytes
  let x25519 ← arrayFromBytes 32 "invalid x25519 key" x25519Bytes
  let claimed ← fingerprintFromHex "invalid fingerprint" b.fingerprint
  refuseIf (deriveFingerprint crypto ed25519 x25519 ≠ claimed) "fingerprint mismatch"
  let sigBytes ← okOr "invalid signature hex" (Hex.decode b.signature.toList)
  let signature ← arrayFromBytes 64 "invalid signature length" sigBytes
  refuseIf (crypto.ed25519Verify ed25519 b.signaturePayload signature = false)
    "signature verification failed"

/-- `hex::decode(&beacon.x25519_public).ok().and_then(..)` -/
def x25519Steps (b : DiscoveryBeacon) : Except Checked.Panic (Option X25519PublicKey) :=
  match Hex.decode b.x25519Public.toList with
  | none => .ok none
  | some v => if v.length = 32 then (copyFromSlice 32 v).map some else .ok none

end DiscoveryBeacon

namespace UdpListener

/-- `process_beacon`; the parameters are those of `processBeacon`. -/
def processSteps (crypto : Crypto) (fromSlice : List UInt8 → Option DiscoveryBeacon)
    (sourceIp : Option String) (data : List UInt8) (now : UInt64) (utc : DateTime) :
    Except Checked.Panic (Option PeerInfo) :=
  match fromSlice data with
  | none => .ok none
  | some beacon =>
      match beacon.verifySteps crypto now with
      | .error (.panic p) => .error p
      | .error (.err _) => .ok none
      | .ok () =>
          match Fingerprint.fromHexSteps beacon.fingerprint with
          | .error p => .error p
          | .ok (.error _) => .ok none
          | .ok (.ok fingerprint) =>
              beacon.x25519Steps.map fun x25519Public => some
                { fingerprint
                  displayName := beacon.displayName
                  ipAddress := sourceIp.getD "0.0.0.0"
                  tcpPort := beacon.tcpPort.toNat
                  x25519Public
                  lastSeen := utc }

end UdpListener

/-! ## The fallible steps -/

variable {n : Nat} {e : String} {bytes : List UInt8}

theorem arrayFromBytes_eq_ok {v : Vector UInt8 n} (h : arrayFromBytes n e bytes = .ok v) :
    bytes = v.toList := by
  obtain ⟨_, hlen, hcopy⟩ := Effect.bind_eq_ok.mp h
  have hlength : bytes.length = n := Decidable.not_not.mp (Checked.refuseIf_eq_ok.mp hlen)
  rw [Checked.orPanic_eq_ok, Checked.copyFromSlice_of_length hlength] at hcopy
  cases Except.ok.inj hcopy
  exact (Fingerprint.toList_ofFn_getD hlength).symm

theorem arrayFromBytes_noPanic : NoPanic (arrayFromBytes n e bytes) := by
  refine (NoPanic.refuseIf _ _).bind ?_
  intro _ hlen
  have hlength : bytes.length = n := Decidable.not_not.mp (Checked.refuseIf_eq_ok.mp hlen)
  exact NoPanic.orPanic (Checked.copyFromSlice_of_length hlength)

theorem fingerprintFromHex_eq_ok {hex : String} {fp : Fingerprint}
    (h : fingerprintFromHex e hex = .ok fp) : Fingerprint.fromHex hex = .ok fp := by
  obtain ⟨parsed, hparsed, hfp⟩ := Effect.bind_eq_ok.mp h
  rw [Checked.orPanic_eq_ok, Fingerprint.fromHexSteps_eq] at hparsed
  rw [Checked.okOr_eq_ok, ← Except.ok.inj hparsed] at hfp
  cases hread : Fingerprint.fromHex hex with
  | ok fp' =>
      rw [hread] at hfp
      rw [Option.some.inj hfp]
  | error e =>
      rw [hread] at hfp
      exact nomatch hfp

theorem fingerprintFromHex_noPanic (hex : String) : NoPanic (fingerprintFromHex e hex) := by
  refine (NoPanic.orPanic (Fingerprint.fromHexSteps_eq hex)).bind ?_
  intro parsed _
  exact NoPanic.okOr _ _

namespace DiscoveryBeacon

variable {crypto : Crypto} {b : DiscoveryBeacon} {now : UInt64}

/-- What a verified beacon is: fresh, and signed by the owner of its keys. -/
structure Authentic (crypto : Crypto) (b : DiscoveryBeacon) (now : UInt64)
    (ed : Security.Ed25519PublicKey) (x : X25519PublicKey) : Prop where
  notFuture : b.timestamp.toNat ≤ now.toNat + 60
  notOld : now.toNat ≤ b.timestamp.toNat + 60
  ed25519 : Hex.decode b.ed25519Public.toList = some ed.toList
  x25519 : Hex.decode b.x25519Public.toList = some x.toList
  fingerprint : Fingerprint.fromHex b.fingerprint = .ok (deriveFingerprint crypto ed x)
  signed : ∃ signature : Security.Ed25519Signature,
    Hex.decode b.signature.toList = some signature.toList ∧
      crypto.ed25519Verify ed b.signaturePayload signature = true

theorem of_addU64 {a sum : UInt64} (h : addU64 a maxAge = .ok sum) : sum.toNat = a.toNat + 60 := by
  rw [addU64] at h
  split at h
  · next hsmall =>
      cases Except.ok.inj h
      rw [UInt64.toNat_add]
      exact Nat.mod_eq_of_lt hsmall
  · exact nomatch h

theorem verifySteps_ok (h : b.verifySteps crypto now = .ok ()) :
    ∃ ed x, Authentic crypto b now ed x := by
  obtain ⟨latest, hlatest, h⟩ := Effect.bind_eq_ok.mp h
  obtain ⟨_, hfuture, h⟩ := Effect.bind_eq_ok.mp h
  obtain ⟨stale, hstale, h⟩ := Effect.bind_eq_ok.mp h
  obtain ⟨_, hold, h⟩ := Effect.bind_eq_ok.mp h
  obtain ⟨edBytes, hedBytes, h⟩ := Effect.bind_eq_ok.mp h
  obtain ⟨xBytes, hxBytes, h⟩ := Effect.bind_eq_ok.mp h
  obtain ⟨ed, hed, h⟩ := Effect.bind_eq_ok.mp h
  obtain ⟨x, hx, h⟩ := Effect.bind_eq_ok.mp h
  obtain ⟨claimed, hclaimed, h⟩ := Effect.bind_eq_ok.mp h
  obtain ⟨_, hmatch, h⟩ := Effect.bind_eq_ok.mp h
  obtain ⟨sigBytes, hsigBytes, h⟩ := Effect.bind_eq_ok.mp h
  obtain ⟨signature, hsignature, hverify⟩ := Effect.bind_eq_ok.mp h
  have hlatest' := of_addU64 (Checked.orPanic_eq_ok.mp hlatest)
  have hstale' := of_addU64 (Checked.orPanic_eq_ok.mp hstale)
  have hfuture' := Checked.refuseIf_eq_ok.mp hfuture
  have hold' := Checked.refuseIf_eq_ok.mp hold
  rw [UInt64.lt_iff_toNat_lt] at hfuture' hold'
  have hderived : deriveFingerprint crypto ed x = claimed :=
    Decidable.not_not.mp (Checked.refuseIf_eq_ok.mp hmatch)
  refine ⟨ed, x, ?_, ?_, ?_, ?_, ?_, signature, ?_, ?_⟩
  · omega
  · omega
  · rw [← arrayFromBytes_eq_ok hed]
    exact Checked.okOr_eq_ok.mp hedBytes
  · rw [← arrayFromBytes_eq_ok hx]
    exact Checked.okOr_eq_ok.mp hxBytes
  · rw [hderived]
    exact fingerprintFromHex_eq_ok hclaimed
  · rw [← arrayFromBytes_eq_ok hsignature]
    exact Checked.okOr_eq_ok.mp hsigBytes
  · exact Bool.eq_true_of_not_eq_false (Checked.refuseIf_eq_ok.mp hverify)

/-- The second sum is on a timestamp that the first check has bounded. -/
theorem verifySteps_noPanic (hnow : now.toNat < 18446744073709551616 - 120) :
    NoPanic (b.verifySteps crypto now) := by
  have hsixty : maxAge.toNat = 60 := rfl
  obtain ⟨latest, hlatest, hsum⟩ : ∃ sum, addU64 now maxAge = .ok sum ∧
      sum.toNat = now.toNat + maxAge.toNat := Checked.addU64_of_lt (by omega)
  refine (NoPanic.orPanic hlatest).bind ?_
  intro latest' hlatest'
  rw [hlatest] at hlatest'
  cases Checked.orPanic_eq_ok.mp hlatest'
  refine (NoPanic.refuseIf _ _).bind ?_
  intro _ hfuture
  have hbounded : b.timestamp.toNat ≤ now.toNat + 60 := by
    have hle := Checked.refuseIf_eq_ok.mp hfuture
    rw [UInt64.lt_iff_toNat_lt] at hle
    omega
  obtain ⟨stale, hstale, -⟩ : ∃ sum, addU64 b.timestamp maxAge = .ok sum ∧
      sum.toNat = b.timestamp.toNat + maxAge.toNat := Checked.addU64_of_lt (by omega)
  refine (NoPanic.orPanic hstale).bind fun _ _ => ?_
  -- the rest only copies, after checks of the lengths
  refine (NoPanic.refuseIf _ _).bind fun _ _ => ?_
  refine (NoPanic.okOr _ _).bind fun _ _ => ?_
  refine (NoPanic.okOr _ _).bind fun _ _ => ?_
  refine arrayFromBytes_noPanic.bind fun _ _ => ?_
  refine arrayFromBytes_noPanic.bind fun _ _ => ?_
  refine (fingerprintFromHex_noPanic _).bind fun _ _ => ?_
  refine (NoPanic.refuseIf _ _).bind fun _ _ => ?_
  refine (NoPanic.okOr _ _).bind fun _ _ => ?_
  refine arrayFromBytes_noPanic.bind fun _ _ => ?_
  exact NoPanic.refuseIf _ _

theorem x25519Steps_of_decode {x : X25519PublicKey}
    (h : Hex.decode b.x25519Public.toList = some x.toList) : b.x25519Steps = .ok (some x) := by
  have hx : (Vector.ofFn fun i : Fin 32 => x.toList.getD i 0) = x :=
    Vector.toList_inj.mp (Fingerprint.toList_ofFn_getD x.length_toList)
  rw [x25519Steps, h]
  simp only [x.length_toList, if_true, Checked.copyFromSlice_of_length x.length_toList, hx]
  rfl

/-- Neither of the two fallbacks behind `verify` is taken. -/
theorem Authentic.fallbacks {ed : Security.Ed25519PublicKey} {x : X25519PublicKey}
    (h : Authentic crypto b now ed x) :
    Fingerprint.fromHexSteps b.fingerprint = .ok (.ok (deriveFingerprint crypto ed x)) ∧
      b.x25519Steps = .ok (some x) := by
  rw [Fingerprint.fromHexSteps_eq, h.fingerprint]
  exact ⟨rfl, x25519Steps_of_decode h.x25519⟩

end DiscoveryBeacon

open DiscoveryBeacon (Authentic)

/-- What the listener makes of a beacon, by how its verification ends. -/
theorem UdpListener.processSteps_eq {crypto : Crypto}
    {fromSlice : List UInt8 → Option DiscoveryBeacon} {data : List UInt8} {b : DiscoveryBeacon}
    {now : UInt64} (hb : fromSlice data = some b)
    (hnow : now.toNat < 18446744073709551616 - 120) (sourceIp : Option String) (utc : DateTime) :
    processSteps crypto fromSlice sourceIp data now utc = .ok none ∨
      ∃ ed x, Authentic crypto b now ed x ∧
        processSteps crypto fromSlice sourceIp data now utc = .ok (some
          { fingerprint := deriveFingerprint crypto ed x
            displayName := b.displayName
            ipAddress := sourceIp.getD "0.0.0.0"
            tcpPort := b.tcpPort.toNat
            x25519Public := some x
            lastSeen := utc }) := by
  cases hverify : b.verifySteps crypto now with
  | error stop =>
      cases stop with
      | panic p => exact absurd hverify (DiscoveryBeacon.verifySteps_noPanic hnow p)
      | err e =>
          left
          simp only [processSteps, hb, hverify]
  | ok u =>
      obtain ⟨ed, x, hauthentic⟩ := DiscoveryBeacon.verifySteps_ok hverify
      obtain ⟨hfp, hx⟩ := hauthentic.fallbacks
      refine .inr ⟨ed, x, hauthentic, ?_⟩
      simp only [processSteps, hb, hverify, hfp, hx]
      rfl

/-! ## Without the panics -/

namespace DiscoveryBeacon

theorem okOr_eq {α : Type} (e : String) (o : Option α) :
    okOr e o = (orErr o e).mapError Stop.err := by
  cases o with
  | none => rfl
  | some a => rfl

theorem copyFromSlice_eq_field {n : Nat} {bytes : List UInt8} (h : bytes.length = n) :
    copyFromSlice n bytes = .ok (Security.IdentityBindPayload.field n 0 bytes) := by
  rw [Checked.copyFromSlice_of_length h]
  simp only [Security.IdentityBindPayload.field, Nat.zero_add]

theorem arrayFromBytes_eq (n : Nat) (e : String) (bytes : List UInt8) :
    arrayFromBytes n e bytes = (orErr (arrayFromSlice n bytes) e).mapError Stop.err := by
  rw [arrayFromBytes, Checked.refuseIf_bind, arrayFromSlice]
  by_cases hlen : bytes.length = n
  · rw [if_neg (not_not_intro hlen), if_pos hlen, copyFromSlice_eq_field hlen]
    rfl
  · rw [if_pos hlen, if_neg hlen]
    rfl

theorem fingerprintFromHex_eq (e hex : String) :
    fingerprintFromHex e hex
      = (orErr (Fingerprint.fromHex hex).toOption e).mapError Stop.err := by
  rw [fingerprintFromHex, Fingerprint.fromHexSteps_eq, ← okOr_eq]
  rfl

theorem refuseIf_false_eq (v : Bool) (e : String) :
    (refuseIf (v = false) e : Steps String Unit)
      = (if v = true then .ok () else .error e : Except String Unit).mapError Stop.err := by
  cases v with
  | true => rfl
  | false => rfl

theorem mapError_ite (c : Prop) [Decidable c] (x y : Except String Unit) :
    (if c then x else y).mapError (Stop.err : String → Stop String)
      = if c then x.mapError Stop.err else y.mapError Stop.err := apply_ite _ c x y

/-- On a clock of the `i64` range the sums stay in theirs. -/
theorem verifySteps_eq (crypto : Crypto) (b : DiscoveryBeacon) (now : UnixSeconds) :
    b.verifySteps crypto (UInt64.ofNat now.secs) = (b.verify crypto now).mapError Stop.err := by
  have hage : maxAge.toNat = beaconMaxAgeSecs := rfl
  have hsixty : beaconMaxAgeSecs = 60 := rfl
  have hlt := now.lt
  have hsecs : (UInt64.ofNat now.secs).toNat = now.secs := by
    rw [UInt64.toNat_ofNat']
    exact Nat.mod_eq_of_lt (Nat.lt_trans hlt (by decide))
  obtain ⟨latest, hlatest, hsum⟩ : ∃ sum, addU64 (UInt64.ofNat now.secs) maxAge = .ok sum ∧
      sum.toNat = (UInt64.ofNat now.secs).toNat + maxAge.toNat := Checked.addU64_of_lt (by omega)
  rw [verifySteps, verify, Checked.orPanic_bind hlatest, Checked.refuseIf_bind]
  simp only [UInt64.lt_iff_toNat_lt, hsum, hsecs, hage]
  by_cases hfuture : now.secs + beaconMaxAgeSecs < b.timestamp.toNat
  · rw [if_pos hfuture, if_pos hfuture]
    rfl
  · rw [if_neg hfuture, if_neg hfuture]
    obtain ⟨stale, hstale, hsum'⟩ : ∃ sum, addU64 b.timestamp maxAge = .ok sum ∧
        sum.toNat = b.timestamp.toNat + maxAge.toNat := Checked.addU64_of_lt (by omega)
    rw [Checked.orPanic_bind hstale, Checked.refuseIf_bind]
    simp only [hsum', hage]
    by_cases hold : b.timestamp.toNat + beaconMaxAgeSecs < now.secs
    · rw [if_pos hold, if_pos hold]
      rfl
    · rw [if_neg hold, if_neg hold]
      simp only [okOr_eq, arrayFromBytes_eq, fingerprintFromHex_eq, Effect.mapError_bind,
        Checked.refuseIf_bind, refuseIf_false_eq, mapError_ite]
      rfl

theorem x25519Steps_eq (b : DiscoveryBeacon) : b.x25519Steps = .ok b.x25519Key := by
  rw [x25519Steps, x25519Key]
  cases Hex.decode b.x25519Public.toList with
  | none => rfl
  | some v =>
      rw [Option.bind_some, arrayFromSlice]
      dsimp only
      by_cases hlen : v.length = 32
      · rw [if_pos hlen, if_pos hlen, copyFromSlice_eq_field hlen]
        rfl
      · rw [if_neg hlen, if_neg hlen]

end DiscoveryBeacon

/-- There the steps come to what `processBeacon` returns. -/
theorem UdpListener.processSteps_eq_processBeacon (crypto : Crypto)
    (fromSlice : List UInt8 → Option DiscoveryBeacon) (sourceIp : Option String)
    (data : List UInt8) (now : UnixSeconds) (utc : DateTime) :
    processSteps crypto fromSlice sourceIp data (UInt64.ofNat now.secs) utc
      = .ok (processBeacon crypto fromSlice sourceIp data now utc) := by
  rw [processSteps, processBeacon]
  cases fromSlice data with
  | none => rfl
  | some b =>
      simp only [DiscoveryBeacon.verifySteps_eq, Fingerprint.fromHexSteps_eq,
        DiscoveryBeacon.x25519Steps_eq]
      cases b.verify crypto now with
      | error e => rfl
      | ok u =>
          dsimp only [Except.mapError]
          cases Fingerprint.fromHex b.fingerprint with
          | error e => rfl
          | ok fp => rfl

/-! ## What is reported -/

/-- Whatever the datagram, no step panics, and a peer that is reported has
verified: its beacon is fresh, the keys hash to the fingerprint, and the
signature over all of the beacon's fields is the key's. -/
theorem listener_authenticated {now : UInt64} (hnow : now.toNat < 18446744073709551616 - 120)
    (crypto : Crypto) (fromSlice : List UInt8 → Option DiscoveryBeacon)
    (sourceIp : Option String) (data : List UInt8) (utc : DateTime) :
    (∃ r, UdpListener.processSteps crypto fromSlice sourceIp data now utc = .ok r) ∧
      (∀ p, UdpListener.processSteps crypto fromSlice sourceIp data now utc = .ok (some p) →
        ∃ b ed x, fromSlice data = some b ∧ Authentic crypto b now ed x ∧
          p.x25519Public = some x ∧ p.fingerprint = deriveFingerprint crypto ed x ∧
          p.displayName = b.displayName ∧ p.tcpPort = b.tcpPort.toNat) ∧
      (∀ b, fromSlice data = some b → b.verifySteps crypto now = .ok () →
        ∃ fp x, Fingerprint.fromHexSteps b.fingerprint = .ok (.ok fp) ∧
          b.x25519Steps = .ok (some x)) := by
  refine ⟨?_, ?_, ?_⟩
  · cases hb : fromSlice data with
    | none => exact ⟨none, by simp only [UdpListener.processSteps, hb]⟩
    | some b =>
        rcases UdpListener.processSteps_eq hb hnow sourceIp utc with hnone | ⟨_, _, -, hsome⟩
        · exact ⟨_, hnone⟩
        · exact ⟨_, hsome⟩
  · intro p hp
    cases hb : fromSlice data with
    | none =>
        simp only [UdpListener.processSteps, hb] at hp
        exact nomatch Except.ok.inj hp
    | some b =>
        rcases UdpListener.processSteps_eq hb hnow sourceIp utc with
          hnone | ⟨ed, x, hauthentic, hsome⟩
        · exact nomatch Except.ok.inj (hp.symm.trans hnone)
        · have hpeer := Option.some.inj (Except.ok.inj (hp.symm.trans hsome))
          subst hpeer
          exact ⟨b, ed, x, rfl, hauthentic, rfl, rfl, rfl, rfl⟩
  · intro b _ hverify
    obtain ⟨ed, x, hauthentic⟩ := DiscoveryBeacon.verifySteps_ok hverify
    exact ⟨_, x, hauthentic.fallbacks⟩

section
open Security.Idealized

/-- Alice's beacon is reported, and what is reported of it is hers. -/
theorem sample_authenticated :
    ∃ p, UdpListener.processSteps crypto DiscoveryBeacon.readSample none
        DiscoveryBeacon.sample.toBytes (UInt64.ofNat DiscoveryBeacon.instant.secs) 0
          = .ok (some p) ∧
      ∃ b ed x, DiscoveryBeacon.readSample DiscoveryBeacon.sample.toBytes = some b ∧
        Authentic crypto b (UInt64.ofNat DiscoveryBeacon.instant.secs) ed x ∧
          p.x25519Public = some x ∧ p.fingerprint = deriveFingerprint crypto ed x ∧
          p.displayName = b.displayName ∧ p.tcpPort = b.tcpPort.toNat := by
  have hnow : (UInt64.ofNat DiscoveryBeacon.instant.secs).toNat < 18446744073709551616 - 120 := by
    decide
  have hread : DiscoveryBeacon.readSample DiscoveryBeacon.sample.toBytes
      = some DiscoveryBeacon.sample := if_pos rfl
  have hreported := UdpListener.processSteps_eq_processBeacon crypto DiscoveryBeacon.readSample none
    DiscoveryBeacon.sample.toBytes DiscoveryBeacon.instant 0
  have hpeer := DiscoveryBeacon.processBeacon_create signs_alice hread 0 none
    (Nat.le_add_right _ 60) (Nat.le_add_right _ 60)
  have hsteps := hreported.trans (congrArg _ hpeer)
  exact ⟨_, hsteps, (listener_authenticated hnow crypto DiscoveryBeacon.readSample none
    DiscoveryBeacon.sample.toBytes 0).2.1 _ hsteps⟩

end

end Rubix.Networking
