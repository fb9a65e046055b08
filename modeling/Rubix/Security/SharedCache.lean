/-
# `Rubix.Security.SharedCache` — refused payloads on a shared nonce cache

Any number of handshakes share one cache, and each may be given any bytes at
any time.  A payload goes through the checks of its own first

    parse → expected fingerprint → version, timestamp, signature → fingerprint

and comes to the cache only if it passes all of them (`Passes`).  Whatever ends
before that leaves the cache alone; a duplicate leaves it without the pairs
that have expired (`OnlyExpiredGone`).  So every pair in the cache is one that
an earlier call returned (`accepted_of_mem`), and nobody without the sender's
key can have a payload refused as a replay (`rejected_burns_nothing`).
-/
import Mathlib.Logic.Function.Basic
import Rubix.Security.PerHandshake

namespace Rubix.Security

open Effect (Outcome)
open Runs

variable {S : Type}

/-- How `verify_identity_payload` ends on a nonce the cache has. -/
def duplicateNonce : SecurityError := .replayDetected "duplicate nonce"

/-- Handshakes by number, and the cache they share. -/
structure SharedCache (S : Type) where
  nonceCache : NonceCache
  handshakes : Nat → NoiseHandshake S

/-- A call of `verify_identity_payload`: on which handshake, with which bytes,
and what the clocks read. -/
structure PayloadCall where
  handshake : Nat
  utc : UtcReading
  instant : Instant
  payload : List UInt8

namespace NonceCache

/-- No pair is new, and those that are gone had expired. -/
structure OnlyExpiredGone (now : Instant) (c c' : NonceCache) : Prop where
  subset : c'.inner ⊆ c.inner
  gone : ∀ key ∈ c.inner, key ∉ c'.inner → ∃ t, (key, t) ∈ c.order ∧ expired t now = true

theorem OnlyExpiredGone.refl (now : Instant) (c : NonceCache) : OnlyExpiredGone now c c where
  subset := Finset.Subset.refl _
  gone _ hkey hgone := absurd hkey hgone

/-- Only a pair that has expired is evicted from the front. -/
theorem expired_of_evicted {now : Instant} {order : List (NonceKey × Instant)}
    {inner : Finset NonceKey} {key : NonceKey} (hkey : key ∈ inner)
    (hgone : key ∉ (evictExpired now inner order).1) :
    ∃ t, (key, t) ∈ order ∧ expired t now = true := by
  induction order generalizing inner with
  | nil => exact absurd hkey hgone
  | cons e rest ih =>
      obtain ⟨k, t⟩ := e
      rw [evictExpired] at hgone
      split at hgone
      · next ht =>
          by_cases hk : key = k
          · exact ⟨t, hk ▸ List.mem_cons_self, ht⟩
          · obtain ⟨t', hmem, ht'⟩ := ih (Finset.mem_erase.mpr ⟨hk, hkey⟩) hgone
            exact ⟨t', List.mem_cons_of_mem _ hmem, ht'⟩
      · exact absurd hkey hgone

/-- A refused insertion evicts what has expired, and does nothing else. -/
theorem onlyExpiredGone_of_refused {c : NonceCache} {now : Instant} {key : NonceKey}
    (h : (c.checkAndInsert now key).1 = false) :
    OnlyExpiredGone now c (c.checkAndInsert now key).2 := by
  have hkey : key ∈ (evictExpired now c.inner c.order).1 := checkAndInsert_refuses.mp h
  have hinner : (c.checkAndInsert now key).2.inner = (evictExpired now c.inner c.order).1 := by
    simp only [checkAndInsert, if_pos hkey]
  constructor
  · rw [hinner]
    exact evictExpired_subset now _ _
  · intro k hk hgone
    rw [hinner] at hgone
    exact expired_of_evicted hk hgone

end NonceCache

/-! ## One verification -/

namespace NoiseHandshake

/-- The payload passes every check in front of the cache, as `v`. -/
def Passes (crypto : Crypto) (h : NoiseHandshake S) (utc : UtcReading) (payload : List UInt8)
    (v : VerifiedIdentity) : Prop :=
  ∃ p fp, IdentityBindPayload.fromBytes payload = .ok p ∧ h.remoteFingerprint = some fp ∧
    p.verify crypto (unixSeconds utc.time) fp = .ok v

end NoiseHandshake

/-- The errors of the payload's own checks have other texts. -/
theorem IdentityBindPayload.verify_ne_duplicate (crypto : Crypto) (p : IdentityBindPayload)
    (now : Int64) (fp : Fingerprint) : p.verify crypto now fp ≠ .error duplicateNonce := by
  intro h
  rw [verify, verifySignatureAndFreshness, duplicateNonce] at h
  split at h
  · next e he =>
      cases h
      revert he
      repeat' split
      all_goals simp
  · split at h
    · cases h
    · cases h

section
variable {crypto : Crypto} {h : NoiseHandshake S} {cache : NonceCache} {utc : UtcReading}
  {instant : Instant} {payload : List UInt8} {v : VerifiedIdentity}

open NoiseHandshake (Passes)

/-- A payload that passes is up to the cache. -/
theorem verifyWith_of_passes (hv : h.Passes crypto utc payload v) :
    (h.verifyWith crypto cache utc instant payload).outcome
        = (if (cache.checkAndInsert instant (v.fingerprint, v.nonce)).1 = true then .ok v
            else .err duplicateNonce) ∧
      (h.verifyWith crypto cache utc instant payload).world.nonceCache
        = (cache.checkAndInsert instant (v.fingerprint, v.nonce)).2 := by
  obtain ⟨p, fp, hp, hfp, hverify⟩ := hv
  rw [NoiseHandshake.verifyWith, NoiseHandshake.verifyIdentityPayload_run hp hfp]
  simp only [Clock.stopped]
  rw [hverify]
  dsimp only
  rcases cache.checkAndInsert instant (v.fingerprint, v.nonce) with ⟨inserted, cache'⟩
  cases inserted with
  | true => exact ⟨rfl, rfl⟩
  | false => exact ⟨rfl, rfl⟩

/-- Any other payload ends before it. -/
theorem verifyWith_of_not_passes (hno : ∀ v, ¬ h.Passes crypto utc payload v) :
    (∃ e, (h.verifyWith crypto cache utc instant payload).outcome = .err e ∧
        e ≠ duplicateNonce) ∧
      (h.verifyWith crypto cache utc instant payload).world.nonceCache = cache := by
  cases hp : IdentityBindPayload.fromBytes payload with
  | error e =>
      rw [NoiseHandshake.verifyWith, NoiseHandshake.verifyIdentityPayload, hp]
      exact ⟨⟨_, rfl, by simp [duplicateNonce]⟩, rfl⟩
  | ok p =>
      cases hfp : h.remoteFingerprint with
      | none =>
          rw [NoiseHandshake.verifyWith, NoiseHandshake.verifyIdentityPayload, hp, hfp]
          exact ⟨⟨_, rfl, by simp [duplicateNonce]⟩, rfl⟩
      | some fp =>
          rw [NoiseHandshake.verifyWith, NoiseHandshake.verifyIdentityPayload_run hp hfp]
          simp only [Clock.stopped]
          cases hverify : p.verify crypto (unixSeconds utc.time) fp with
          | error e =>
              refine ⟨⟨e, rfl, ?_⟩, rfl⟩
              rintro rfl
              exact IdentityBindPayload.verify_ne_duplicate crypto p _ fp hverify
          | ok v => exact absurd ⟨p, fp, hp, hfp, hverify⟩ (hno v)

end

/-! ## Runs -/

namespace SharedCache

variable (crypto : Crypto)

/-- `verify_identity_payload` on one of the handshakes. -/
def verify (s : SharedCache S) (c : PayloadCall) :
    Effect.Run (Node Unit) Empty SecurityError Empty VerifiedIdentity :=
  (s.handshakes c.handshake).verifyWith crypto s.nonceCache c.utc c.instant c.payload

/-- What the call returns. -/
def answer (s : SharedCache S) (c : PayloadCall) : Outcome SecurityError Empty VerifiedIdentity :=
  (s.verify crypto c).outcome

/-- The call, and what both sides of a handshake do with its answer:
`verify_identity_payload(..)?` and then `set_verified_remote(..)`. -/
def step (s : SharedCache S) (c : PayloadCall) : SharedCache S where
  nonceCache := (s.verify crypto c).world.nonceCache
  handshakes :=
    match s.answer crypto c with
    | .ok v => Function.update s.handshakes c.handshake
        ((s.handshakes c.handshake).setVerifiedRemote v)
    | _ => s.handshakes

/-- Some call of the run returned `Ok`, with this fingerprint and nonce. -/
def Accepted (start : SharedCache S) (calls : List PayloadCall) (key : NonceKey) : Prop :=
  ∃ before c v, before ++ [c] <+: calls ∧
    (run (step crypto) before start).answer crypto c = .ok v ∧ (v.fingerprint, v.nonce) = key

variable {crypto} {start s : SharedCache S} {calls : List PayloadCall} {c : PayloadCall}
  {key : NonceKey}

theorem Accepted.later (h : Accepted crypto start calls key) (c : PayloadCall) :
    Accepted crypto start (calls ++ [c]) key := by
  obtain ⟨before, c', v, hbefore, hanswer, hkey⟩ := h
  exact ⟨before, c', v, hbefore.trans (List.prefix_append _ _), hanswer, hkey⟩

/-! ### One step -/

theorem step_of_passes {v : VerifiedIdentity}
    (hv : (s.handshakes c.handshake).Passes crypto c.utc c.payload v) :
    s.answer crypto c
        = (if (s.nonceCache.checkAndInsert c.instant (v.fingerprint, v.nonce)).1 = true then .ok v
            else .err duplicateNonce) ∧
      (s.step crypto c).nonceCache
        = (s.nonceCache.checkAndInsert c.instant (v.fingerprint, v.nonce)).2 :=
  verifyWith_of_passes hv

theorem step_of_not_passes
    (hno : ∀ v, ¬ (s.handshakes c.handshake).Passes crypto c.utc c.payload v) :
    (∃ e, s.answer crypto c = .err e ∧ e ≠ duplicateNonce) ∧
      (s.step crypto c).nonceCache = s.nonceCache :=
  verifyWith_of_not_passes hno

/-- A call that returns an error sets nobody's verified remote. -/
theorem handshakes_of_err {e : SecurityError} (h : s.answer crypto c = .err e) :
    (s.step crypto c).handshakes = s.handshakes := by
  rw [step, h]

/-- Nor does it burn a nonce. -/
theorem onlyExpiredGone_of_err {e : SecurityError} (h : s.answer crypto c = .err e) :
    NonceCache.OnlyExpiredGone c.instant s.nonceCache (s.step crypto c).nonceCache := by
  by_cases hv : ∃ v, (s.handshakes c.handshake).Passes crypto c.utc c.payload v
  · obtain ⟨v, hv⟩ := hv
    obtain ⟨hanswer, hcache⟩ := step_of_passes hv
    rw [hanswer] at h
    split at h
    · cases h
    · next hrefused =>
        rw [hcache]
        exact NonceCache.onlyExpiredGone_of_refused (Bool.eq_false_of_not_eq_true hrefused)
  · rw [(step_of_not_passes (not_exists.mp hv)).2]
    exact NonceCache.OnlyExpiredGone.refl _ _

/-- A pair gets into the cache by being returned. -/
theorem mem_step (h : key ∈ (s.step crypto c).nonceCache.inner) :
    key ∈ s.nonceCache.inner ∨
      ∃ v, s.answer crypto c = .ok v ∧ (v.fingerprint, v.nonce) = key := by
  cases hanswer : s.answer crypto c with
  | err e => exact .inl ((onlyExpiredGone_of_err hanswer).subset h)
  | panic p => exact nomatch p
  | ok v =>
      by_cases hv : ∃ v, (s.handshakes c.handshake).Passes crypto c.utc c.payload v
      · obtain ⟨v', hv'⟩ := hv
        obtain ⟨hanswer', hcache⟩ := step_of_passes hv'
        rw [hanswer] at hanswer'
        split at hanswer'
        · cases hanswer'
          rw [hcache] at h
          rcases Finset.mem_insert.mp (NonceCache.checkAndInsert_subset _ _ _ h) with hkey | hold
          · exact .inr ⟨v, rfl, hkey.symm⟩
          · exact .inl hold
        · cases hanswer'
      · obtain ⟨⟨e, herr, -⟩, -⟩ := step_of_not_passes (not_exists.mp hv)
        cases hanswer.symm.trans herr

/-! ### All steps -/

/-- What is in the cache was accepted. -/
theorem accepted_of_mem {handshakes : Nat → NoiseHandshake S} {maxEntries : Nat}
    (h : key ∈ (run (step crypto) calls ⟨.new maxEntries, handshakes⟩).nonceCache.inner) :
    Accepted crypto ⟨.new maxEntries, handshakes⟩ calls key := by
  induction calls using List.reverseRecOn with
  | nil => exact absurd h (Finset.notMem_empty key)
  | append_singleton calls c ih =>
      rw [run_concat] at h
      rcases mem_step h with hold | ⟨v, hanswer, hkey⟩
      · exact (ih hold).later c
      · exact ⟨calls, c, v, List.prefix_rfl, hanswer, hkey⟩

/-- Refused payloads burn no nonces: whatever a run has been so far, a call that
returns an error costs the cache nothing but expired pairs and changes no
handshake, a duplicate is one of a pair that was returned before, and any other
payload that passes its own checks is accepted. -/
theorem rejected_burns_nothing (crypto : Crypto) (maxEntries : Nat)
    (handshakes : Nat → NoiseHandshake S) (before : List PayloadCall) (c : PayloadCall) :
    let start : SharedCache S := ⟨.new maxEntries, handshakes⟩
    let s := run (step crypto) before start
    (∀ e, s.answer crypto c = .err e →
      NonceCache.OnlyExpiredGone c.instant s.nonceCache (s.step crypto c).nonceCache ∧
        (s.step crypto c).handshakes = s.handshakes) ∧
    (s.answer crypto c = .err duplicateNonce →
      ∃ v, (s.handshakes c.handshake).Passes crypto c.utc c.payload v ∧
        Accepted crypto start before (v.fingerprint, v.nonce)) ∧
    (∀ v, (s.handshakes c.handshake).Passes crypto c.utc c.payload v →
      ¬ Accepted crypto start before (v.fingerprint, v.nonce) → s.answer crypto c = .ok v) := by
  intro start s
  refine ⟨?_, ?_, ?_⟩
  · intro e herr
    exact ⟨onlyExpiredGone_of_err herr, handshakes_of_err herr⟩
  · intro hduplicate
    by_cases hv : ∃ v, (s.handshakes c.handshake).Passes crypto c.utc c.payload v
    · obtain ⟨v, hv⟩ := hv
      have hanswer := (step_of_passes hv).1
      rw [hduplicate] at hanswer
      split at hanswer
      · cases hanswer
      · next hrefused =>
          have hseen : (v.fingerprint, v.nonce) ∈ s.nonceCache.remembered c.instant :=
            NonceCache.checkAndInsert_refuses.mp (Bool.eq_false_of_not_eq_true hrefused)
          exact ⟨v, hv, accepted_of_mem (NonceCache.evictExpired_subset _ _ _ hseen)⟩
    · obtain ⟨⟨e, herr, hne⟩, -⟩ := step_of_not_passes (not_exists.mp hv)
      cases hduplicate.symm.trans herr
      exact absurd rfl hne
  · intro v hv hnew
    have hunseen : (v.fingerprint, v.nonce) ∉ s.nonceCache.inner := fun h => hnew (accepted_of_mem h)
    rw [(step_of_passes hv).1, if_pos (NonceCache.checkAndInsert_new hunseen)]

end SharedCache
end Rubix.Security
