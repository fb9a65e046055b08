/-
# `Rubix.Security.Replay` — the two windows against replayed payloads

A payload stamped with the second `T` passes the timestamp check while the
wall clock's second is within `T - 30 .. T + 30`, and once it is accepted its
nonce stays in the cache for 60 seconds, the sixtieth included:

    accepted at            refused by the cache until    accepted by the clock before
    T - 30                 T + 30                        T + 31
    T - 30 + x             T + 30 + x                    T + 31

The window of the clock is 61 seconds long, since it is cut to whole seconds,
and the cache's entry lives for 60: a payload accepted in the first fraction
of the second `T - 30` is forgotten before the second `T + 30` is over
(`straddling_payload_replayed`).  Apart from payloads presented in both of
these seconds nothing is accepted twice, as long as the cache is not flooded
(`replay_free`).
-/
import Rubix.Security.Idealized

namespace Rubix.Security

open Effect (Prog)

variable {S : Type}

/-- A call of `verify_identity_payload`: when, on which handshake, with which
payload bytes. -/
structure VerifyCall (S : Type) where
  instant : Instant
  handshake : NoiseHandshake S
  payload : List UInt8

/-- Both clocks in a world that is an instant: the wall clock is `offset`
ahead of the monotonic one, and advances at the same rate. -/
def clockAt (offset : Duration) : Clock Instant where
  utcNow t := (t + offset, t)
  instantNow t := (t, t)

/-- Bring the world to the instant of the call, and make it. -/
def serveCall (crypto : Crypto) (offset : Duration) (c : VerifyCall S) :
    Hs Instant VerifiedIdentity := do
  Prog.silent fun s => ((), { s with env := c.instant })
  c.handshake.verifyIdentityPayload crypto (clockAt offset) c.payload

/-- The calls of a run, on one cache that starts empty. -/
def verifyAll (crypto : Crypto) (offset : Duration) (maxEntries : Nat) (calls : List (VerifyCall S)) :
    List (Prog.Served (VerifyCall S) (Node Instant) Empty SecurityError Empty VerifiedIdentity) :=
  Prog.serve (serveCall crypto offset) calls ⟨.new maxEntries, 0⟩

/-- The payload bytes a call accepted. -/
def acceptedPayload
    (e : Prog.Served (VerifyCall S) (Node Instant) Empty SecurityError Empty VerifiedIdentity) :
    Option (List UInt8) :=
  match e.run.outcome with
  | .ok _ => some e.request.payload
  | _ => none

theorem acceptedPayload_eq_some
    {e : Prog.Served (VerifyCall S) (Node Instant) Empty SecurityError Empty VerifiedIdentity}
    {bytes : List UInt8} :
    acceptedPayload e = some bytes ↔ (∃ v, e.run.outcome = .ok v) ∧ e.request.payload = bytes := by
  rw [acceptedPayload]
  split
  · next v hv => exact ⟨fun h => ⟨⟨v, hv⟩, Option.some.inj h⟩, fun h => congrArg some h.2⟩
  · next hv =>
      constructor
      · exact fun h => nomatch h
      · rintro ⟨⟨v, h⟩, -⟩
        exact absurd h (hv v)

/-- A wall clock that chrono can represent: its years fit the seconds of an
`i64` many times over. -/
def Representable (t : DateTime) : Prop := i64Min ≤ t.timestamp ∧ t.timestamp ≤ i64Max

instance (t : DateTime) : Decidable (Representable t) := inferInstanceAs (Decidable (_ ∧ _))

/-- One payload at the two ends of its window: in the first second of it, and
in the last, more than the time to live of a cache entry later. -/
def Straddles (offset : Duration) (c c' : VerifyCall S) : Prop :=
  c'.payload = c.payload ∧ nonceCacheTtl < c'.instant - c.instant ∧
    ∃ p, IdentityBindPayload.fromBytes c.payload = .ok p ∧
      DateTime.timestamp (c.instant + offset) = p.timestamp.toInt - timestampSkewSecs ∧
      DateTime.timestamp (c'.instant + offset) = p.timestamp.toInt + timestampSkewSecs

/-! ## One call -/

section
variable (crypto : Crypto) (offset : Duration)

/-- The cache's key for a payload. -/
def nonceKey (p : IdentityBindPayload) : NonceKey :=
  (deriveFingerprint crypto p.ed25519Public p.x25519Public, p.nonce)

/-- The call gets as far as the cache, with the payload `p`. -/
def Reaches (c : VerifyCall S) (p : IdentityBindPayload) : Prop :=
  IdentityBindPayload.fromBytes c.payload = .ok p ∧
    p.verifySignatureAndFreshness crypto (unixSeconds (c.instant + offset)) = .ok ()

/-- A call either ends before the cache, or is one insertion into it, which
settles whether the payload is accepted. -/
theorem serveCall_cases (c : VerifyCall S) (s : Node Instant) :
    ((serveCall crypto offset c s).world.nonceCache = s.nonceCache ∧
        ∀ v, (serveCall crypto offset c s).outcome ≠ .ok v) ∨
      ∃ p, Reaches crypto offset c p ∧
        (serveCall crypto offset c s).world.nonceCache
          = (s.nonceCache.checkAndInsert c.instant (nonceKey crypto p)).2 ∧
        ((∃ v, (serveCall crypto offset c s).outcome = .ok v) ↔
          (s.nonceCache.checkAndInsert c.instant (nonceKey crypto p)).1 = true) := by
  rw [serveCall, Prog.silent_bind]
  cases hp : IdentityBindPayload.fromBytes c.payload with
  | error e =>
      rw [NoiseHandshake.verifyIdentityPayload, hp]
      exact .inl ⟨rfl, fun v h => by cases h⟩
  | ok p =>
      cases hfp : c.handshake.remoteFingerprint with
      | none =>
          rw [NoiseHandshake.verifyIdentityPayload, hp, hfp]
          exact .inl ⟨rfl, fun v h => by cases h⟩
      | some fp =>
          rw [NoiseHandshake.verifyIdentityPayload_run hp hfp]
          simp only [clockAt]
          cases hv : p.verify crypto (unixSeconds (c.instant + offset)) fp with
          | error e => exact .inl ⟨rfl, fun v h => by cases h⟩
          | ok v =>
              obtain ⟨hfresh, hderived, rfl⟩ := IdentityBindPayload.verify_ok hv
              have hkey : (fp, p.nonce) = nonceKey crypto p := by
                rw [nonceKey, hderived]
              refine .inr ⟨p, ⟨hp, hfresh⟩, ?_⟩
              dsimp only
              rw [hkey]
              rcases s.nonceCache.checkAndInsert c.instant (nonceKey crypto p) with
                ⟨inserted, cache⟩
              cases inserted with
              | true => exact ⟨rfl, iff_of_true ⟨_, rfl⟩ rfl⟩
              | false =>
                  refine ⟨rfl, iff_of_false ?_ Bool.false_ne_true⟩
                  rintro ⟨_, h⟩
                  cases h

/-! ## The cache over a run -/

/-- The cache is in step with itself, and of its size. -/
def Sound (maxEntries : Nat) (s : Node Instant) : Prop :=
  s.nonceCache.WellFormed ∧ s.nonceCache.maxEntries = maxEntries

theorem serveCall_keeps (maxEntries : Nat) (c : VerifyCall S) :
    Prog.Keeps (Sound maxEntries) (serveCall crypto offset c) := by
  rintro s ⟨hwell, hmax⟩
  rw [Sound]
  rcases serveCall_cases crypto offset c s with ⟨hsame, -⟩ | ⟨p, -, hcache, -⟩
  · rw [hsame]
    exact ⟨hwell, hmax⟩
  · obtain ⟨-, -, hmax', hwell'⟩ :=
      NonceCache.checkAndInsert_eq hwell c.instant (nonceKey crypto p)
    rw [hcache]
    exact ⟨hwell', hmax'.trans hmax⟩

variable {crypto offset}

/-- An accepted call is an insertion, of the payload's key. -/
theorem accepted_inserts {c : VerifyCall S} {s : Node Instant} {v : VerifiedIdentity}
    (h : (serveCall crypto offset c s).outcome = .ok v) :
    ∃ p, Reaches crypto offset c p ∧
      (serveCall crypto offset c s).world.nonceCache
        = (s.nonceCache.checkAndInsert c.instant (nonceKey crypto p)).2 ∧
      (s.nonceCache.checkAndInsert c.instant (nonceKey crypto p)).1 = true := by
  rcases serveCall_cases crypto offset c s with ⟨-, hnone⟩ | ⟨p, hp, hcache, haccepted⟩
  · exact absurd h (hnone v)
  · exact ⟨p, hp, hcache, haccepted.mp ⟨v, h⟩⟩

theorem accepted {c : VerifyCall S} {s : Node Instant}
    (h : ∃ v, (serveCall crypto offset c s).outcome = .ok v) :
    acceptedPayload ⟨c, s, serveCall crypto offset c s⟩ = some c.payload :=
  acceptedPayload_eq_some.mpr ⟨h, rfl⟩

/-- A call that returns no identity accepts no payload. -/
theorem rejected {c : VerifyCall S} {s : Node Instant}
    (h : ∀ v, (serveCall crypto offset c s).outcome ≠ .ok v) :
    acceptedPayload ⟨c, s, serveCall crypto offset c s⟩ = none := by
  refine Option.eq_none_iff_forall_not_mem.mpr ?_
  intro bytes hbytes
  obtain ⟨⟨v, hv⟩, -⟩ := acceptedPayload_eq_some.mp hbytes
  exact h v hv

open ExpiringQueue (Behind)

/-- An entry in the cache that has not expired at the end of some calls, which
accept too few payloads to push it out, is still there. -/
theorem behind_run {maxEntries : Nat} {key : NonceKey} {t : Instant} {calls : List (VerifyCall S)}
    {s : Node Instant} {m : Nat} (hs : Sound maxEntries s)
    (hbehind : Behind s.nonceCache.order key t m)
    (hlive : ∀ c ∈ calls, NonceCache.expired t c.instant = false)
    (hroom : m + ((Prog.serve (serveCall crypto offset) calls s).filterMap acceptedPayload).length
      < maxEntries) :
    ∃ m', Behind (Prog.leaves (serveCall crypto offset) calls s).nonceCache.order key t m' := by
  induction calls generalizing s m with
  | nil => exact ⟨m, hbehind⟩
  | cons c calls ih =>
      have hnext := serveCall_keeps crypto offset maxEntries c s hs
      have hlive' : ∀ c ∈ calls, NonceCache.expired t c.instant = false :=
        fun c hc => hlive c (List.mem_cons_of_mem _ hc)
      rcases serveCall_cases crypto offset c s with ⟨hsame, hnone⟩ | ⟨p, -, hcache, haccepted⟩
      · -- the call ends before the cache
        rw [Prog.serve, List.filterMap_cons_none (rejected hnone)] at hroom
        rw [← hsame] at hbehind
        exact ih hnext hbehind hlive' hroom
      · -- the call is an insertion, of whatever key
        rw [Prog.serve] at hroom
        have hlivec := hlive c List.mem_cons_self
        cases hnew : (s.nonceCache.checkAndInsert c.instant (nonceKey crypto p)).1 with
        | true =>
            rw [List.filterMap_cons_some (accepted (haccepted.mpr hnew)), List.length_cons]
              at hroom
            have hstep := NonceCache.behind_checkAndInsert hs.1 hbehind hlivec (nonceKey crypto p)
              fun _ => by rw [hs.2]; omega
            rw [hnew, if_pos rfl, ← hcache] at hstep
            have hrest := ih hnext hstep hlive' (by omega)
            exact hrest
        | false =>
            have hnone : ∀ v, (serveCall crypto offset c s).outcome ≠ .ok v := by
              intro v hv
              rw [haccepted.mp ⟨v, hv⟩] at hnew
              exact nomatch hnew
            rw [List.filterMap_cons_none (rejected hnone)] at hroom
            have hstep := NonceCache.behind_checkAndInsert hs.1 hbehind hlivec (nonceKey crypto p)
              fun h => absurd (hnew.symm.trans h) Bool.false_ne_true
            rw [hnew, if_neg Bool.false_ne_true, ← hcache] at hstep
            exact ih hnext hstep hlive' hroom

/-! ## Both windows together -/

theorem filterMap_eq_append_cons {α β : Type} {f : α → Option β} {l : List α} {before after : List β}
    {b : β} (h : l.filterMap f = before ++ b :: after) :
    ∃ earlier a later, l = earlier ++ a :: later ∧ earlier.filterMap f = before ∧ f a = some b ∧
      later.filterMap f = after := by
  obtain ⟨l₁, l₂, rfl, rfl, h₂⟩ := List.filterMap_eq_append_iff.mp h
  obtain ⟨gap, a, later, rfl, hgap, ha, rfl⟩ := List.filterMap_eq_cons_iff.mp h₂
  refine ⟨l₁ ++ gap, a, later, (List.append_assoc ..).symm, ?_, ha, rfl⟩
  rw [List.filterMap_append, List.filterMap_eq_nil_iff.mpr hgap, List.append_nil]

theorem toInt_unixSeconds {t : DateTime} (h : Representable t) :
    (unixSeconds t).toInt = t.timestamp := by
  rw [unixSeconds]
  exact Int64.toInt_ofInt_of_le h.1 (Int.lt_add_one_of_le h.2)

/-- Two readings of a clock cut to seconds, more than 60 seconds apart and
both in the window of `T`, are at its ends. -/
theorem window_ends {t t' offset T : Int} (hlate : 60 * 1000000000 < t' - t)
    (hfirst : T ≤ (t + offset) / 1000000000 + 30)
    (hlast : (t' + offset) / 1000000000 - 30 ≤ T) :
    (t + offset) / 1000000000 = T - 30 ∧ (t' + offset) / 1000000000 = T + 30 := by
  omega

/-- A payload whose cache entry has expired passes the clock only at the ends
of its window. -/
theorem straddles_of_expired {c c' : VerifyCall S} {p : IdentityBindPayload}
    (hsame : c'.payload = c.payload) (hp : Reaches crypto offset c p)
    (hp' : Reaches crypto offset c' p) (hrange : Representable (c.instant + offset))
    (hrange' : Representable (c'.instant + offset))
    (hexpired : NonceCache.expired c.instant c'.instant = true) : Straddles offset c c' := by
  have hlate : nonceCacheTtl < c'.instant - c.instant := of_decide_eq_true hexpired
  have hinside := (IdentityBindPayload.verifySignatureAndFreshness_ok hp.2).2
  have hinside' := (IdentityBindPayload.verifySignatureAndFreshness_ok hp'.2).2
  rw [IdentityBindPayload.OutOfWindow, toInt_unixSeconds hrange] at hinside
  rw [IdentityBindPayload.OutOfWindow, toInt_unixSeconds hrange'] at hinside'
  have hfirst := Int.not_lt.mp (mt Or.inl hinside)
  have hlast := Int.not_lt.mp (mt Or.inr hinside')
  obtain ⟨hbegin, hend⟩ := window_ends hlate hfirst hlast
  exact ⟨hsame, hlate, p, hp.1, hbegin, hend⟩

theorem expired_mono {t now now' : Instant} (h : now ≤ now')
    (hlive : NonceCache.expired t now' = false) : NonceCache.expired t now = false := by
  have hyoung := of_decide_eq_false hlive
  refine decide_eq_false ?_
  intro hold
  refine hyoung ?_
  exact Int.lt_of_lt_of_le hold (Int.sub_le_sub_right h t)

/-- A key that is inserted again before its entry has expired was pushed out. -/
theorem pushed_out {maxEntries : Nat} {key : NonceKey} {t now : Instant}
    {between : List (VerifyCall S)} {s : Node Instant} (hs : Sound maxEntries s)
    (hbehind : Behind s.nonceCache.order key t 0) (hmono : ∀ c ∈ between, c.instant ≤ now)
    (hlive : NonceCache.expired t now = false)
    (hnew : ((Prog.leaves (serveCall crypto offset) between s).nonceCache.checkAndInsert
      now key).1 = true) :
    maxEntries ≤ ((Prog.serve (serveCall crypto offset) between s).filterMap
      acceptedPayload).length := by
  refine Nat.not_lt.mp ?_
  intro hroom
  have hlives : ∀ c ∈ between, NonceCache.expired t c.instant = false :=
    fun c hc => expired_mono (hmono c hc) hlive
  obtain ⟨m, hstill⟩ := behind_run hs hbehind hlives (by rwa [Nat.zero_add])
  have hs' := Prog.leaves_keeps (serveCall_keeps crypto offset maxEntries) between hs
  have hrefused := NonceCache.refused hs'.1 hstill hlive
  exact absurd (hrefused.symm.trans hnew) Bool.false_ne_true

/-- Without payloads presented at both ends of their window, no payload is
accepted twice unless `maxEntries` others are accepted in between. -/
theorem replay_free (maxEntries : Nat) {calls : List (VerifyCall S)}
    (hmono : calls.Pairwise fun c c' => c.instant ≤ c'.instant)
    (hrange : ∀ c ∈ calls, Representable (c.instant + offset))
    (hstraddle : calls.Pairwise fun c c' => ¬ Straddles offset c c') :
    ExpiringQueue.Spaced maxEntries
      ((verifyAll crypto offset maxEntries calls).filterMap acceptedPayload) := by
  refine ExpiringQueue.others_between ?_
  intro before bytes inner after hl
  obtain ⟨earlier, e, rest, hserved, rfl, he, hrest⟩ := filterMap_eq_append_cons hl
  obtain ⟨mid, e', later, rfl, rfl, he', -⟩ := filterMap_eq_append_cons hrest
  obtain ⟨ys, first, zs, rfl, rfl, rfl, hrest⟩ := Prog.serve_eq_append_cons hserved
  obtain ⟨between, second, zs, rfl, rfl, rfl, -⟩ := Prog.serve_eq_append_cons hrest.symm
  obtain ⟨⟨v, hfirst⟩, hbytes⟩ := acceptedPayload_eq_some.mp he
  obtain ⟨⟨v', hsecond⟩, hbytes'⟩ := acceptedPayload_eq_some.mp he'
  obtain ⟨p, hp, hcache, hnew⟩ := accepted_inserts hfirst
  obtain ⟨p', hp', -, hnew'⟩ := accepted_inserts hsecond
  have hsame : second.payload = first.payload := hbytes'.trans hbytes.symm
  have hpp' : p' = p := by
    have hparse := hp'.1
    rw [hsame, hp.1] at hparse
    exact (Except.ok.inj hparse).symm
  rw [hpp'] at hp' hnew'
  -- the two calls, and those in between, are in order and straddle nothing
  obtain ⟨hmono₁, hmono₂⟩ := List.pairwise_cons.mp (List.pairwise_append.mp hmono).2.1
  have hafter : second ∈ between ++ second :: zs := List.mem_append_right _ List.mem_cons_self
  have hbefore : ∀ c ∈ between, c.instant ≤ second.instant :=
    fun c hc => (List.pairwise_append.mp hmono₂).2.2 c hc second List.mem_cons_self
  have hno := (List.pairwise_cons.mp (List.pairwise_append.mp hstraddle).2.1).1 second hafter
  have hlive : NonceCache.expired first.instant second.instant = false := by
    refine Bool.eq_false_iff.mpr ?_
    intro hexpired
    refine hno ?_
    refine straddles_of_expired hsame hp hp' (hrange first ?_) (hrange second ?_) hexpired
    · exact List.mem_append_right _ List.mem_cons_self
    · exact List.mem_append_right _ (List.mem_cons_of_mem _ hafter)
  have hs := Prog.leaves_keeps (serveCall_keeps crypto offset maxEntries) ys
    (w := ⟨.new maxEntries, 0⟩) ⟨NonceCache.wellFormed_new maxEntries, rfl⟩
  have hbehind := NonceCache.behind_inserted hs.1 hnew
  rw [← hcache] at hbehind
  exact pushed_out (serveCall_keeps crypto offset maxEntries first _ hs) hbehind hbefore hlive hnew'

end

section
open Idealized

/-- Bob's payload of the second 30, on a handshake that expects Bob. -/
def bobsCall (instant : Instant) : VerifyCall Session where
  instant
  handshake := ⟨⟨[], 0⟩, alice, some (fingerprintOf bob), none⟩
  payload := payloadOf bob 30

theorem replay_free_retry :
    ExpiringQueue.Spaced 65536
      ((verifyAll crypto 0 65536 [bobsCall 0, bobsCall 10000000000]).filterMap acceptedPayload) := by
  refine replay_free 65536 (List.pairwise_pair.mpr (by decide)) ?_ (List.pairwise_pair.mpr ?_)
  · intro c hc
    rcases List.mem_pair.mp hc with rfl | rfl
    · decide
    · decide
  · rintro ⟨-, hlate, -⟩
    exact absurd hlate (by decide)

/-- A payload of the second 30 is accepted at second 0, the first of its
window, and again half a second into its last, at 60.5 s. -/
theorem straddling_payload_replayed :
    [bobsCall 0, bobsCall 60500000000].Pairwise (fun c c' => c.instant ≤ c'.instant) ∧
      ¬ ExpiringQueue.Spaced 65536
        ((verifyAll crypto 0 65536 [bobsCall 0, bobsCall 60500000000]).filterMap
          acceptedPayload) := by
  refine ⟨List.pairwise_pair.mpr (by decide), fun hspaced => ?_⟩
  have hrun : (verifyAll crypto 0 65536 [bobsCall 0, bobsCall 60500000000]).filterMap
      acceptedPayload = [payloadOf bob 30, payloadOf bob 30] := by decide +kernel
  rw [hrun] at hspaced
  exact absurd (hspaced [] _ [] [] rfl) (by decide)

end

end Rubix.Security
