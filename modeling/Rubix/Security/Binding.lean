/-
# `Rubix.Security.Binding` — which key a finished handshake vouches for

A handshake falls in two parts: up to the payload the Noise session delivers
(`deliver`), and from its verification on (`conclude`).  What the second part
looks at, before it returns the identity of the payload (`conclude_ok`):

    the payload's own checks, at the clock's reading      `Admissible`
    its keys hash to the expected fingerprint
    its nonce is not in the cache
    the library and the stream, for what is left to do    `CanFinish`

The payload's X25519 key is in none of it.  So the identity is bound to the
channel's key exactly in the runs whose payload is turned down by one of these,
or happens to name that key (`bound_iff`), and a peer who holds the key of `rx`
passes for anybody whose fresh payload it has seen
(`relayed_payload_accepted`).
-/
import Rubix.Security.Idealized

namespace Rubix.Security

open Effect (Prog)
open NoiseHandshake

variable {W S T : Type}

/-- The run of a handshake binds the identity it returns to the fingerprint
and to the static key it was constructed for. -/
def Bound (role : Role) (env : Env W S T) (keys : IdentityKeys) (fp : Fingerprint)
    (rx : X25519PublicKey) (s : Node W) : Prop :=
  ∀ t v, (handshake role env keys fp rx s).outcome = .ok (t, v) →
    v.fingerprint = fp ∧ v.x25519Public = rx

/-! ## The two parts of a handshake -/

/-- Up to the payload the Noise session delivers. -/
def deliver (role : Role) (env : Env W S T) (keys : IdentityKeys) (fp : Fingerprint)
    (rx : X25519PublicKey) : Hs W (List UInt8 × NoiseHandshake S) := do
  let h ← Prog.orFail id (construct role env.snow keys fp rx)
  match role with
  | .initiator => introduce env h >>= receive env
  | .responder => receive env h

/-- What is still to be sent once the other side is verified. -/
def answer (role : Role) (env : Env W S T) (h : NoiseHandshake S) : Hs W (NoiseHandshake S) :=
  match role with
  | .initiator => pure h
  | .responder => introduce env h

/-- From the verification of the payload on. -/
def conclude (role : Role) (env : Env W S T) (d : List UInt8 × NoiseHandshake S) :
    Hs W (T × VerifiedIdentity) := do
  let verified ← d.2.verifyIdentityPayload env.crypto env.clock d.1
  let h ← answer role env { d.2 with verifiedRemote := some verified }
  let transport ← Prog.orFail id (h.intoTransport env.snow)
  pure (transport, verified)

theorem handshake_eq (role : Role) (env : Env W S T) (keys : IdentityKeys) (fp : Fingerprint)
    (rx : X25519PublicKey) :
    handshake role env keys fp rx = deliver role env keys fp rx >>= conclude role env := by
  cases role with
  | initiator =>
      rw [handshake, deliver, Prog.bind_assoc]
      refine congrArg _ (funext fun h => ?_)
      show performInitiatorHandshake env h = (introduce env h >>= receive env) >>= conclude _ env
      rw [Prog.bind_assoc]
      rfl
  | responder =>
      rw [handshake, deliver, Prog.bind_assoc]
      rfl

/-! ## The expected fingerprint stays with the handshake -/

section
variable {env : Env W S T} {h h' : NoiseHandshake S}

theorem writeMessage_eq_ok {snow : Snow S T} {payload msg : List UInt8} :
    h.writeMessage snow payload = .ok (msg, h') ↔
      ∃ state, snow.writeMessage h.state payload = .ok (msg, state) ∧ h' = { h with state } := by
  rw [writeMessage]
  cases snow.writeMessage h.state payload with
  | error e =>
      constructor
      · intro hw
        cases hw
      · rintro ⟨state, hw, -⟩
        cases hw
  | ok r =>
      obtain ⟨output, state⟩ := r
      constructor
      · intro hw
        cases hw
        exact ⟨state, rfl, rfl⟩
      · rintro ⟨state', hw, rfl⟩
        cases hw
        rfl

theorem writeMessage_ok {snow : Snow S T} {payload msg : List UInt8}
    (hw : h.writeMessage snow payload = .ok (msg, h')) :
    h'.remoteFingerprint = h.remoteFingerprint := by
  obtain ⟨state, -, rfl⟩ := writeMessage_eq_ok.mp hw
  rfl

theorem readMessage_ok {snow : Snow S T} {msg payload : List UInt8}
    (hr : h.readMessage snow msg = .ok (payload, h')) :
    h'.remoteFingerprint = h.remoteFingerprint := by
  rw [readMessage] at hr
  split at hr
  · exact nomatch hr
  · split at hr
    · exact nomatch hr
    · cases hr
      rfl

theorem introduce_yields :
    Prog.Yields (fun h' => h'.remoteFingerprint = h.remoteFingerprint) (introduce env h) := by
  refine .bind ?_
  intro payload
  refine .orFail_bind ?_
  rintro ⟨msg, h'⟩ hw
  exact .bind fun _ => .pure (writeMessage_ok hw)

theorem receive_yields :
    Prog.Yields (fun d => d.2.remoteFingerprint = h.remoteFingerprint) (receive env h) :=
  .bind fun _ => .orFail fun _ hr => readMessage_ok hr

theorem deliver_yields {role : Role} {keys : IdentityKeys} {fp : Fingerprint}
    {rx : X25519PublicKey} :
    Prog.Yields (fun d => d.2.remoteFingerprint = some fp) (deliver role env keys fp rx) := by
  refine .orFail_bind ?_
  intro h hc
  have hfp := construct_ok hc
  cases role with
  | initiator =>
      refine introduce_yields.bind_of ?_
      intro h' hh'
      rw [← hfp, ← hh']
      exact receive_yields
  | responder =>
      rw [← hfp]
      exact receive_yields

end

/-! ## What verification takes from the payload -/

/-- The identity of a payload that is verified against `fp`. -/
def IdentityBindPayload.identity (p : IdentityBindPayload) (fp : Fingerprint) :
    VerifiedIdentity where
  ed25519Public := p.ed25519Public
  x25519Public := p.x25519Public
  fingerprint := fp
  timestamp := p.timestamp
  nonce := p.nonce

theorem IdentityBindPayload.verify_eq_ok {crypto : Crypto} {p : IdentityBindPayload} {now : Int64}
    {fp : Fingerprint} {v : VerifiedIdentity} :
    p.verify crypto now fp = .ok v ↔
      p.verifySignatureAndFreshness crypto now = .ok () ∧
        deriveFingerprint crypto p.ed25519Public p.x25519Public = fp ∧ v = p.identity fp := by
  constructor
  · exact verify_ok
  · rintro ⟨hfresh, rfl, rfl⟩
    rw [verify, hfresh]
    exact if_neg (not_not_intro rfl)

/-- A handshake that expects `fp` has nothing against the payload: at the
readings of its clocks every check of the payload passes, its two keys hash to
`fp`, and the cache does not have its nonce. -/
structure Admissible (env : Env W S T) (fp : Fingerprint) (s : Node W) (p : IdentityBindPayload) :
    Prop where
  fresh : p.verifySignatureAndFreshness env.crypto (unixSeconds (env.clock.utcNow s.env).1) = .ok ()
  derived : deriveFingerprint env.crypto p.ed25519Public p.x25519Public = fp
  unseen : (fp, p.nonce) ∉
    s.nonceCache.remembered (env.clock.instantNow (env.clock.utcNow s.env).2).1

/-- The world behind a verification that reads both clocks. -/
def behindClocks (clock : Clock W) (w : W) : W := (clock.instantNow (clock.utcNow w).2).2

section
variable {env : Env W S T} {h : NoiseHandshake S} {fp : Fingerprint} {v : VerifiedIdentity}

theorem verifyIdentityPayload_ok (hfp : h.remoteFingerprint = some fp) (bytes : List UInt8)
    (s : Node W) :
    (h.verifyIdentityPayload env.crypto env.clock bytes s).outcome = .ok v ↔
      ∃ p, IdentityBindPayload.fromBytes bytes = .ok p ∧ Admissible env fp s p ∧
        v = p.identity fp := by
  cases hp : IdentityBindPayload.fromBytes bytes with
  | error e =>
      rw [verifyIdentityPayload, hp]
      constructor
      · intro hv
        cases hv
      · rintro ⟨p, hp', -⟩
        cases hp'
  | ok p =>
      rw [verifyIdentityPayload_run hp hfp]
      constructor
      · intro hv
        split at hv
        · cases hv
        · next v' hverify =>
            obtain ⟨hfresh, hderived, rfl⟩ := IdentityBindPayload.verify_eq_ok.mp hverify
            dsimp only at hv
            split at hv
            · next cache hinsert =>
                cases hv
                refine ⟨p, rfl, ⟨hfresh, hderived, ?_⟩, rfl⟩
                intro hseen
                have hrefused := NonceCache.checkAndInsert_refuses.mpr hseen
                exact Bool.false_ne_true (hrefused.symm.trans (congrArg Prod.fst hinsert))
            · cases hv
      · rintro ⟨p', hp', hadmissible, rfl⟩
        cases hp'
        have hverify := IdentityBindPayload.verify_eq_ok.mpr
          ⟨hadmissible.fresh, hadmissible.derived, rfl⟩
        rw [hverify]
        dsimp only
        split
        · rfl
        · next cache hinsert =>
            have hrefused := congrArg Prod.fst hinsert
            exact absurd (NonceCache.checkAndInsert_refuses.mp hrefused) hadmissible.unseen

theorem verifyIdentityPayload_behind (hfp : h.remoteFingerprint = some fp) {bytes : List UInt8}
    {s : Node W} (hv : (h.verifyIdentityPayload env.crypto env.clock bytes s).outcome = .ok v) :
    (h.verifyIdentityPayload env.crypto env.clock bytes s).world.env
      = behindClocks env.clock s.env := by
  obtain ⟨p, hp, hadmissible, rfl⟩ := (verifyIdentityPayload_ok hfp bytes s).mp hv
  have hverify := IdentityBindPayload.verify_eq_ok.mpr
    ⟨hadmissible.fresh, hadmissible.derived, rfl⟩
  rw [verifyIdentityPayload_run hp hfp, hverify]
  dsimp only
  split
  · rfl
  · rfl

end

/-! ## What a handshake still needs behind the verification -/

/-- The library takes the session for complete, and makes a transport of it. -/
def Snow.Finishes (snow : Snow S T) (state : S) : Prop :=
  snow.isHandshakeFinished state = true ∧ ∃ t, snow.intoTransportMode state = .ok t

/-- The stream takes a message, with the length in front of it. -/
structure Stream.Takes (stream : Stream W) (msg : List UInt8) (w : W) : Prop where
  header : (stream.writeAll (Bytes.toBe 4 msg.length) w).1 = .ok ()
  body : (stream.writeAll msg (stream.writeAll (Bytes.toBe 4 msg.length) w).2).1 = .ok ()
  flush : (stream.flush
    (stream.writeAll msg (stream.writeAll (Bytes.toBe 4 msg.length) w).2).2).1 = .ok ()

/-- The payload that a handshake sends of itself. -/
def ownPayload (env : Env W S T) (h : NoiseHandshake S) (w : W) : List UInt8 :=
  (IdentityBindPayload.create env.crypto h.ourIdentity.ed25519 h.ourIdentity.x25519.pub
    (unixSeconds (env.clock.utcNow w).1) (env.fillBytes (env.clock.utcNow w).2).1).toBytes

/-- The library and the stream let the handshake finish: an initiator has only
the transport to make, a responder has its own payload to send before. -/
def CanFinish (role : Role) (env : Env W S T) (h : NoiseHandshake S) (w : W) : Prop :=
  match role with
  | .initiator => env.snow.Finishes h.state
  | .responder =>
      ∃ msg state, env.snow.writeMessage h.state (ownPayload env h w) = .ok (msg, state) ∧
        env.stream.Takes msg (env.fillBytes (env.clock.utcNow w).2).2 ∧ env.snow.Finishes state

section
variable {env : Env W S T} {h : NoiseHandshake S}

theorem intoTransport_ok {snow : Snow S T} {v : VerifiedIdentity}
    (hverified : h.verifiedRemote = some v) :
    (∃ t, h.intoTransport snow = .ok t) ↔ snow.Finishes h.state := by
  rw [intoTransport, hverified, Snow.Finishes]
  cases hfinished : snow.isHandshakeFinished h.state with
  | false =>
      rw [if_pos rfl]
      constructor
      · rintro ⟨t, ht⟩
        cases ht
      · rintro ⟨hfalse, -⟩
        cases hfalse
  | true =>
      rw [if_neg Bool.false_ne_true.symm, if_neg (by simp)]
      cases hmode : snow.intoTransportMode h.state with
      | error e =>
          constructor
          · rintro ⟨t, ht⟩
            cases ht
          · rintro ⟨-, t, ht⟩
            cases ht
      | ok t => exact iff_of_true ⟨t, rfl⟩ ⟨rfl, t, rfl⟩

theorem sendMessage_ok {stream : Stream W} {msg : List UInt8} {s : Node W} :
    (sendMessage stream msg s).outcome = .ok () ↔ stream.Takes msg s.env := by
  simp only [sendMessage, reach, orHandshakeFailed, Prog.silent_bind, Prog.orFail_bind_ok]
  constructor
  · rintro ⟨⟨⟩, hheader, ⟨⟩, hbody, hflush⟩
    exact ⟨hheader, hbody, Prog.orFail_eq_ok.mp hflush⟩
  · rintro ⟨hheader, hbody, hflush⟩
    exact ⟨(), hheader, (), hbody, Prog.orFail_eq_ok.mpr hflush⟩

theorem introduce_ok {h' : NoiseHandshake S} {s : Node W} :
    (introduce env h s).outcome = .ok h' ↔
      ∃ msg state, env.snow.writeMessage h.state (ownPayload env h s.env) = .ok (msg, state) ∧
        env.stream.Takes msg (env.fillBytes (env.clock.utcNow s.env).2).2 ∧
        h' = { h with state } := by
  have hdrawn : introduce env h s =
      (Prog.orFail id (h.writeMessage env.snow (ownPayload env h s.env)) >>= fun r =>
        sendMessage env.stream r.1 >>= fun _ => pure r.2)
          ⟨s.nonceCache, (env.fillBytes (env.clock.utcNow s.env).2).2⟩ := rfl
  rw [hdrawn, Prog.orFail_bind_ok]
  constructor
  · rintro ⟨⟨msg, h''⟩, hw, hsend⟩
    obtain ⟨state, hstate, rfl⟩ := writeMessage_eq_ok.mp hw
    obtain ⟨⟨⟩, hsent, hpure⟩ := Prog.ok_of_bind hsend
    cases hpure
    exact ⟨msg, state, hstate, sendMessage_ok.mp hsent, rfl⟩
  · rintro ⟨msg, state, hstate, htakes, rfl⟩
    refine ⟨(msg, { h with state }), writeMessage_eq_ok.mpr ⟨state, hstate, rfl⟩, ?_⟩
    exact Prog.ok_bind (sendMessage_ok.mpr htakes) rfl

/-- The second part of a handshake succeeds, and with which identity. -/
theorem conclude_ok {role : Role} {fp : Fingerprint} {d : List UInt8 × NoiseHandshake S}
    {v : VerifiedIdentity} (hfp : d.2.remoteFingerprint = some fp) (s : Node W) :
    (∃ t, (conclude role env d s).outcome = .ok (t, v)) ↔
      ∃ p, IdentityBindPayload.fromBytes d.1 = .ok p ∧ Admissible env fp s p ∧
        CanFinish role env d.2 (behindClocks env.clock s.env) ∧ v = p.identity fp := by
  have hset : ∀ v state, ({ d.2.setVerifiedRemote v with state } : NoiseHandshake S).verifiedRemote
      = some v := fun _ _ => rfl
  constructor
  · rintro ⟨t, hrun⟩
    obtain ⟨v', hv, hrest⟩ := Prog.ok_of_bind hrun
    have henv := verifyIdentityPayload_behind hfp hv
    obtain ⟨p, hp, hadmissible, rfl⟩ := (verifyIdentityPayload_ok hfp d.1 s).mp hv
    obtain ⟨h', hanswer, hrest⟩ := Prog.ok_of_bind hrest
    obtain ⟨t', htransport, hpure⟩ := Prog.orFail_bind_ok.mp hrest
    cases hpure
    refine ⟨p, hp, hadmissible, ?_, rfl⟩
    rw [← henv]
    cases role with
    | initiator =>
        cases hanswer
        exact (intoTransport_ok (hset _ d.2.state)).mp ⟨t, htransport⟩
    | responder =>
        obtain ⟨msg, state, hwritten, htakes, rfl⟩ := introduce_ok.mp hanswer
        have hfinishes := (intoTransport_ok (hset _ state)).mp ⟨t, htransport⟩
        exact ⟨msg, state, hwritten, htakes, hfinishes⟩
  · rintro ⟨p, hp, hadmissible, hfinish, rfl⟩
    have hv := (verifyIdentityPayload_ok hfp d.1 s).mpr ⟨p, hp, hadmissible, rfl⟩
    rw [← verifyIdentityPayload_behind hfp hv] at hfinish
    cases role with
    | initiator =>
        obtain ⟨t, ht⟩ := (intoTransport_ok (hset _ d.2.state)).mpr hfinish
        exact ⟨t, Prog.ok_bind hv (Prog.ok_bind rfl (Prog.orFail_bind_ok.mpr ⟨t, ht, rfl⟩))⟩
    | responder =>
        obtain ⟨msg, state, hwritten, htakes, hfinishes⟩ := hfinish
        have hanswer := (introduce_ok (h := d.2.setVerifiedRemote (p.identity fp))).mpr
          ⟨msg, state, hwritten, htakes, rfl⟩
        obtain ⟨t, ht⟩ := (intoTransport_ok (hset _ state)).mpr hfinishes
        exact ⟨t, Prog.ok_bind hv (Prog.ok_bind hanswer (Prog.orFail_bind_ok.mpr ⟨t, ht, rfl⟩))⟩

end

/-! ## Who signed the payload -/

/-- The payload parses, and the identity is the one that signed it. -/
def Signed (crypto : Crypto) (bytes : List UInt8) (v : VerifiedIdentity) : Prop :=
  ∃ p, IdentityBindPayload.fromBytes bytes = .ok p ∧ p.Signs crypto v

/-- A handshake that is through was given a payload that is signed by the
identity it returns, and that identity has the fingerprint it was constructed
for. -/
theorem handshake_authentic {role : Role} {env : Env W S T} {keys : IdentityKeys} {fp : Fingerprint}
    {rx : X25519PublicKey} {s : Node W} {t : T} {v : VerifiedIdentity}
    (hrun : (handshake role env keys fp rx s).outcome = .ok (t, v)) :
    v.fingerprint = fp ∧
      ∃ d, (deliver role env keys fp rx s).outcome = .ok d ∧ Signed env.crypto d.1 v := by
  rw [handshake_eq] at hrun
  obtain ⟨d, hd, hr⟩ := Prog.ok_of_bind hrun
  have hfp : d.2.remoteFingerprint = some fp := deliver_yields s d hd
  obtain ⟨p, hp, hadmissible, -, rfl⟩ := (conclude_ok hfp _).mp ⟨t, hr⟩
  refine ⟨rfl, d, hd, p, hp, ?_⟩
  exact IdentityBindPayload.verify_signs (IdentityBindPayload.verify_eq_ok.mpr
    ⟨hadmissible.fresh, hadmissible.derived, rfl⟩)

/-! ## When the identity is bound -/

/-- A run binds the identity exactly when the payload it delivers names the
static key that the handshake was constructed for, wherever the handshake has
nothing against that payload and can finish behind it. -/
theorem bound_iff (role : Role) (env : Env W S T) (keys : IdentityKeys) (fp : Fingerprint)
    (rx : X25519PublicKey) (s : Node W) :
    Bound role env keys fp rx s ↔
      ∀ d p, (deliver role env keys fp rx s).outcome = .ok d →
        IdentityBindPayload.fromBytes d.1 = .ok p →
          Admissible env fp (deliver role env keys fp rx s).world p →
            CanFinish role env d.2
              (behindClocks env.clock (deliver role env keys fp rx s).world.env) →
                p.x25519Public = rx := by
  rw [Bound, handshake_eq]
  constructor
  · intro hbound d p hd hp hadmissible hfinish
    have hfp : d.2.remoteFingerprint = some fp := deliver_yields s d hd
    obtain ⟨t, ht⟩ := (conclude_ok hfp _).mpr ⟨p, hp, hadmissible, hfinish, rfl⟩
    exact (hbound t (p.identity fp) (Prog.ok_bind hd ht)).2
  · intro hnames t v hrun
    obtain ⟨d, hd, hr⟩ := Prog.ok_of_bind hrun
    have hfp : d.2.remoteFingerprint = some fp := deliver_yields s d hd
    obtain ⟨p, hp, hadmissible, hfinish, rfl⟩ := (conclude_ok hfp _).mp ⟨t, hr⟩
    exact ⟨rfl, hnames d p hd hp hadmissible hfinish⟩

/-! ## A relayed payload -/

open Idealized

/-- Bob's payload on Charlie's session with Alice. -/
def relayed : List UInt8 :=
  match wire charlie alice.x25519.pub (payloadOf bob 0) with
  | .ok incoming => incoming
  | .error _ => []

/-- What Alice takes from it. -/
def bobVerified : VerifiedIdentity where
  ed25519Public := bob.ed25519.pub
  x25519Public := bob.x25519.pub
  fingerprint := fingerprintOf bob
  timestamp := 0
  nonce := Vector.replicate 12 7

/-- Charlie runs the session under his own key and relays Bob's payload: Alice
takes the channel to Charlie for a channel to Bob, whichever end she is. -/
theorem relayed_payload_accepted :
    ¬ Bound .initiator env alice (fingerprintOf bob) charlie.x25519.pub (node relayed) ∧
      ¬ Bound .responder env alice (fingerprintOf bob) charlie.x25519.pub (node relayed) := by
  have hkeys : bob.x25519.pub ≠ charlie.x25519.pub := by decide +kernel
  constructor
  · intro hbound
    have hrun : (handshake .initiator env alice (fingerprintOf bob) charlie.x25519.pub
        (node relayed)).outcome = .ok ((), bobVerified) := by decide +kernel
    exact hkeys (hbound _ _ hrun).2
  · intro hbound
    have hrun : (handshake .responder env alice (fingerprintOf bob) charlie.x25519.pub
        (node relayed)).outcome = .ok ((), bobVerified) := by decide +kernel
    exact hkeys (hbound _ _ hrun).2

/-- His own payload Alice turns down: its keys are not Bob's. -/
example :
    (handshake .initiator env alice (fingerprintOf bob) charlie.x25519.pub
      (node ((wire charlie alice.x25519.pub (payloadOf charlie 0)).toOption.getD []))).outcome
        = .err .fingerprintMismatch := by
  decide +kernel

/-- Charlie cannot open a session that is bound to Bob's key. -/
example : (handshake .initiator env alice (fingerprintOf bob) bob.x25519.pub
    (node relayed)).outcome = .err (.handshakeFailed "read error: decrypt error") := by
  decide +kernel

end Rubix.Security
