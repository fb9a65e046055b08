/-
# `Rubix.Networking.KeyReuse` — one key for two signed formats

The Ed25519 key of an identity signs its handshake payloads and its discovery
beacons.  Only the payload starts with a domain separator; a beacon starts with
a version and a name that its sender chooses, and may start with the separator
as well.  What keeps the two apart is their length:

    payload    22 + 1 + 32 + 32 + 8 + 12             = 107
    beacon     2 + name + 64 + 64 + fingerprint + 2 + 8  ≥ 180

The keys of a beacon are 64 digits each, and its fingerprint has forty.
-/
import Rubix.Networking.Beacon
import Rubix.Security.IdentityFormat

namespace Rubix.Networking

open Security (Crypto Ed25519Keypair IdentityBindPayload)

/-- Of these messages, a signature verifies the one it was made for and no
other. -/
def SignsApart (crypto : Crypto) (keys : Ed25519Keypair) (messages : List (List UInt8)) : Prop :=
  ∀ m ∈ messages, ∀ m' ∈ messages,
    crypto.ed25519Verify keys.pub m' (crypto.ed25519Sign keys.secret m) = true → m' = m

namespace DiscoveryBeacon

theorem length_le_bytesOf (s : String) : s.toList.length ≤ (bytesOf s).length := by
  rw [bytesOf, Utf8.length_encode]
  induction s.toList with
  | nil => exact Nat.le_refl 0
  | cons c cs ih =>
      rw [List.length_cons, Utf8.byteLen]
      have hsize : 1 ≤ c.utf8Size := c.utf8Size_pos
      omega

/-- Both keys and the fingerprint alone are longer than an identity payload. -/
theorem WellFormed.le_length_signaturePayload {b : DiscoveryBeacon} (h : b.WellFormed) :
    180 ≤ b.signaturePayload.length := by
  obtain ⟨fp, hfp⟩ := h.fingerprint
  have hed : 64 ≤ (bytesOf b.ed25519Public).length :=
    (key_digits h.ed25519).1 ▸ length_le_bytesOf b.ed25519Public
  have hx : 64 ≤ (bytesOf b.x25519Public).length :=
    (key_digits h.x25519).1 ▸ length_le_bytesOf b.x25519Public
  have hdigits : 40 ≤ b.fingerprint.toList.length :=
    Fingerprint.fromHex_ok_iff_count.mp ⟨fp, hfp⟩ ▸ List.countP_le_length
  have hfingerprint := Nat.le_trans hdigits (length_le_bytesOf b.fingerprint)
  simp only [signaturePayload, List.length_append, Bytes.length_toLe]
  omega

/-- The two formats have no bytes in common, so no signature under either is
one under the other. -/
theorem signed_formats_disjoint (p : IdentityBindPayload) {b : DiscoveryBeacon}
    (hb : b.WellFormed) :
    p.signaturePayload ≠ b.signaturePayload ∧
      ∀ (crypto : Crypto) (keys : Ed25519Keypair),
        SignsApart crypto keys [p.signaturePayload, b.signaturePayload] →
          crypto.ed25519Verify keys.pub b.signaturePayload
              (crypto.ed25519Sign keys.secret p.signaturePayload) = false ∧
            crypto.ed25519Verify keys.pub p.signaturePayload
              (crypto.ed25519Sign keys.secret b.signaturePayload) = false := by
  have hne : p.signaturePayload ≠ b.signaturePayload := by
    intro heq
    have hlen := hb.le_length_signaturePayload
    rw [← heq, p.length_signaturePayload] at hlen
    exact absurd hlen (by decide)
  refine ⟨hne, ?_⟩
  intro crypto keys hapart
  constructor
  · refine Bool.eq_false_of_not_eq_true ?_
    intro hverify
    exact hne (hapart _ List.mem_cons_self _ (List.mem_cons_of_mem _ List.mem_cons_self) hverify).symm
  · refine Bool.eq_false_of_not_eq_true ?_
    intro hverify
    exact hne (hapart _ (List.mem_cons_of_mem _ List.mem_cons_self) _ List.mem_cons_self hverify)

section
open Security.Idealized

/-- A payload of Alice's. -/
def alicesPayload : IdentityBindPayload :=
  IdentityBindPayload.create crypto alice.ed25519 alice.x25519.pub 1700000000
    (Vector.replicate 12 7)

theorem sample_signsApart :
    SignsApart crypto alice.ed25519 [alicesPayload.signaturePayload, sample.signaturePayload] := by
  intro m hm m' hm' hverify
  rcases List.mem_pair.mp hm with rfl | rfl
  · rcases List.mem_pair.mp hm' with rfl | rfl
    · rfl
    · exact absurd hverify (by decide +kernel)
  · rcases List.mem_pair.mp hm' with rfl | rfl
    · exact absurd hverify (by decide +kernel)
    · rfl

theorem sample_not_payload :
    alicesPayload.signaturePayload ≠ sample.signaturePayload ∧
      crypto.ed25519Verify alice.ed25519.pub sample.signaturePayload
          (crypto.ed25519Sign alice.ed25519.secret alicesPayload.signaturePayload) = false ∧
        crypto.ed25519Verify alice.ed25519.pub alicesPayload.signaturePayload
          (crypto.ed25519Sign alice.ed25519.secret sample.signaturePayload) = false := by
  have hsample : sample.WellFormed := create_wellFormed
  obtain ⟨hne, hapart⟩ := signed_formats_disjoint alicesPayload hsample
  exact ⟨hne, hapart crypto alice.ed25519 sample_signsApart⟩

end

end DiscoveryBeacon
end Rubix.Networking
