/-
# `Rubix.Security.Sealing` — a transport under its two counters

Behind the handshake the Noise library keeps a key and a counter for each
direction.  It seals a payload under the one it sends with, opens a message
under the one it receives with if that message is what sealing makes of a
payload, and counts on:

    call             succeeds                        fails
    write_message    the counter sent with counts    both stay
    read_message     the counter received with       both stay

`Sealing` is what the library documents of this, and `Complete` adds when it
succeeds.  `encrypt` and `decrypt` do the same to the counters
(`encrypt_cases`, `decrypt_cases`), whatever size they are given.
-/
import Rubix.Security.Transport

namespace Rubix.Security

variable {T κ : Type}

/-- One direction of a session. -/
structure CipherState (κ : Type) where
  key : κ
  nonce : Nat

def CipherState.next (c : CipherState κ) : CipherState κ := { c with nonce := c.nonce + 1 }

@[simp] theorem CipherState.next_mk (key : κ) (n : Nat) :
    (CipherState.mk key n).next = ⟨key, n + 1⟩ := rfl

/-- The counters of a transport state, and what the library does to them. -/
structure Sealing (snow : SnowTransport T) (κ : Type) where
  sending : T → CipherState κ
  receiving : T → CipherState κ
  ciphertext : CipherState κ → List UInt8 → List UInt8
  /-- What was sealed can be opened. -/
  injective : ∀ {c payload payload'},
    ciphertext c payload = ciphertext c payload' → payload = payload'
  written : ∀ {t payload capacity message t'},
    snow.writeMessage t payload capacity = (.ok message, t') →
      message = ciphertext (sending t) payload ∧ sending t' = (sending t).next ∧
        receiving t' = receiving t
  unwritten : ∀ {t payload capacity e t'},
    snow.writeMessage t payload capacity = (.error e, t') →
      sending t' = sending t ∧ receiving t' = receiving t
  read : ∀ {t message capacity payload t'},
    snow.readMessage t message capacity = (.ok payload, t') →
      message = ciphertext (receiving t) payload ∧ receiving t' = (receiving t).next ∧
        sending t' = sending t
  unread : ∀ {t message capacity e t'},
    snow.readMessage t message capacity = (.error e, t') →
      sending t' = sending t ∧ receiving t' = receiving t

/-- The counter that is never used: the largest of 64 bits. -/
def noiseMaxNonce : Nat := 18446744073709551615

namespace Sealing

variable {snow : SnowTransport T} (S : Sealing snow κ)

/-- The calls succeed on what fits a Noise message, until the counter is used
up. -/
structure Complete (S : Sealing snow κ) : Prop where
  length : ∀ c payload, (S.ciphertext c payload).length = payload.length + aeadTagSize
  writes : ∀ {t payload}, payload.length + aeadTagSize ≤ noiseMaxMessage →
    (S.sending t).nonce < noiseMaxNonce →
      ∃ message t', snow.writeMessage t payload (payload.length + aeadTagSize) = (.ok message, t')
  reads : ∀ {t payload}, payload.length + aeadTagSize ≤ noiseMaxMessage →
    (S.receiving t).nonce < noiseMaxNonce →
      ∃ t', snow.readMessage t (S.ciphertext (S.receiving t) payload)
        (S.ciphertext (S.receiving t) payload).length = (.ok payload, t')

/-! ## `encrypt` and `decrypt` -/

theorem encrypt_cases (plaintext : List UInt8) (t : T) :
    (∃ t', Transport.encrypt snow plaintext t = (.ok (S.ciphertext (S.sending t) plaintext), t') ∧
      S.sending t' = (S.sending t).next ∧ S.receiving t' = S.receiving t) ∨
    ∃ e t', Transport.encrypt snow plaintext t = (.error e, t') ∧
      S.sending t' = S.sending t ∧ S.receiving t' = S.receiving t := by
  rw [Transport.encrypt]
  split
  · exact .inr ⟨_, t, rfl, rfl, rfl⟩
  · rcases hwrite : snow.writeMessage t plaintext (plaintext.length + aeadTagSize) with ⟨r, t'⟩
    cases r with
    | error e =>
        obtain ⟨hsending, hreceiving⟩ := S.unwritten hwrite
        exact .inr ⟨_, t', rfl, hsending, hreceiving⟩
    | ok message =>
        obtain ⟨rfl, hsending, hreceiving⟩ := S.written hwrite
        exact .inl ⟨t', rfl, hsending, hreceiving⟩

theorem decrypt_cases (ciphertext : List UInt8) (t : T) :
    (∃ plaintext t', Transport.decrypt snow ciphertext t = (.ok plaintext, t') ∧
      ciphertext = S.ciphertext (S.receiving t) plaintext ∧
      S.receiving t' = (S.receiving t).next ∧ S.sending t' = S.sending t) ∨
    ∃ e t', Transport.decrypt snow ciphertext t = (.error e, t') ∧
      S.sending t' = S.sending t ∧ S.receiving t' = S.receiving t := by
  rw [Transport.decrypt]
  split
  · exact .inr ⟨_, t, rfl, rfl, rfl⟩
  · rcases hread : snow.readMessage t ciphertext ciphertext.length with ⟨r, t'⟩
    cases r with
    | error e =>
        obtain ⟨hsending, hreceiving⟩ := S.unread hread
        exact .inr ⟨_, t', rfl, hsending, hreceiving⟩
    | ok plaintext =>
        obtain ⟨hsealed, hreceiving, hsending⟩ := S.read hread
        exact .inl ⟨plaintext, t', rfl, hsealed, hreceiving, hsending⟩

variable {S}

/-- What fits a Noise message is encrypted. -/
theorem Complete.encrypt (h : S.Complete) {plaintext : List UInt8} {t : T}
    (hfits : plaintext.length + aeadTagSize ≤ noiseMaxMessage)
    (hnonce : (S.sending t).nonce < noiseMaxNonce) :
    ∃ t', Transport.encrypt snow plaintext t = (.ok (S.ciphertext (S.sending t) plaintext), t') ∧
      S.sending t' = (S.sending t).next ∧ S.receiving t' = S.receiving t := by
  have hsmall : ¬ maxTransportMsgSize < plaintext.length := by
    have hlimit : plaintext.length + 16 ≤ 65535 := hfits
    rw [maxTransportMsgSize]
    omega
  obtain ⟨message, t', hwrite⟩ := h.writes hfits hnonce
  obtain ⟨rfl, hsending, hreceiving⟩ := S.written hwrite
  refine ⟨t', ?_, hsending, hreceiving⟩
  rw [Transport.encrypt, if_neg hsmall, hwrite]

/-- What was sealed under the counter is decrypted. -/
theorem Complete.decrypt (h : S.Complete) {plaintext : List UInt8} {t : T}
    (hfits : plaintext.length + aeadTagSize ≤ noiseMaxMessage)
    (hnonce : (S.receiving t).nonce < noiseMaxNonce) :
    ∃ t', Transport.decrypt snow (S.ciphertext (S.receiving t) plaintext) t = (.ok plaintext, t') ∧
      S.receiving t' = (S.receiving t).next ∧ S.sending t' = S.sending t := by
  have hsmall : ¬ maxTransportFrameSize < (S.ciphertext (S.receiving t) plaintext).length := by
    have hlimit : plaintext.length + 16 ≤ 65535 := hfits
    rw [h.length, maxTransportFrameSize, maxTransportMsgSize, aeadTagSize]
    omega
  obtain ⟨t', hread⟩ := h.reads hfits hnonce
  obtain ⟨-, hreceiving, hsending⟩ := S.read hread
  refine ⟨t', ?_, hreceiving, hsending⟩
  rw [Transport.decrypt, if_neg hsmall, hread]

end Sealing

/-! ## A transport that seals with its counter -/

/-- A tag of the key and the counter. -/
def counterTag (c : CipherState Nat) : List UInt8 :=
  UInt8.ofNat c.key :: List.replicate 15 (UInt8.ofNat c.nonce)

/-- The counter sent with, and the one received with.  A message is its payload
and the tag. -/
def counterSnow : SnowTransport (CipherState Nat × CipherState Nat) where
  writeMessage t payload capacity :=
    if noiseMaxMessage < payload.length + aeadTagSize ∨ capacity < payload.length + aeadTagSize ∨
        noiseMaxNonce ≤ t.1.nonce then (.error "input error", t)
    else (.ok (payload ++ counterTag t.1), (t.1.next, t.2))
  readMessage t message capacity :=
    if noiseMaxMessage < message.length ∨ message.length < aeadTagSize ∨
        capacity < message.length - aeadTagSize ∨ noiseMaxNonce ≤ t.2.nonce then
      (.error "input error", t)
    else if message.drop (message.length - aeadTagSize) ≠ counterTag t.2 then
      (.error "decrypt error", t)
    else (.ok (message.take (message.length - aeadTagSize)), (t.1, t.2.next))

theorem length_counterTag (c : CipherState Nat) : (counterTag c).length = aeadTagSize := by
  rw [counterTag, List.length_cons, List.length_replicate]
  rfl

def counterSealing : Sealing counterSnow Nat where
  sending := Prod.fst
  receiving := Prod.snd
  ciphertext c payload := payload ++ counterTag c
  injective h := List.append_cancel_right h
  written {t payload capacity message t'} h := by
    simp only [counterSnow] at h
    split at h
    · cases h
    · cases h
      exact ⟨rfl, rfl, rfl⟩
  unwritten {t payload capacity e t'} h := by
    simp only [counterSnow] at h
    split at h
    · cases h
      exact ⟨rfl, rfl⟩
    · cases h
  read {t message capacity payload t'} h := by
    simp only [counterSnow] at h
    split at h
    · cases h
    · split at h
      · cases h
      · next htag =>
          cases h
          rw [← Decidable.not_not.mp htag, List.take_append_drop]
          exact ⟨rfl, rfl, rfl⟩
  unread {t message capacity e t'} h := by
    simp only [counterSnow] at h
    split at h
    · cases h
      exact ⟨rfl, rfl⟩
    · split at h
      · cases h
        exact ⟨rfl, rfl⟩
      · cases h

theorem counterSealing_complete : counterSealing.Complete where
  length c payload := by
    show (payload ++ counterTag c).length = _
    rw [List.length_append, length_counterTag]
  writes {t payload} hfits hnonce := by
    have hgood : ¬ (noiseMaxMessage < payload.length + aeadTagSize ∨
        payload.length + aeadTagSize < payload.length + aeadTagSize ∨
        noiseMaxNonce ≤ t.1.nonce) := by
      have hcounter : t.1.nonce < noiseMaxNonce := hnonce
      omega
    exact ⟨_, _, if_neg hgood⟩
  reads {t payload} hfits hnonce := by
    show ∃ t', counterSnow.readMessage t (payload ++ counterTag t.2)
      (payload ++ counterTag t.2).length = (.ok payload, t')
    have hlength : (payload ++ counterTag t.2).length = payload.length + aeadTagSize := by
      rw [List.length_append, length_counterTag]
    have hgood : ¬ (noiseMaxMessage < payload.length + aeadTagSize ∨
        payload.length + aeadTagSize < aeadTagSize ∨
        payload.length + aeadTagSize < payload.length + aeadTagSize - aeadTagSize ∨
        noiseMaxNonce ≤ t.2.nonce) := by
      have hcounter : t.2.nonce < noiseMaxNonce := hnonce
      omega
    refine ⟨(t.1, t.2.next), ?_⟩
    simp only [counterSnow, hlength]
    rw [if_neg hgood, Nat.add_sub_cancel, List.drop_left' rfl, if_neg fun h => h rfl,
      List.take_left' rfl]

end Rubix.Security
