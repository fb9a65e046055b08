/-
# `Rubix.Networking.FrameStream` — decoding a stream that is all there

`decode` on a stream whose bytes have all arrived, up to the error `ending`
that the reader finds behind them.  It reads the header, checks the length,
reads the payload:

    header        length          payload       result                consumed
    short                                       closed                everything
    there         over the max    not read      FrameTooLarge         4
    there         within it       short         closed                everything
    there         within it       there         the payload           4 + length

This is what one poll of a suspended `decode` comes to (`poll_fresh`).  Run
until it fails it gives back the frames that were encoded, wherever the stream
was cut (`lossless`).
-/
import Rubix.Networking.Codec

namespace Rubix.Networking

/-- `read_exact` of `n` bytes; a short read takes what there is. -/
def readAll (n : Nat) (bytes : List UInt8) : Option (List UInt8) × List UInt8 :=
  if n ≤ bytes.length then (some (bytes.take n), bytes.drop n) else (none, [])

/-- `EncryptedFrameCodec::decode` -/
def decode (ending : IoError) (bytes : List UInt8) : NetworkResult (List UInt8) × List UInt8 :=
  match readAll 4 bytes with
  | (none, rest) => (.error (readError "read length: " ending), rest)
  | (some header, rest) =>
      if maxFrameSize < Bytes.ofBe header then
        (.error (.frameTooLarge (Bytes.ofBe header) maxFrameSize), rest)
      else
        match readAll (Bytes.ofBe header) rest with
        | (none, rest) => (.error (readError "read payload: " ending), rest)
        | (some payload, rest) => (.ok payload, rest)

/-! ## One frame -/

section
variable {ending : IoError} {bytes rest data : List UInt8}

theorem readAll_append {front : List UInt8} {n : Nat} (h : front.length = n) (rest : List UInt8) :
    readAll n (front ++ rest) = (some front, rest) := by
  have hle : n ≤ (front ++ rest).length := by
    rw [List.length_append]
    omega
  rw [readAll, if_pos hle, List.take_left' h, List.drop_left' h]

theorem readAll_short {n : Nat} (h : bytes.length < n) : readAll n bytes = (none, []) :=
  if_neg (Nat.not_le.mpr h)

theorem decode_encode (h : Encodable data) (rest : List UInt8) :
    decode ending (encode data ++ rest) = (.ok data, rest) := by
  rw [decode, encode, List.append_assoc, readAll_append (Bytes.length_toBe 4 _)]
  dsimp only
  rw [ofBe_length h, if_neg (Nat.not_lt.mpr h), readAll_append rfl]

theorem readAll_eq_some {n : Nat} {front : List UInt8} (h : readAll n bytes = (some front, rest)) :
    front.length = n ∧ bytes = front ++ rest := by
  rw [readAll] at h
  split at h
  · next hle =>
      cases h
      exact ⟨List.length_take_of_le hle, (List.take_append_drop n bytes).symm⟩
  · exact nomatch h

/-- What a decode that succeeds has consumed. -/
theorem decode_ok (h : decode ending bytes = (.ok data, rest)) :
    Encodable data ∧ bytes = encode data ++ rest := by
  rw [decode] at h
  split at h
  · exact nomatch h
  · next header behind hheader =>
      obtain ⟨hfour, rfl⟩ := readAll_eq_some hheader
      split at h
      · exact nomatch h
      · next hsize =>
          split at h
          · exact nomatch h
          · next payload rest' hpayload =>
              obtain ⟨hlength, rfl⟩ := readAll_eq_some hpayload
              cases h
              have hencoded := Bytes.toBe_ofBe header
              rw [hfour] at hencoded
              refine ⟨?_, ?_⟩
              · rw [Encodable, hlength]
                exact Nat.not_lt.mp hsize
              · rw [encode, hlength, hencoded, List.append_assoc]

/-- `FrameTooLarge` is decided by the header alone. -/
theorem decode_tooLarge {size max : Nat} :
    decode ending bytes = (.error (.frameTooLarge size max), rest) ↔
      4 ≤ bytes.length ∧ maxFrameSize < Bytes.ofBe (bytes.take 4) ∧
        size = Bytes.ofBe (bytes.take 4) ∧ max = maxFrameSize ∧ rest = bytes.drop 4 := by
  have hread : ∀ what, readError what ending ≠ .frameTooLarge size max := by
    intro what
    cases ending <;> exact NetworkError.noConfusion
  rw [decode, readAll]
  by_cases hfour : 4 ≤ bytes.length
  · rw [if_pos hfour]
    dsimp only
    split
    · next hsize =>
        constructor
        · intro h
          cases h
          exact ⟨hfour, hsize, rfl, rfl, rfl⟩
        · rintro ⟨-, -, rfl, rfl, rfl⟩
          rfl
    · next hsize =>
        constructor
        · intro h
          split at h
          · exact absurd (Except.error.inj (Prod.mk.inj h).1) (hread _)
          · exact nomatch h
        · rintro ⟨-, hover, -⟩
          exact absurd hover hsize
  · rw [if_neg hfour]
    constructor
    · intro h
      exact absurd (Except.error.inj (Prod.mk.inj h).1) (hread _)
    · rintro ⟨hheader, -⟩
      exact absurd hheader hfour

/-- A stream that ends inside a frame. -/
theorem decode_cut {front : List UInt8} (h : Encodable data) (hfront : front <+: encode data)
    (hne : front ≠ encode data) :
    decode .unexpectedEof front = (.error .connectionClosed, []) := by
  have hlt : front.length < (encode data).length :=
    Nat.lt_of_le_of_ne hfront.length_le fun heq => hne (hfront.eq_of_length heq)
  have htotal : (encode data).length = 4 + data.length := by
    rw [encode, List.length_append, Bytes.length_toBe]
  by_cases hfour : 4 ≤ front.length
  · -- the header is there, the payload is not
    have hheader : front.take 4 = Bytes.toBe 4 data.length := by
      have htake : front.take 4 = (encode data).take 4 := by
        obtain ⟨rest, hrest⟩ := hfront
        rw [← hrest, List.take_append_of_le_length hfour]
      rw [htake, encode, List.take_left' (Bytes.length_toBe 4 _)]
    have hshort : (front.drop 4).length < data.length := by
      rw [List.length_drop]
      omega
    rw [decode, readAll, if_pos hfour]
    dsimp only
    rw [hheader, ofBe_length h, if_neg (Nat.not_lt.mpr h), readAll_short hshort]
    rfl
  · rw [decode, readAll_short (Nat.not_le.mp hfour)]
    rfl

end

/-- A read that starts on such a stream: it fills its buffer, or takes it all. -/
theorem readExact_fresh (n : Nat) (bytes : List UInt8) (ending : IoError) :
    (n ≤ bytes.length ∧
        readExact n [] ⟨bytes, some ending⟩ = (bytes.take n, ⟨bytes.drop n, some ending⟩)) ∨
      bytes.length < n ∧ readExact n [] ⟨bytes, some ending⟩ = (bytes, ⟨[], some ending⟩) := by
  rw [readExact, List.nil_append, List.length_nil, Nat.sub_zero]
  rcases Nat.lt_or_ge bytes.length n with hlt | hle
  · rw [List.take_of_length_le (Nat.le_of_lt hlt), List.drop_of_length_le (Nat.le_of_lt hlt)]
    exact .inr ⟨hlt, rfl⟩
  · exact .inl ⟨hle, rfl⟩

/-- A poll of a `decode` on such a stream settles it. -/
theorem poll_fresh (ending : IoError) (bytes : List UInt8) :
    poll .fresh ⟨bytes, some ending⟩
      = (.ready (decode ending bytes).1, ⟨(decode ending bytes).2, some ending⟩) := by
  have hpayload : ∀ len behind, pollPayload len [] ⟨behind, some ending⟩
      = match readAll len behind with
        | (none, rest) => (.ready (.error (readError "read payload: " ending)), ⟨rest, some ending⟩)
        | (some payload, rest) => (.ready (.ok payload), ⟨rest, some ending⟩) := by
    intro len behind
    rcases readExact_fresh len behind ending with ⟨hle, hread⟩ | ⟨hlt, hread⟩
    · rw [pollPayload, hread, readAll, if_pos hle]
      dsimp only
      rw [List.length_take_of_le hle, if_neg (Nat.lt_irrefl len)]
    · rw [pollPayload, hread, readAll_short hlt]
      dsimp only
      rw [if_pos hlt]
      rfl
  rcases readExact_fresh 4 bytes ending with ⟨hle, hread⟩ | ⟨hlt, hread⟩
  · rw [Decoding.fresh, poll, hread, decode, readAll, if_pos hle]
    dsimp only
    rw [List.length_take_of_le hle, if_neg (Nat.lt_irrefl 4)]
    split
    · rfl
    · rw [hpayload]
      rcases readAll (Bytes.ofBe (bytes.take 4)) (bytes.drop 4) with ⟨payload?, rest⟩
      cases payload? with
      | none => rfl
      | some payload => rfl
  · rw [Decoding.fresh, poll, hread, decode, readAll_short hlt]
    dsimp only
    rw [if_pos hlt]
    rfl

/-! ## The frames of a stream -/

theorem decode_shrinks (h : decode ending bytes = (.ok data, rest)) :
    rest.length < bytes.length := by
  rw [(decode_ok h).2, List.length_append, encode, List.length_append, Bytes.length_toBe]
  omega

/-- `decode` on a stream that ends, again and again. -/
def decoder : Framing.Decoder (List UInt8) UInt8 NetworkError where
  decode := decode .unexpectedEof
  shrinks := decode_shrinks

theorem decoder_reads : decoder.Reads Encodable encode .connectionClosed where
  whole h rest := decode_encode h rest
  cut h hfront hne := decode_cut h hfront hne
  nothing := rfl

/-- A decode that succeeds consumes the header and as many bytes as it
declares, and returns them; one that fails does so with `FrameTooLarge`, and
before any byte of the payload, exactly when the declared length is over the
limit. -/
def DecodesOne (ending : IoError) (bytes : List UInt8) : Prop :=
  (∀ data rest, decode ending bytes = (.ok data, rest) →
      4 ≤ bytes.length ∧ data.length = Bytes.ofBe (bytes.take 4) ∧
        bytes = bytes.take 4 ++ data ++ rest) ∧
    ∀ size max rest, decode ending bytes = (.error (.frameTooLarge size max), rest) ↔
      4 ≤ bytes.length ∧ maxFrameSize < Bytes.ofBe (bytes.take 4) ∧
        size = Bytes.ofBe (bytes.take 4) ∧ max = maxFrameSize ∧ rest = bytes.drop 4

theorem decodesOne (ending : IoError) (bytes : List UInt8) : DecodesOne ending bytes := by
  constructor
  · intro data rest h
    obtain ⟨hdata, rfl⟩ := decode_ok h
    have hheader : (encode data ++ rest).take 4 = Bytes.toBe 4 data.length := by
      rw [encode, List.append_assoc, List.take_left' (Bytes.length_toBe 4 _)]
    rw [hheader]
    refine ⟨?_, (ofBe_length hdata).symm, rfl⟩
    rw [encode, List.length_append, List.length_append, Bytes.length_toBe]
    omega
  · intro size max rest
    exact decode_tooLarge

/-- Framing loses nothing: the frames of a stream come back, all of them; on a
stream cut short, those that are there as a whole; and on any stream a decode
reads one frame, or fails. -/
theorem lossless {payloads : List (List UInt8)} (h : ∀ data ∈ payloads, Encodable data) :
    decoder.drain (Framing.stream encode payloads) = (payloads, .connectionClosed, []) ∧
      (∀ front, front <+: Framing.stream encode payloads →
        ∃ k, decoder.drain front = (payloads.take k, .connectionClosed, []) ∧
          Framing.stream encode (payloads.take k) <+: front ∧
          ∀ j ≤ payloads.length, Framing.stream encode (payloads.take j) <+: front → j ≤ k) ∧
      ∀ ending bytes, DecodesOne ending bytes :=
  ⟨decoder_reads.drain_stream h, fun _ hfront => decoder_reads.drain_front h hfront, decodesOne⟩

/-- An empty frame, and one of three bytes. -/
theorem lossless_pair :
    decoder.drain (Framing.stream encode [[], [1, 2, 3]]) = ([[], [1, 2, 3]], .connectionClosed, []) ∧
      (∀ front, front <+: Framing.stream encode [[], [1, 2, 3]] →
        ∃ k, decoder.drain front = ([[], [1, 2, 3]].take k, .connectionClosed, []) ∧
          Framing.stream encode ([[], [1, 2, 3]].take k) <+: front ∧
          ∀ j ≤ [[], [1, 2, 3]].length,
            Framing.stream encode ([[], [1, 2, 3]].take j) <+: front → j ≤ k) ∧
      ∀ ending bytes, DecodesOne ending bytes := by
  apply lossless
  intro data hdata
  simp only [List.mem_cons, List.not_mem_nil, or_false] at hdata
  rcases hdata with rfl | rfl
  · decide
  · decide

end Rubix.Networking
