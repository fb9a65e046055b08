/-
# `Rubix.Networking.Codec` — the frame codec, as the executor runs it

A frame is its payload's length in four big-endian bytes, then the payload.
`decode` is an `async fn`: it is polled, reads what the socket has, and where
that is not enough it waits with the bytes read so far in its own buffer.
`Decoding` is what such a suspended `decode` holds:

    length got        inside the first `read_exact`, with `got` of 4 bytes
    payload len got   inside the second, with `got` of `len` bytes

The bytes a decode has read are its alone (`consumed`): between two polls
nothing is lost, and a completed decode has read exactly one frame
(`poll_reads`).
-/
import Rubix.Lib.Bytes
import Rubix.Lib.Framing

namespace Rubix.Networking

inductive NetworkError where
  | connectionFailed (reason : String)
  | connectionTimeout (address : String)
  | handshakeFailed (reason : String)
  | handshakeTimeout (secs : Nat)
  | handshakeCancelled
  | identityMismatch (reason : String)
  | peerNotFound (peer : String)
  | peerNotTrusted (peer : String)
  | peerNotConnected (peer : String)
  | peerLimitExceeded (max : Nat)
  | connectionLimitExceeded (max : Nat)
  | alreadyConnected (peer : String)
  | encryptionFailed (reason : String)
  | decryptionFailed (reason : String)
  | sendFailed (reason : String)
  | recvFailed (reason : String)
  | frameTooLarge (size max : Nat)
  | connectionClosed
  | transportClosed (peer : String)
  | messageTooLarge (size max : Nat)
  | internal (reason : String)
  deriving DecidableEq

abbrev NetworkResult (α : Type) := Except NetworkError α

/-- Maximum allowed frame size (64KB plaintext + Noise overhead). -/
def maxFrameSize : Nat := 65536 + 64

/-- `EncryptedFrameCodec::encode`, on data that passes its assertion. -/
def encode (data : List UInt8) : List UInt8 := Bytes.toBe 4 data.length ++ data

/-- The assertion of `encode`. -/
def Encodable (data : List UInt8) : Prop := data.length ≤ maxFrameSize

instance (data : List UInt8) : Decidable (Encodable data) := Nat.decLe _ _

/-! ## Decoding -/

/-- How a read fails. -/
inductive IoError where
  | unexpectedEof
  | other (text : String)
  deriving DecidableEq

/-- The reading end of a connection: the bytes that have arrived and were not
read, and what the reader finds behind them, if not more to come. -/
structure Socket where
  bytes : List UInt8
  ending : Option IoError

/-- `map_err` on a read. -/
def readError (what : String) : IoError → NetworkError
  | .unexpectedEof => .connectionClosed
  | .other text => .recvFailed (what ++ text)

/-- A suspended `decode`. -/
inductive Decoding where
  | length (got : List UInt8)
  | payload (len : Nat) (got : List UInt8)
  deriving DecidableEq

/-- What a poll of `decode` comes to. -/
inductive Poll where
  | ready (result : NetworkResult (List UInt8))
  | pending (decoding : Decoding)

/-- A `decode` that was not polled yet. -/
def Decoding.fresh : Decoding := .length []

/-- One poll of `read_exact` on a buffer of `n` bytes: take what is missing, as
far as it is there. -/
def readExact (n : Nat) (got : List UInt8) (s : Socket) : List UInt8 × Socket :=
  (got ++ s.bytes.take (n - got.length), { s with bytes := s.bytes.drop (n - got.length) })

/-- A read that is still short: of more bytes to come, or of none. -/
def short (what : String) (s : Socket) (d : Decoding) : Poll :=
  match s.ending with
  | none => .pending d
  | some e => .ready (.error (readError what e))

/-- A poll in the second `read_exact`. -/
def pollPayload (len : Nat) (got : List UInt8) (s : Socket) : Poll × Socket :=
  let (got, s) := readExact len got s
  if got.length < len then (short "read payload: " s (.payload len got), s)
  else (.ready (.ok got), s)

/-- A poll of `EncryptedFrameCodec::decode`. -/
def poll (d : Decoding) (s : Socket) : Poll × Socket :=
  match d with
  | .length got =>
      let (got, s) := readExact 4 got s
      if got.length < 4 then (short "read length: " s (.length got), s)
      else if maxFrameSize < Bytes.ofBe got then
        (.ready (.error (.frameTooLarge (Bytes.ofBe got) maxFrameSize)), s)
      else pollPayload (Bytes.ofBe got) [] s
  | .payload len got => pollPayload len got s

/-! ## What a decode has read -/

/-- The bytes a suspended `decode` has taken from the socket. -/
def Decoding.consumed : Decoding → List UInt8
  | .length got => got
  | .payload len got => Bytes.toBe 4 len ++ got

/-- What a suspended `decode` can hold: less than it is reading. -/
def Decoding.WellFormed : Decoding → Prop
  | .length got => got.length < 4
  | .payload len got => got.length ≤ len ∧ len ≤ maxFrameSize

theorem wellFormed_fresh : Decoding.fresh.WellFormed := Nat.zero_lt_succ 3

/-- Reading moves bytes from the socket to the buffer. -/
theorem readExact_append (n : Nat) (got : List UInt8) (s : Socket) :
    (readExact n got s).1 ++ (readExact n got s).2.bytes = got ++ s.bytes := by
  rw [readExact, List.append_assoc, List.take_append_drop]

theorem length_readExact {n : Nat} {got : List UInt8} (h : got.length ≤ n) (s : Socket) :
    (readExact n got s).1.length ≤ n := by
  rw [readExact, List.length_append]
  have htake := List.length_take_le (n - got.length) s.bytes
  omega

/-- Where one poll leaves the bytes: with the decode that goes on, or in the
one frame it has read. -/
def Reads (taken rest : List UInt8) : Poll → Prop
  | .ready (.ok data) => Encodable data ∧ encode data ++ rest = taken
  | .ready (.error _) => True
  | .pending d => d.WellFormed ∧ d.consumed ++ rest = taken

theorem reads_short {what : String} {s : Socket} {d : Decoding} {taken : List UInt8}
    (hd : d.WellFormed) (h : d.consumed ++ s.bytes = taken) :
    Reads taken s.bytes (short what s d) := by
  rw [short]
  cases s.ending with
  | none => exact ⟨hd, h⟩
  | some e => trivial

theorem pollPayload_reads {len : Nat} {got : List UInt8} {s : Socket} {taken : List UInt8}
    (hgot : got.length ≤ len) (hlen : len ≤ maxFrameSize)
    (h : Bytes.toBe 4 len ++ got ++ s.bytes = taken) :
    Reads taken (pollPayload len got s).2.bytes (pollPayload len got s).1 := by
  have hmoved := readExact_append len got s
  have hbound := length_readExact hgot s
  have htaken : Bytes.toBe 4 len ++ (readExact len got s).1 ++ (readExact len got s).2.bytes
      = taken := by
    rw [← h, List.append_assoc, hmoved, List.append_assoc]
  simp only [pollPayload]
  split
  · exact reads_short ⟨hbound, hlen⟩ htaken
  · next hfull =>
      have hexact : (readExact len got s).1.length = len :=
        Nat.le_antisymm hbound (Nat.not_lt.mp hfull)
      refine ⟨Nat.le_trans (Nat.le_of_eq hexact) hlen, ?_⟩
      rw [encode, hexact]
      exact htaken

theorem poll_reads {d : Decoding} (hd : d.WellFormed) (s : Socket) :
    Reads (d.consumed ++ s.bytes) (poll d s).2.bytes (poll d s).1 := by
  cases d with
  | length got =>
      have hmoved := readExact_append 4 got s
      have hbound := length_readExact (Nat.le_of_lt hd) s
      simp only [poll, Decoding.consumed]
      rw [← hmoved]
      split
      · next hshort => exact reads_short hshort rfl
      · next hfull =>
          split
          · trivial
          · next hsize =>
              have hfour : (readExact 4 got s).1.length = 4 :=
                Nat.le_antisymm hbound (Nat.not_lt.mp hfull)
              have hheader := Bytes.toBe_ofBe (readExact 4 got s).1
              rw [hfour] at hheader
              refine pollPayload_reads (Nat.zero_le _) (Nat.not_lt.mp hsize) ?_
              rw [List.append_nil, hheader]
  | payload len got => exact pollPayload_reads hd.1 hd.2 rfl

/-! ## Frames -/

theorem ofBe_length {data : List UInt8} (h : Encodable data) :
    Bytes.ofBe (Bytes.toBe 4 data.length) = data.length :=
  Bytes.ofBe_toBe_of_lt (Nat.lt_of_le_of_lt h (by decide))

theorem encode_selfDelimiting : Framing.SelfDelimiting Encodable encode where
  nonempty data h := absurd (congrArg List.length h) (by simp [encode])
  settled {a b x y} ha hb h := by
    simp only [encode] at h
    rw [List.append_assoc, List.append_assoc] at h
    have hwidth : (Bytes.toBe 4 a.length).length = (Bytes.toBe 4 b.length).length := by
      rw [Bytes.length_toBe, Bytes.length_toBe]
    obtain ⟨hheader, hrest⟩ := List.append_inj h hwidth
    have hlength : a.length = b.length := by
      rw [← ofBe_length ha, hheader, ofBe_length hb]
    exact (List.append_inj hrest hlength).1

/-- What a read takes, of the bytes it holds and those that are there. -/
theorem readExact_eq {n : Nat} {got : List UInt8} (h : got.length ≤ n) (s : Socket) :
    readExact n got s = ((got ++ s.bytes).take n, { s with bytes := (got ++ s.bytes).drop n }) := by
  rw [readExact, List.take_append, List.drop_append, List.take_of_length_le h,
    List.drop_eq_nil_of_le h, List.nil_append]

/-- A poll in the second `read_exact`, with the whole payload there. -/
theorem pollPayload_whole {got data rest : List UInt8} {s : Socket}
    (hgot : got.length ≤ data.length) (h : got ++ s.bytes = data ++ rest) :
    pollPayload data.length got s = (.ready (.ok data), { s with bytes := rest }) := by
  simp only [pollPayload]
  rw [readExact_eq hgot, h, List.take_left' rfl, List.drop_left' rfl]
  dsimp only
  rw [if_neg (Nat.lt_irrefl _)]

/-- A decode at any point hands up the frame that is there as a whole. -/
theorem poll_whole {d : Decoding} (hd : d.WellFormed) {s : Socket} {data rest : List UInt8}
    (hdata : Encodable data) (h : d.consumed ++ s.bytes = encode data ++ rest) :
    poll d s = (.ready (.ok data), { s with bytes := rest }) := by
  rw [encode, List.append_assoc] at h
  cases d with
  | length got =>
      have hgot : got.length ≤ 4 := Nat.le_of_lt hd
      have hbytes : got ++ s.bytes = Bytes.toBe 4 data.length ++ (data ++ rest) := h
      have hwidth := Bytes.length_toBe 4 data.length
      simp only [poll]
      rw [readExact_eq hgot, hbytes, List.take_left' hwidth, List.drop_left' hwidth]
      dsimp only
      rw [hwidth, if_neg (Nat.lt_irrefl 4), ofBe_length hdata, if_neg (Nat.not_lt.mpr hdata)]
      exact pollPayload_whole (Nat.zero_le _) rfl
  | payload len got =>
      simp only [Decoding.consumed] at h
      rw [List.append_assoc] at h
      have hwidth : (Bytes.toBe 4 len).length = (Bytes.toBe 4 data.length).length := by
        rw [Bytes.length_toBe, Bytes.length_toBe]
      obtain ⟨hheader, hbytes⟩ := List.append_inj h hwidth
      have hlen : len = data.length := by
        rw [← ofBe_length hdata, ← hheader]
        exact (Bytes.ofBe_toBe_of_lt (Nat.lt_of_le_of_lt hd.2 (by decide))).symm
      subst hlen
      exact pollPayload_whole hd.1 hbytes

/-- Decoding undoes encoding, when the whole frame has arrived. -/
theorem poll_encode {data : List UInt8} (h : Encodable data) (rest : List UInt8)
    (ending : Option IoError) :
    poll .fresh ⟨encode data ++ rest, ending⟩ = (.ready (.ok data), ⟨rest, ending⟩) :=
  poll_whole wellFormed_fresh h rfl

/-- A whole frame, at the front of the bytes. -/
def WholeFrame (bytes : List UInt8) : Prop := ∃ data, Encodable data ∧ encode data <+: bytes

/-- A decode hands up a frame if and only if all of it has arrived. -/
theorem poll_ready_iff {d : Decoding} (hd : d.WellFormed) (s : Socket) :
    (∃ data, (poll d s).1 = .ready (.ok data)) ↔ WholeFrame (d.consumed ++ s.bytes) := by
  constructor
  · rintro ⟨data, hready⟩
    have hreads := poll_reads hd s
    rw [hready] at hreads
    obtain ⟨hdata, htaken⟩ := hreads
    exact ⟨data, hdata, _, htaken⟩
  · rintro ⟨data, hdata, rest, htaken⟩
    refine ⟨data, ?_⟩
    rw [poll_whole hd hdata htaken.symm]

end Rubix.Networking
