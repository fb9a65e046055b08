/-
# `Rubix.Networking.UdpDiscovery` — from a beacon to a known peer

A beacon goes through its JSON text and a datagram of at most 4096 bytes, and
is verified by a clock of its own.  An honest one arrives whole
(`length_toBytes_create`) and, within a minute either way, as the peer that
sent it (`honest_discovered`).
-/
import Rubix.Networking.Beacon
import Rubix.Networking.ConnectionManager

namespace Rubix.Networking

open Security (Crypto Ed25519Keypair X25519PublicKey deriveFingerprint)
open DiscoveryBeacon (create hex decode_hex)

/-- Maximum beacon size: the buffer a datagram is received into. -/
def maxBeaconSize : Nat := 4096

/-- The X25519 key of a beacon, if its text is one. -/
def DiscoveryBeacon.x25519Key (b : DiscoveryBeacon) : Option X25519PublicKey :=
  (Hex.decode b.x25519Public.toList).bind (DiscoveryBeacon.arrayFromSlice 32)

namespace UdpListener

/-- `process_beacon`, with what `serde_json::from_slice` makes of the bytes and
the readings of both clocks.  The source takes the address from a field
`source_ip` that the beacon does not have, so it is an argument here. -/
def processBeacon (crypto : Crypto) (fromSlice : List UInt8 → Option DiscoveryBeacon)
    (sourceIp : Option String) (data : List UInt8) (now : UnixSeconds) (utc : DateTime) :
    Option PeerInfo :=
  match fromSlice data with
  | none => none
  | some beacon =>
      match beacon.verify crypto now with
      | .error _ => none
      | .ok () =>
          match Fingerprint.fromHex beacon.fingerprint with
          | .error _ => none
          | .ok fingerprint => some
              { fingerprint
                displayName := beacon.displayName
                ipAddress := sourceIp.getD "0.0.0.0"
                tcpPort := beacon.tcpPort.toNat
                x25519Public := beacon.x25519Key
                lastSeen := utc }

/-- One turn of `run`: what does not fit the buffer is cut off. -/
def receive (crypto : Crypto) (fromSlice : List UInt8 → Option DiscoveryBeacon)
    (sourceIp : Option String) (datagram : List UInt8) (now : UnixSeconds) (utc : DateTime) :
    Option PeerInfo :=
  processBeacon crypto fromSlice sourceIp (datagram.take maxBeaconSize) now utc

end UdpListener

namespace DiscoveryBeacon

variable {crypto : Crypto} {identity : Ed25519Keypair} {x25519 : X25519PublicKey}
  {tcpPort : UInt16} {displayName : String} {now : UnixSeconds}

/-! ## The size of a beacon -/

theorem byteLen_hex (bytes : List UInt8) : Utf8.byteLen (hex bytes).toList = 2 * bytes.length := by
  rw [hex, String.toList_ofList, Utf8.byteLen_of_ascii, Hex.length_encode]
  intro c hc
  exact Hex.ascii_of_isDigit (Hex.isDigit_of_mem_encode c hc)

theorem byteLen_fingerprint_le (fp : Fingerprint) :
    Utf8.byteLen fp.toFormattedString.toList ≤ 80 := by
  rw [Utf8.byteLen_of_ascii]
  · rw [Fingerprint.toFormattedString, String.toList_ofList]
    have hlen := Hex.length_intercalate_chunks_le (n := 4) (by omega) '-'
      (Hex.encodeUpper fp.bytes.toList)
    rw [Hex.length_encodeUpper, fp.bytes.length_toList] at hlen
    omega
  · intro c hc
    rcases Fingerprint.mem_toFormattedString hc with rfl | hc
    · decide
    · exact Hex.ascii_of_isDigit hc

/-- What bounds the text of any beacon. -/
theorem byteLen_toJson_le (b : DiscoveryBeacon) :
    Utf8.byteLen b.toJson ≤ 6 * (Utf8.byteLen b.displayName.toList +
      Utf8.byteLen b.ed25519Public.toList + Utf8.byteLen b.x25519Public.toList +
      Utf8.byteLen b.fingerprint.toList + Utf8.byteLen b.signature.toList) + 700 := by
  have hname := Json.byteLen_string_le b.displayName
  have hed := Json.byteLen_string_le b.ed25519Public
  have hx := Json.byteLen_string_le b.x25519Public
  have hfp := Json.byteLen_string_le b.fingerprint
  have hsig := Json.byteLen_string_le b.signature
  have hversion : Utf8.byteLen (Json.number b.version.toNat) ≤ 4 * 5 :=
    Json.byteLen_number_le (by decide) (Nat.lt_trans b.version.toNat_lt (by decide))
  have hport : Utf8.byteLen (Json.number b.tcpPort.toNat) ≤ 4 * 5 :=
    Json.byteLen_number_le (by decide) (Nat.lt_trans b.tcpPort.toNat_lt (by decide))
  have htime : Utf8.byteLen (Json.number b.timestamp.toNat) ≤ 4 * 20 :=
    Json.byteLen_number_le (by decide) (Nat.lt_trans b.timestamp.toNat_lt (by decide))
  have hobject := Json.byteLen_object_le
    [("version", Json.number b.version.toNat),
      ("display_name", Json.string b.displayName),
      ("ed25519_public", Json.string b.ed25519Public),
      ("x25519_public", Json.string b.x25519Public),
      ("fingerprint", Json.string b.fingerprint),
      ("tcp_port", Json.number b.tcpPort.toNat),
      ("timestamp", Json.number b.timestamp.toNat),
      ("signature", Json.string b.signature)]
  -- the names of the eight members
  have hnames : (["version", "display_name", "ed25519_public", "x25519_public", "fingerprint",
      "tcp_port", "timestamp", "signature"].map fun s => 6 * Utf8.byteLen s.toList + 4).sum = 530 :=
    by decide
  simp only [List.map_cons, List.map_nil, List.sum_cons, List.sum_nil, Json.memberBound]
    at hobject hnames
  rw [toJson]
  omega

/-- An admissible name fits, whatever has to be escaped in it. -/
theorem length_toBytes_create (hname : validateDisplayName displayName = .ok ()) :
    (create crypto identity x25519 tcpPort displayName now).toBytes.length ≤ maxBeaconSize := by
  have hlen : Utf8.byteLen displayName.toList ≤ 64 := by
    rw [← Utf8.utf8ByteSize_eq]
    exact size_of_validateDisplayName hname
  have hfp := byteLen_fingerprint_le (deriveFingerprint crypto identity.pub x25519)
  have hjson := byteLen_toJson_le (create crypto identity x25519 tcpPort displayName now)
  simp only [create, byteLen_hex, Vector.length_toList] at hjson
  rw [toBytes, Utf8.length_encode, maxBeaconSize]
  refine Nat.le_trans hjson ?_
  omega

/-! ## An honest beacon -/

theorem arrayFromSlice_toList {n : Nat} (v : Vector UInt8 n) :
    arrayFromSlice n v.toList = some v := by
  rw [arrayFromSlice, if_pos v.length_toList]
  congr 1
  refine Vector.ext ?_
  intro i hi
  simp [Security.IdentityBindPayload.field, List.getD_eq_getElem?_getD]

theorem toNat_timestamp_create :
    (create crypto identity x25519 tcpPort displayName now).timestamp.toNat = now.secs := by
  have hsmall : now.secs < 18446744073709551616 := Nat.lt_trans now.lt (by decide)
  show (UInt64.ofNat now.secs).toNat = now.secs
  rw [UInt64.toNat_ofNat']
  exact Nat.mod_eq_of_lt hsmall

/-- Within a minute either way, the checks of `verify` pass one after the other. -/
theorem verify_create (hsigns : crypto.Signs identity) {now' : UnixSeconds}
    (hfuture : now.secs ≤ now'.secs + 60) (hpast : now'.secs ≤ now.secs + 60) :
    (create crypto identity x25519 tcpPort displayName now).verify crypto now' = .ok () := by
  have htime : (create crypto identity x25519 tcpPort displayName now).timestamp.toNat = now.secs :=
    toNat_timestamp_create
  generalize hb : create crypto identity x25519 tcpPort displayName now = b at htime
  have hed : Hex.decode b.ed25519Public.toList = some identity.pub.toList := hb ▸ decode_hex _
  have hx : Hex.decode b.x25519Public.toList = some x25519.toList := hb ▸ decode_hex _
  have hfp : Fingerprint.fromHex b.fingerprint
      = .ok (deriveFingerprint crypto identity.pub x25519) :=
    hb ▸ Fingerprint.fromHex_toFormattedString _
  have hsig : Hex.decode b.signature.toList
      = some (crypto.ed25519Sign identity.secret b.signaturePayload).toList := hb ▸ decode_hex _
  have hnotFuture : ¬ now'.secs + beaconMaxAgeSecs < b.timestamp.toNat := by
    rw [htime, beaconMaxAgeSecs]
    omega
  have hnotOld : ¬ b.timestamp.toNat + beaconMaxAgeSecs < now'.secs := by
    rw [htime, beaconMaxAgeSecs]
    omega
  rw [verify, if_neg hnotFuture, if_neg hnotOld, hed, hx, hfp, hsig]
  simp only [orErr, arrayFromSlice_toList, Except.toOption, bind, Except.bind, hsigns _, if_true,
    ne_eq, not_true_eq_false, if_false]

/-- What the listener makes of an honest beacon within a minute either way. -/
theorem processBeacon_create {fromSlice : List UInt8 → Option DiscoveryBeacon}
    (hsigns : crypto.Signs identity)
    (hjson : fromSlice (create crypto identity x25519 tcpPort displayName now).toBytes
      = some (create crypto identity x25519 tcpPort displayName now))
    {now' : UnixSeconds} (utc : DateTime) (sourceIp : Option String)
    (hfuture : now.secs ≤ now'.secs + 60) (hpast : now'.secs ≤ now.secs + 60) :
    UdpListener.processBeacon crypto fromSlice sourceIp
        (create crypto identity x25519 tcpPort displayName now).toBytes now' utc = some
      { fingerprint := deriveFingerprint crypto identity.pub x25519
        displayName
        ipAddress := sourceIp.getD "0.0.0.0"
        tcpPort := tcpPort.toNat
        x25519Public := some x25519
        lastSeen := utc } := by
  have hverify : (create crypto identity x25519 tcpPort displayName now).verify crypto now'
      = .ok () := verify_create hsigns hfuture hpast
  have hfp : Fingerprint.fromHex (create crypto identity x25519 tcpPort displayName now).fingerprint
      = .ok (deriveFingerprint crypto identity.pub x25519) :=
    Fingerprint.fromHex_toFormattedString _
  have hkey : (create crypto identity x25519 tcpPort displayName now).x25519Key = some x25519 := by
    show (Hex.decode (hex x25519.toList).toList).bind (arrayFromSlice 32) = some x25519
    rw [decode_hex, Option.bind_some, arrayFromSlice_toList]
  simp only [UdpListener.processBeacon, hjson, hverify, hfp, hkey]
  rfl

/-- An honest peer is discovered: its beacon fits the datagram, and within a
minute either way the listener makes of it the peer that sent it. -/
theorem honest_discovered {fromSlice : List UInt8 → Option DiscoveryBeacon}
    (hsigns : crypto.Signs identity) (hname : validateDisplayName displayName = .ok ())
    (hjson : fromSlice (create crypto identity x25519 tcpPort displayName now).toBytes
      = some (create crypto identity x25519 tcpPort displayName now)) :
    (create crypto identity x25519 tcpPort displayName now).toBytes.length ≤ maxBeaconSize ∧
      ∀ (now' : UnixSeconds) (utc : DateTime) (sourceIp : Option String),
        now.secs ≤ now'.secs + 60 → now'.secs ≤ now.secs + 60 →
        UdpListener.processBeacon crypto fromSlice sourceIp
            (create crypto identity x25519 tcpPort displayName now).toBytes now' utc = some
          { fingerprint := deriveFingerprint crypto identity.pub x25519
            displayName
            ipAddress := sourceIp.getD "0.0.0.0"
            tcpPort := tcpPort.toNat
            x25519Public := some x25519
            lastSeen := utc } := by
  refine ⟨length_toBytes_create hname, ?_⟩
  intro now' utc sourceIp hfuture hpast
  exact processBeacon_create hsigns hjson utc sourceIp hfuture hpast

/-- The JSON library on the one beacon of the example. -/
def readSample (bytes : List UInt8) : Option DiscoveryBeacon :=
  if bytes = sample.toBytes then some sample else none

theorem sample_discovered :
    sample.toBytes.length ≤ maxBeaconSize ∧
      ∀ (now' : UnixSeconds) (utc : DateTime) (sourceIp : Option String),
        instant.secs ≤ now'.secs + 60 → now'.secs ≤ instant.secs + 60 →
        UdpListener.processBeacon Security.Idealized.crypto readSample sourceIp sample.toBytes
            now' utc = some
          { fingerprint := Security.Idealized.fingerprintOf Security.Idealized.alice
            displayName := "f00d"
            ipAddress := sourceIp.getD "0.0.0.0"
            tcpPort := 7878
            x25519Public := some Security.Idealized.alice.x25519.pub
            lastSeen := utc } :=
  honest_discovered Security.Idealized.signs_alice (by decide) (if_pos rfl)

end DiscoveryBeacon
end Rubix.Networking
