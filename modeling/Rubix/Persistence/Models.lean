/-
# `Rubix.Persistence.Models` — the rows of the database

A row is made from a domain value (`From<&Peer>`, `From<&Message>`) and turned
back into one (`TryFrom`).  The JSON library is a parameter; texts it cannot
produce have the fallbacks the conversions give them.

    column                  written as                      read back from
    peers.*                 one column per field            name, fingerprint, keys, addresses
    messages.*              one column per field            message_json alone

Peers come back through the builder, which draws a new id and the clock and
starts every peer offline and unverified.
-/
import Rubix.Domain.Message
import Rubix.Domain.Peer

namespace Rubix.Persistence

/-- `serde_json::to_string` and `from_str`, at the types they are used at. -/
structure SerdeJson where
  stringsToString : List String → Option String
  stringsFromStr : String → Option (List String)
  messageToString : Message → Option String
  messageFromStr : String → Option Message
  messageStateToString : MessageState → Option String
  peerStatusToString : PeerStatus → Option String

/-- The compact text of an array of strings in which nothing is escaped. -/
def jsonArray (ss : List String) : String :=
  String.ofList ('[' :: ([','].intercalate (ss.map fun s => '"' :: (s.toList ++ ['"'])) ++ [']']))

/-! ## Peers -/

/-- Persistent representation of a `Peer` row. -/
structure PeerModel where
  id : String
  displayName : String
  fingerprint : String
  ed25519Public : List UInt8
  x25519Public : List UInt8
  addresses : String
  status : String
  verified : Int
  firstSeen : Int
  lastSeen : Int

/-- `From<&Peer>` -/
def PeerModel.ofPeer (serde : SerdeJson) (p : Peer) : PeerModel where
  id := p.id.toString
  displayName := p.displayName
  fingerprint := p.fingerprint.toFormattedString
  ed25519Public := p.ed25519Public.toList
  x25519Public := p.x25519Public.toList
  addresses := (serde.stringsToString p.addresses).getD "[]"
  status := (serde.peerStatusToString p.status).getD "null"
  verified := if p.verified then 1 else 0
  firstSeen := DateTime.timestamp p.firstSeen
  lastSeen := DateTime.timestamp p.lastSeen

/-- The length check and copy of a key column. -/
def publicKey (field : String) (bytes : List UInt8) : DomainResult (Vector UInt8 32) :=
  if h : bytes.length = 32 then .ok ⟨bytes.toArray, h⟩
  else .error (.validation field "invalid length")

/-- `TryFrom<PeerModel>`, on the UUID and the clock reading the builder draws. -/
def PeerModel.toPeer (serde : SerdeJson) (m : PeerModel) (id : Uuid) (now : DateTime) :
    DomainResult Peer := do
  let fp ← Fingerprint.fromHex m.fingerprint
  let ed ← publicKey "ed25519_public" m.ed25519Public
  let x ← publicKey "x25519_public" m.x25519Public
  match serde.stringsFromStr m.addresses with
  | none => .error (.validation "addresses" "invalid json")
  | some addresses =>
      PeerBuilder.build ⟨some m.displayName, some fp, some ed, some x, addresses⟩ id now

/-! ## Messages -/

/-- Persistent representation of a `Message` row. -/
structure MessageModel where
  id : String
  senderFingerprint : String
  recipientFingerprints : String
  content : List UInt8
  contentType : String
  state : String
  messageJson : String
  createdAt : Int
  sentAt : Option Int
  deliveredAt : Option Int
  readAt : Option Int

/-- `{:?}` of a content type. -/
def contentTypeDebug : ContentType → String
  | .text => "Text"
  | .image => "Image"
  | .file => "File"
  | .voice => "Voice"

/-- The column of a state. -/
def stateColumn (serde : SerdeJson) (state : MessageState) : String :=
  (serde.messageStateToString state).getD "null"

/-- `From<&Message>` -/
def MessageModel.ofMessage (serde : SerdeJson) (m : Message) : MessageModel where
  id := m.id.toString
  senderFingerprint := m.senderFingerprint.toFormattedString
  recipientFingerprints :=
    (serde.stringsToString (m.recipientFingerprints.map Fingerprint.toFormattedString)).getD "[]"
  content := m.content
  contentType := contentTypeDebug m.contentType
  state := stateColumn serde m.state
  messageJson := (serde.messageToString m).getD ""
  createdAt := DateTime.timestamp m.createdAt
  sentAt := m.sentAt.map DateTime.timestamp
  deliveredAt := m.deliveredAt.map DateTime.timestamp
  readAt := m.readAt.map DateTime.timestamp

/-- `serde_json::from_str(..).map_err(|_| DomainError::Internal)` on a message. -/
def decodeMessage (serde : SerdeJson) (json : String) : DomainResult Message :=
  match serde.messageFromStr json with
  | some m => .ok m
  | none => .error .internal

/-- `TryFrom<MessageModel>` -/
def MessageModel.toMessage (serde : SerdeJson) (model : MessageModel) : DomainResult Message :=
  decodeMessage serde model.messageJson

/-- Decoding undoes encoding, for one message. -/
def RoundTrips (serde : SerdeJson) (m : Message) : Prop :=
  ∃ json, serde.messageToString m = some json ∧ serde.messageFromStr json = some m

theorem decodeMessage_ofMessage {serde : SerdeJson} {m : Message} (h : RoundTrips serde m) :
    decodeMessage serde (MessageModel.ofMessage serde m).messageJson = .ok m := by
  obtain ⟨json, hto, hfrom⟩ := h
  show decodeMessage serde ((serde.messageToString m).getD "") = .ok m
  rw [hto, Option.getD_some, decodeMessage, hfrom]

end Rubix.Persistence
