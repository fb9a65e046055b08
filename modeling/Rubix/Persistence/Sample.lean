/-
# `Rubix.Persistence.Sample` — a message, a peer, and the JSON library on them

The texts are those the JSON library gives for these values; on others this
one answers nothing.
-/
import Rubix.Persistence.Models

namespace Rubix.Persistence
namespace Sample

def bob : Fingerprint := ⟨Vector.replicate 20 0xBB⟩

/-- A text message `hi` to Bob, written at the epoch. -/
def message : Message where
  id := ⟨Vector.replicate 16 0⟩
  senderFingerprint := ⟨Vector.replicate 20 0xAA⟩
  recipientFingerprints := [bob]
  content := [0x68, 0x69]
  contentType := .text
  state := .pending
  createdAt := 0
  sentAt := none
  deliveredAt := none
  readAt := none

def messageJson : String :=
  "\x7b\"id\":\"00000000-0000-0000-0000-000000000000\"," ++
    "\"sender_fingerprint\":\"aaaaaaaaaaaaaaaaaaaaaaaaaaaaaaaaaaaaaaaa\"," ++
    "\"recipient_fingerprints\":[\"bbbbbbbbbbbbbbbbbbbbbbbbbbbbbbbbbbbbbbbb\"]," ++
    "\"content\":[104,105],\"content_type\":\"Text\",\"state\":\"Pending\"," ++
    "\"created_at\":\"1970-01-01T00:00:00Z\",\"sent_at\":null,\"delivered_at\":null," ++
    "\"read_at\":null\x7d"

/-- Bob as the builder makes him at the epoch. -/
def peer : Peer where
  id := ⟨Vector.replicate 16 1⟩
  displayName := "Bob"
  fingerprint := bob
  ed25519Public := Vector.replicate 32 0x11
  x25519Public := Vector.replicate 32 0x22
  addresses := ["127.0.0.1:8080"]
  status := .offline none
  verified := false
  firstSeen := 0
  lastSeen := 0

theorem peer_reachable : peer.Reachable :=
  .built (PeerBuilder.build_of_valid (by decide) (by decide) _ _)

def addressesJson : String := "[\"127.0.0.1:8080\"]"

def serde : SerdeJson where
  stringsToString ss := some (jsonArray ss)
  stringsFromStr json := if json = addressesJson then some ["127.0.0.1:8080"] else none
  messageToString m := if m = message then some messageJson else none
  messageFromStr json := if json = messageJson then some message else none
  messageStateToString
    | .pending => some "\"Pending\""
    | .sending => some "\"Sending\""
    | _ => none
  peerStatusToString
    | .blocked => some "\"Blocked\""
    | .offline none => some "\x7b\"Offline\":\x7b\"last_seen\":null\x7d\x7d"
    | _ => none

end Sample
end Rubix.Persistence
