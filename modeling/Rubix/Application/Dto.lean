/-
# `Rubix.Application.Dto` — what the use cases return to the UI

Plain records built from the domain entities.  The one computation is the
content preview, cut at a byte offset: `&preview[..n]` panics when the offset
falls inside a character.
-/
import Rubix.Lib.Utf8
import Rubix.Application.Ports

namespace Rubix

variable {W : Type} [Chrono]

open Effect (Prog)

/-! ## Peers -/

structure ConnectPeerRequest where
  address : String
  fingerprint : String

structure DiscoverPeerRequest where
  timeoutSecs : Nat := 10
  maxResults : Nat := 200

inductive PeerStatusDto where
  | online (lastSeen : String)
  | away (lastSeen : String)
  | offline
  | blocked
  deriving DecidableEq

def PeerStatusDto.ofStatus : PeerStatus → PeerStatusDto
  | .online t => .online (Chrono.toRfc3339 t)
  | .away t => .away (Chrono.toRfc3339 t)
  | .offline _ => .offline
  | .blocked => .blocked

/-- Peer information for UI display. -/
structure PeerResponse where
  id : String
  displayName : String
  fingerprint : String
  addresses : List String
  status : PeerStatusDto
  verified : Bool
  firstSeen : String
  lastSeen : String
  deriving DecidableEq

/-- `PeerResponse::from_peer` -/
def PeerResponse.fromPeer (p : Peer) : PeerResponse :=
  { id := p.id.toString
    displayName := p.displayName
    fingerprint := p.fingerprint.toFormattedString
    addresses := p.addresses
    status := .ofStatus p.status
    verified := p.verified
    firstSeen := Chrono.toRfc3339 p.firstSeen
    lastSeen := Chrono.toRfc3339 p.lastSeen }

/-! ## Messages -/

def maxPreviewLen : Nat := 256

inductive ContentTypeDto where
  | text | image | file | voice
  deriving DecidableEq

def ContentTypeDto.ofDomain : ContentType → ContentTypeDto
  | .text => .text
  | .image => .image
  | .file => .file
  | .voice => .voice

def ContentTypeDto.toDomain : ContentTypeDto → ContentType
  | .text => .text
  | .image => .image
  | .file => .file
  | .voice => .voice

structure SendMessageRequest where
  recipientFingerprint : String
  content : String
  contentType : ContentTypeDto

inductive MessageStateDto where
  | pending
  | sending
  | sent (at_ : String)
  | delivered (at_ : String)
  | read (at_ : String)
  | failed (at_ : String) (retryable : Bool)
  deriving DecidableEq

def MessageStateDto.ofState : MessageState → MessageStateDto
  | .pending => .pending
  | .sending => .sending
  | .sent t => .sent (Chrono.toRfc3339 t)
  | .delivered t => .delivered (Chrono.toRfc3339 t)
  | .read t => .read (Chrono.toRfc3339 t)
  | .failed t retryable => .failed (Chrono.toRfc3339 t) retryable

/-- Message response for UI display. -/
structure MessageResponse where
  id : String
  senderFingerprint : String
  recipientFingerprints : List String
  contentType : ContentTypeDto
  state : MessageStateDto
  createdAt : String
  sentAt : Option String
  deliveredAt : Option String
  readAt : Option String
  contentPreview : String
  deriving DecidableEq

/-- The first `n` bytes and an ellipsis if the text is longer than `n` bytes;
slicing inside a character panics. -/
def preview (n : Nat) (text : List Char) : UseCase W String :=
  if n < Utf8.byteLen text then
    match Utf8.sliceTo? n text with
    | some cut => pure (String.ofList (cut ++ ['…']))
    | none => Prog.abort .strSlice
  else pure (String.ofList text)

/-- The response about a message, with its preview cut. -/
def MessageResponse.describe (m : Message) (contentPreview : String) : MessageResponse :=
  { id := m.id.toString
    senderFingerprint := m.senderFingerprint.toFormattedString
    recipientFingerprints := m.recipientFingerprints.map Fingerprint.toFormattedString
    contentType := .ofDomain m.contentType
    state := .ofState m.state
    createdAt := Chrono.toRfc3339 m.createdAt
    sentAt := m.sentAt.map Chrono.toRfc3339
    deliveredAt := m.deliveredAt.map Chrono.toRfc3339
    readAt := m.readAt.map Chrono.toRfc3339
    contentPreview := contentPreview }

/-- `MessageResponse::from_message` -/
def MessageResponse.fromMessage (m : Message) (contentPreview : List Char) :
    UseCase W MessageResponse := do
  let text ← preview maxPreviewLen contentPreview
  pure (.describe m text)

/-- A response describes its message; the only other end is the slice panic. -/
theorem MessageResponse.fromMessage_run (m : Message) (contentPreview : List Char) (s : App W) :
    (∃ text, fromMessage m contentPreview s = ⟨.ok (.describe m text), s, []⟩) ∨
      fromMessage m contentPreview s = ⟨.panic .strSlice, s, []⟩ := by
  rw [fromMessage, preview]
  split
  · split
    · exact .inl ⟨_, rfl⟩
    · exact .inr rfl
  · exact .inl ⟨_, rfl⟩

end Rubix
