/-
# `Rubix.Application.DiscoverPeer` — the discovery use case

Listen for advertisements, then build and store a peer for each of the first
`min max_results 200` of them.  The loop stops at the first advertisement the
builder rejects, and a peer already stored gets the advertised addresses and
the status `Offline`, whatever its status was.
-/
import Rubix.Application.Dto

namespace Rubix

variable {W : Type}

open Effect (Prog)

namespace DiscoverPeer

/-- The hard cap of the acceptance criteria. -/
def maxDiscovered : Nat := 200

/-- The builder of an advertisement. -/
def builder (dp : DiscoveredPeer) : PeerBuilder :=
  { displayName := some dp.displayName
    fingerprint := some dp.fingerprint
    ed25519Public := some dp.ed25519Public
    x25519Public := some dp.x25519Public
    addresses := dp.addresses }

/-- `build`, with the UUID and the clock reading drawn first. -/
def build (ports : Ports W) (b : PeerBuilder) : UseCase W Peer := do
  let id ← draw ports.newUuid
  let now ← draw ports.utcNow
  Prog.orFail (fun _ => .domain) (b.build id now)

/-- Save or update in persistence. -/
def store (ports : Ports W) (peer : Peer) : UseCase W Unit := do
  let found ← ports.loadPeer peer.fingerprint
  let existing? ← orPersistence found
  match existing? with
  | some existing => do
      let now ← draw ports.utcNow
      let existing ← Prog.orFail (fun _ => .validation "addresses" "limit exceeded")
        (existing.setAddresses peer.addresses now)
      -- an offline status does not make `set_status` read the clock
      let saved ← ports.savePeer (existing.setStatus (.offline none) now)
      orPersistence saved
  | none => do
      let saved ← ports.savePeer peer
      orPersistence saved

section
variable [Chrono]

/-- The loop over the advertisements. -/
def storeAll (ports : Ports W) : List DiscoveredPeer → UseCase W (List PeerResponse)
  | [] => pure []
  | dp :: rest => do
      let peer ← build ports (builder dp)
      store ports peer
      let responses ← storeAll ports rest
      pure (.fromPeer peer :: responses)

/-- `DiscoverPeerUseCase::execute` -/
def execute (ports : Ports W) (request : DiscoverPeerRequest) : UseCase W (List PeerResponse) := do
  let answer ← ports.discoverPeers (seconds request.timeoutSecs)
  let discovered ← Prog.orFail (fun _ => .network) answer
  storeAll ports (discovered.take (min request.maxResults maxDiscovered))

end

/-! ## Which advertisements are reached -/

/-- The builder accepts the advertisement. -/
def accepted (dp : DiscoveredPeer) : Bool :=
  decide (validateDisplayName dp.displayName = .ok () ∧ dp.addresses.length ≤ maxPeerAddresses)

/-- The loop reaches the advertisements before the first rejected one. -/
def reached (request : DiscoverPeerRequest) (discovered : List DiscoveredPeer) :
    List DiscoveredPeer :=
  (discovered.take (min request.maxResults maxDiscovered)).takeWhile accepted

theorem accepted_of_build {dp : DiscoveredPeer} {id : Uuid} {now : DateTime} {p : Peer}
    (h : (builder dp).build id now = .ok p) : accepted dp = true := by
  obtain ⟨hname, hvalid, -, -, -, has, hlen, -⟩ := PeerBuilder.build_ok h
  rw [accepted, decide_eq_true_eq, Option.some.inj hname]
  exact ⟨hvalid, (congrArg List.length has).trans_le hlen⟩

theorem fingerprint_of_build {dp : DiscoveredPeer} {id : Uuid} {now : DateTime} {p : Peer}
    (h : (builder dp).build id now = .ok p) : p.fingerprint = dp.fingerprint :=
  (Option.some.inj (PeerBuilder.build_ok h).2.2.1).symm

theorem build_of_accepted {dp : DiscoveredPeer} (h : accepted dp = true) (id : Uuid)
    (now : DateTime) : ∃ p, (builder dp).build id now = .ok p := by
  obtain ⟨hname, haddr⟩ := of_decide_eq_true h
  exact ⟨_, PeerBuilder.build_of_valid hname haddr id now⟩

end DiscoverPeer
end Rubix
