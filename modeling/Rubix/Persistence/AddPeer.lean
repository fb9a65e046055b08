/-
# `Rubix.Persistence.AddPeer` — storing a peer through the trust store

`add_peer` is to add a peer or to overwrite the one there is.  It inserts, and
the table refuses a second row of a fingerprint or of an id, so it does the
first and never the second:

    the rows there are          add_peer
    none of the peer's          succeeds, and the peer is read back
    one of its fingerprint      fails with AlreadyExists, whether a peer was
                                stored in it or add_trusted placed it
    one of its id               fails with AlreadyExists

(`addsOrUpdates_iff`).
-/
import Rubix.Persistence.PeerReads
import Rubix.Persistence.TrustedSet

namespace Rubix.Persistence
namespace TrustStore

open PeerRepository

/-- The peer as `get_peer` is to give it back. -/
structure ReadBack (p q : Peer) : Prop where
  displayName : q.displayName = p.displayName
  ed25519Public : q.ed25519Public = p.ed25519Public
  x25519Public : q.x25519Public = p.x25519Public
  addresses : q.addresses = p.addresses

/-- From the table `s`, `add_peer` adds the peer, or updates the one of its
fingerprint. -/
structure AddsOrUpdates (serde : SerdeJson) (p : Peer) (s : PeerTables) : Prop where
  succeeds : (addPeer serde .none p s).outcome = .ok ()
  readBack : ∀ id now, ∃ q,
    (getPeer serde .none p.fingerprint id now (addPeer serde .none p s).world).outcome
      = .ok (some q) ∧ ReadBack p q
  trusted : Flagged (addPeer serde .none p s).world p.fingerprint ↔ Flagged s p.fingerprint
  others : Table.erase PeerRow.fingerprint (addPeer serde .none p s).world.peers
      p.fingerprint.toFormattedString
    = Table.erase PeerRow.fingerprint s.peers p.fingerprint.toFormattedString

variable {p : Peer} {s : PeerTables}

theorem addPeer_free (serde : SerdeJson) (hid : selectById s p.id.toString = none)
    (hfp : ¬ HasRow s p.fingerprint) :
    (addPeer serde .none p s).outcome = .ok () ∧
      (addPeer serde .none p s).world.peers = s.peers ++ [.ofModel (.ofPeer serde p)] := by
  have hfree : insertRow (.ofModel (.ofPeer serde p)) s
      = (true, { s with peers := s.peers ++ [.ofModel (.ofPeer serde p)] }) :=
    insertRow_free (.ofModel (.ofPeer serde p)) hid (not_not.mp hfp)
  simp only [addPeer, PeerRepository.insert, transaction, attempt_none_bind, statement_bind, hfree]
  exact ⟨rfl, rfl⟩

theorem addPeer_taken (serde : SerdeJson)
    (h : selectById s p.id.toString ≠ none ∨ HasRow s p.fingerprint) :
    (addPeer serde .none p s).outcome = .err (.peer .alreadyExists) ∧
      (addPeer serde .none p s).world = s := by
  have htaken : insertRow (.ofModel (.ofPeer serde p)) s = (false, s) :=
    insertRow_taken (.ofModel (.ofPeer serde p)) h
  simp only [addPeer, PeerRepository.insert, transaction, attempt_none_bind, statement_bind, htaken]
  exact ⟨rfl, rfl⟩

/-- A peer that was inserted is read back, with its row not trusted. -/
theorem addPeer_fresh {serde : SerdeJson} (hp : p.WellFormed) (hserde : AddressesRoundTrip serde p)
    (hid : selectById s p.id.toString = none) (hfp : ¬ HasRow s p.fingerprint) :
    AddsOrUpdates serde p s := by
  obtain ⟨hok, hrows⟩ := addPeer_free serde hid hfp
  have hnew : selectByFingerprint s p.fingerprint.toFormattedString = none := not_not.mp hfp
  have hselect : selectByFingerprint (addPeer serde .none p s).world
      p.fingerprint.toFormattedString = some (.ofModel (.ofPeer serde p)) :=
    selectByFingerprint_append (.ofModel (.ofPeer serde p)) hnew hrows
  constructor
  · exact hok
  · intro id now
    have hread : (getPeer serde .none p.fingerprint id now (addPeer serde .none p s).world).outcome
        = .ok (some ⟨id, p.displayName, p.fingerprint, p.ed25519Public, p.x25519Public,
            p.addresses, .offline none, false, now, now⟩) := by
      rw [getPeer_eq, hselect]
      simp only [PeerRow.ofModel, toPeer_ofPeer hp hserde id now]
    exact ⟨_, hread, ⟨rfl, rfl, rfl, rfl⟩⟩
  · rw [Flagged, Flagged, hselect, hnew]
    constructor
    · rintro ⟨row, hrow, htrusted⟩
      cases hrow
      exact absurd htrusted (by simp [PeerRow.ofModel])
    · rintro ⟨row, hrow, -⟩
      simp at hrow
  · rw [hrows, Table.erase, List.filter_append]
    have hlast : [PeerRow.ofModel (.ofPeer serde p)].filter
        (fun row => decide (row.fingerprint ≠ p.fingerprint.toFormattedString)) = [] := by
      simp [PeerRow.ofModel, PeerModel.ofPeer]
    rw [hlast, List.append_nil, Table.erase]

/-- In every table that calls lead to, `add_peer` does what it is to do exactly
for a peer whose fingerprint and whose id have no row. -/
theorem addsOrUpdates_iff {serde : SerdeJson} (calls : List Request) (hp : p.Reachable)
    (hserde : AddressesRoundTrip serde p) :
    AddsOrUpdates serde p (Runs.run (step serde) calls empty) ↔
      selectById (Runs.run (step serde) calls empty) p.id.toString = none ∧
        ¬ HasRow (Runs.run (step serde) calls empty) p.fingerprint := by
  constructor
  · intro h
    by_contra htaken
    rw [not_and_or, not_not] at htaken
    obtain ⟨hfails, -⟩ := addPeer_taken serde htaken
    exact absurd (hfails.symm.trans h.succeeds) (by simp)
  · rintro ⟨hid, hfp⟩
    exact addPeer_fresh hp.wellFormed hserde hid hfp

section
open Sample

theorem addsOrUpdates_first :
    AddsOrUpdates Sample.serde peer (Runs.run (step Sample.serde) [] empty) ↔
      selectById (Runs.run (step Sample.serde) [] empty) peer.id.toString = none ∧
        ¬ HasRow (Runs.run (step Sample.serde) [] empty) peer.fingerprint :=
  addsOrUpdates_iff [] peer_reachable ⟨addressesJson, rfl, by decide +kernel⟩

/-- Bob was trusted before he was known, and cannot be stored any more. -/
theorem trusted_not_added :
    ¬ AddsOrUpdates Sample.serde peer (Runs.run (step Sample.serde)
      [⟨.addTrusted bob ⟨Vector.replicate 16 2⟩ 0 0, .none⟩] empty) := by
  intro h
  have hfails : (addPeer Sample.serde .none peer (Runs.run (step Sample.serde)
      [⟨.addTrusted bob ⟨Vector.replicate 16 2⟩ 0 0, .none⟩] empty)).outcome
        = .err (.peer .alreadyExists) := by decide +kernel
  exact absurd (hfails.symm.trans h.succeeds) (by simp)

end

end TrustStore
end Rubix.Persistence
