/-
# `Rubix.Persistence.PeerRepository` — peers in their table

A peer is written with all its fields and read back through the builder:

    field                       comes back as
    name, keys, fingerprint     it was
    addresses                   it was, if the JSON library undoes itself
    id                          a new one
    status, verified            offline and never seen, unverified
    first_seen, last_seen       the clock reading at the load

so a load undoes a store exactly for a peer whose lost fields have the
builder's values already (`loads_iff`).
-/
import Rubix.Lib.Table
import Rubix.Persistence.Sample
import Rubix.Persistence.Sqlite

namespace Rubix.Persistence

open Effect (Prog)

/-- A row of `peers`: the columns of the model, and the one that migration 002
adds. -/
structure PeerRow where
  model : PeerModel
  trusted : Int

namespace PeerRow

abbrev id (r : PeerRow) : String := r.model.id

abbrev fingerprint (r : PeerRow) : String := r.model.fingerprint

/-- A row that is inserted without the new column, which has a default. -/
def ofModel (m : PeerModel) : PeerRow := ⟨m, 0⟩

/-- The columns that an update sets. -/
def setColumns (m : PeerModel) (r : PeerRow) : PeerRow :=
  { r with model := { r.model with
      displayName := m.displayName
      ed25519Public := m.ed25519Public
      x25519Public := m.x25519Public
      addresses := m.addresses
      status := m.status
      verified := m.verified
      lastSeen := m.lastSeen } }

@[simp] theorem setColumns_id (m : PeerModel) (r : PeerRow) : (setColumns m r).id = r.id := rfl

@[simp] theorem setColumns_fingerprint (m : PeerModel) (r : PeerRow) :
    (setColumns m r).fingerprint = r.fingerprint := rfl

@[simp] theorem setColumns_trusted (m : PeerModel) (r : PeerRow) :
    (setColumns m r).trusted = r.trusted := rfl

end PeerRow

/-- The table of the repository. -/
structure PeerTables where
  peers : List PeerRow

namespace PeerRepository

def empty : PeerTables := ⟨[]⟩

/-! ## The statements -/

/-- `SELECT .. FROM peers WHERE fingerprint = ?1` -/
def selectByFingerprint (s : PeerTables) (fp : String) : Option PeerRow :=
  Table.find PeerRow.fingerprint s.peers fp

def selectById (s : PeerTables) (id : String) : Option PeerRow :=
  Table.find PeerRow.id s.peers id

/-- `INSERT INTO peers`; both unique columns are refused twice. -/
def insertRow (row : PeerRow) (s : PeerTables) : Bool × PeerTables :=
  match selectById s row.id, selectByFingerprint s row.fingerprint with
  | none, none => (true, { s with peers := s.peers ++ [row] })
  | _, _ => (false, s)

/-- `UPDATE peers SET .. WHERE fingerprint = ?8`: was there a row? -/
def updateRow (m : PeerModel) (s : PeerTables) : Bool × PeerTables :=
  match selectByFingerprint s m.fingerprint with
  | none => (false, s)
  | some _ =>
      (true, { s with
        peers := Table.modify PeerRow.fingerprint (PeerRow.setColumns m) s.peers m.fingerprint })

/-- `DELETE FROM peers WHERE id = ?1`: was there a row? -/
def deleteRow (id : String) (s : PeerTables) : Bool × PeerTables :=
  match selectById s id with
  | none => (false, s)
  | some _ => (true, { s with peers := Table.erase PeerRow.id s.peers id })

theorem insertRow_free {s : PeerTables} (row : PeerRow) (hid : selectById s row.id = none)
    (hfp : selectByFingerprint s row.fingerprint = none) :
    insertRow row s = (true, { s with peers := s.peers ++ [row] }) := by
  rw [insertRow, hid, hfp]

theorem insertRow_taken {s : PeerTables} (row : PeerRow)
    (h : selectById s row.id ≠ none ∨ selectByFingerprint s row.fingerprint ≠ none) :
    insertRow row s = (false, s) := by
  rw [insertRow]
  split
  · next hid hfp => exact absurd h (not_or.mpr ⟨not_not_intro hid, not_not_intro hfp⟩)
  · rfl

/-! ## The methods -/

def insert (serde : SerdeJson) (faults : Faults) (peer : Peer) : Sql PeerTables Unit := do
  attempt faults 0
  attempt faults 1
  transaction do
    attempt faults 2
    let inserted ← statement (insertRow (.ofModel (.ofPeer serde peer)))
    if inserted then attempt faults 3 else Prog.fail (.peer .alreadyExists)

/-- `get_by_fingerprint`, on the UUID and the clock reading the builder draws. -/
def getByFingerprint (serde : SerdeJson) (faults : Faults) (fp : Fingerprint) (id : Uuid)
    (now : DateTime) : Sql PeerTables Peer := do
  attempt faults 0
  attempt faults 1
  attempt faults 2
  let row ← statement fun s => (selectByFingerprint s fp.toFormattedString, s)
  match row with
  | some row => Prog.orFail (fun _ => .internal) (row.model.toPeer serde id now)
  | none => Prog.fail (.peer .notFound)

def delete (faults : Faults) (id : Uuid) : Sql PeerTables Unit := do
  attempt faults 0
  attempt faults 1
  let deleted ← statement (deleteRow id.toString)
  if deleted then pure () else Prog.fail (.peer .notFound)

def update (serde : SerdeJson) (faults : Faults) (peer : Peer) : Sql PeerTables Unit := do
  attempt faults 0
  attempt faults 1
  let updated ← statement (updateRow (PeerModel.ofPeer serde peer))
  if updated then pure () else Prog.fail (.peer .notFound)

/-- `list_all`, on the UUID and the clock reading that each row's builder
draws. -/
def listAll (serde : SerdeJson) (faults : Faults) (draw : Nat → Uuid × DateTime) :
    Sql PeerTables (List Peer) := do
  attempt faults 0
  attempt faults 1
  attempt faults 2
  let rows ← statement fun s => (s.peers, s)
  Prog.orFail (fun _ => .internal)
    (rows.zipIdx.mapM fun (row, k) => row.model.toPeer serde (draw k).1 (draw k).2)

/-! ## What a load gives back -/

/-- A peer that was stored and comes back as `q`; times in whole seconds. -/
structure Undone (p q : Peer) : Prop where
  id : q.id = p.id
  displayName : q.displayName = p.displayName
  fingerprint : q.fingerprint = p.fingerprint
  ed25519Public : q.ed25519Public = p.ed25519Public
  x25519Public : q.x25519Public = p.x25519Public
  addresses : q.addresses = p.addresses
  status : q.status = p.status
  verified : q.verified = p.verified
  firstSeen : DateTime.timestamp q.firstSeen = DateTime.timestamp p.firstSeen
  lastSeen : DateTime.timestamp q.lastSeen = DateTime.timestamp p.lastSeen

/-- From the tables `s`, the load of `p` undoes its store, and deleting what
was loaded removes the row. -/
def LoadUndoes (serde : SerdeJson) (p : Peer) (id : Uuid) (now : DateTime) (s : PeerTables) : Prop :=
  ∃ q, (getByFingerprint serde .none p.fingerprint id now s).outcome = .ok q ∧ Undone p q ∧
    (delete .none q.id s).outcome = .ok () ∧
    selectByFingerprint (delete .none q.id s).world p.fingerprint.toFormattedString = none

/-- Decoding undoes encoding, for the addresses of one peer. -/
def AddressesRoundTrip (serde : SerdeJson) (p : Peer) : Prop :=
  ∃ json, serde.stringsToString p.addresses = some json ∧
    serde.stringsFromStr json = some p.addresses

theorem publicKey_toList (field : String) (key : Vector UInt8 32) :
    publicKey field key.toList = .ok key := by
  have hlength : key.toList.length = 32 := Vector.length_toList
  rw [publicKey, dif_pos hlength]
  rfl

/-- A well-formed peer comes back from its row as the builder makes it. -/
theorem toPeer_ofPeer {serde : SerdeJson} {p : Peer} (hp : p.WellFormed)
    (hserde : AddressesRoundTrip serde p) (id : Uuid) (now : DateTime) :
    (PeerModel.ofPeer serde p).toPeer serde id now
      = .ok ⟨id, p.displayName, p.fingerprint, p.ed25519Public, p.x25519Public, p.addresses,
          .offline none, false, now, now⟩ := by
  obtain ⟨json, hto, hfrom⟩ := hserde
  obtain ⟨hname, haddresses⟩ := hp
  simp only [PeerModel.toPeer, PeerModel.ofPeer]
  rw [Fingerprint.fromHex_toFormattedString, publicKey_toList, publicKey_toList, hto]
  simp only [bind, Except.bind, Option.getD_some, hfrom]
  exact PeerBuilder.build_of_valid hname haddresses id now

/-- A peer is only stored beside peers with other ids and fingerprints. -/
theorem insert_ok {serde : SerdeJson} {faults : Faults} {p : Peer} {s : PeerTables}
    (h : (insert serde faults p s).outcome = .ok ()) :
    selectById s p.id.toString = none ∧
      selectByFingerprint s p.fingerprint.toFormattedString = none ∧
      (insert serde faults p s).world.peers = s.peers ++ [.ofModel (.ofPeer serde p)] := by
  rw [insert] at h ⊢
  have hpool := attempt_bind_ok h
  rw [hpool] at h ⊢
  have hbegin := attempt_bind_ok h
  rw [hbegin] at h ⊢
  obtain ⟨hbody, hworld⟩ := transaction_ok h
  rw [hworld]
  have hprepared := attempt_bind_ok hbody
  rw [hprepared, statement_bind, insertRow] at hbody
  rw [hprepared, statement_bind, insertRow]
  split at hbody
  · next hid hfp =>
      refine ⟨hid, hfp, ?_⟩
      dsimp only
      rw [if_pos rfl, attempt_world]
  · exact nomatch hbody

/-- An insert that does not succeed changes nothing. -/
theorem insert_cases (serde : SerdeJson) (faults : Faults) (p : Peer) (s : PeerTables) :
    Refused s (insert serde faults p s) ∨ (insert serde faults p s).outcome = .ok () := by
  rw [insert]
  rcases attempts_bind_cases faults _ s with hfault | hnext
  · exact .inl hfault
  · rw [hnext]
    rcases transaction_cases _ s with hrefused | ⟨hok, -⟩
    · exact .inl hrefused
    · exact .inr hok

theorem update_cases (serde : SerdeJson) (faults : Faults) (p : Peer) (s : PeerTables) :
    Refused s (update serde faults p s) ∨
      ((update serde faults p s).outcome = .ok () ∧
        (update serde faults p s).world.peers = Table.modify PeerRow.fingerprint
          (PeerRow.setColumns (.ofPeer serde p)) s.peers p.fingerprint.toFormattedString) := by
  rw [update]
  rcases attempts_bind_cases faults _ s with hfault | hnext
  · exact .inl hfault
  · rw [hnext, statement_bind, updateRow]
    split
    · exact .inl (refused _ s)
    · exact .inr ⟨rfl, rfl⟩

theorem delete_cases (faults : Faults) (id : Uuid) (s : PeerTables) :
    Refused s (delete faults id s) ∨
      ((delete faults id s).outcome = .ok () ∧
        (delete faults id s).world.peers = Table.erase PeerRow.id s.peers id.toString) := by
  rw [delete]
  rcases attempts_bind_cases faults _ s with hfault | hnext
  · exact .inl hfault
  · rw [hnext, statement_bind, deleteRow]
    split
    · exact .inl (refused _ s)
    · exact .inr ⟨rfl, rfl⟩

/-- What is found under the fingerprint of a peer that was just stored. -/
theorem selectByFingerprint_append {s s' : PeerTables} (row : PeerRow)
    (hnew : selectByFingerprint s row.fingerprint = none) (hrows : s'.peers = s.peers ++ [row]) :
    selectByFingerprint s' row.fingerprint = some row := by
  rw [selectByFingerprint, hrows, Table.find_append hnew, if_pos rfl]

theorem selectById_append {s s' : PeerTables} (row : PeerRow)
    (hnew : selectById s row.id = none) (hrows : s'.peers = s.peers ++ [row]) :
    selectById s' row.id = some row := by
  rw [selectById, hrows, Table.find_append hnew, if_pos rfl]

/-- Deleting the row that was just stored leaves none with its fingerprint. -/
theorem selectByFingerprint_erase {s s' : PeerTables} (row : PeerRow)
    (hnew : selectByFingerprint s row.fingerprint = none) (hrows : s'.peers = s.peers ++ [row]) :
    Table.find PeerRow.fingerprint (Table.erase PeerRow.id s'.peers row.id) row.fingerprint
      = none := by
  refine Table.find_eq_none_iff.mpr ?_
  intro r hr
  obtain ⟨hmem, hid⟩ := List.mem_filter.mp hr
  rw [hrows] at hmem
  rcases List.mem_append.mp hmem with hmem | hmem
  · exact Table.find_eq_none_iff.mp hnew r hmem
  · rw [List.mem_singleton.mp hmem] at hid
    exact absurd rfl (of_decide_eq_true hid)

/-- A load, when the database answers. -/
theorem getByFingerprint_eq (serde : SerdeJson) (fp : Fingerprint) (id : Uuid) (now : DateTime)
    (s : PeerTables) :
    getByFingerprint serde .none fp id now s =
      match selectByFingerprint s fp.toFormattedString with
      | none => ⟨.err (.peer .notFound), s, []⟩
      | some row =>
          match row.model.toPeer serde id now with
          | .ok p => ⟨.ok p, s, []⟩
          | .error _ => ⟨.err .internal, s, []⟩ := by
  simp only [getByFingerprint, attempt_none_bind, statement_bind]
  cases selectByFingerprint s fp.toFormattedString with
  | none => rfl
  | some row =>
      dsimp only
      cases row.model.toPeer serde id now with
      | ok p => rfl
      | error e => rfl

/-- The load of a stored peer, when the database answers. -/
theorem getByFingerprint_stored {serde : SerdeJson} {s : PeerTables} {p : Peer}
    (hp : p.WellFormed) (hserde : AddressesRoundTrip serde p)
    (hrow : selectByFingerprint s p.fingerprint.toFormattedString
      = some (.ofModel (.ofPeer serde p))) (id : Uuid) (now : DateTime) :
    (getByFingerprint serde .none p.fingerprint id now s).outcome
      = .ok ⟨id, p.displayName, p.fingerprint, p.ed25519Public, p.x25519Public, p.addresses,
          .offline none, false, now, now⟩ := by
  rw [getByFingerprint_eq, hrow]
  simp only [PeerRow.ofModel, toPeer_ofPeer hp hserde id now]

/-- The load of a stored peer undoes the store exactly when the peer is
offline and was never seen, unverified, was made and last changed in the
second of the load, and the UUID drawn is its own. -/
theorem loads_iff {serde : SerdeJson} {faults : Faults} {p : Peer} {s : PeerTables}
    (hp : p.Reachable) (hserde : AddressesRoundTrip serde p)
    (hinsert : (insert serde faults p s).outcome = .ok ()) (id : Uuid) (now : DateTime) :
    LoadUndoes serde p id now (insert serde faults p s).world ↔
      id = p.id ∧ p.status = .offline none ∧ p.verified = false ∧
        DateTime.timestamp now = DateTime.timestamp p.firstSeen ∧
        DateTime.timestamp now = DateTime.timestamp p.lastSeen := by
  obtain ⟨hid, hfp, hrows⟩ := insert_ok hinsert
  generalize (insert serde faults p s).world = s' at hrows
  have hrow : selectByFingerprint s' p.fingerprint.toFormattedString
      = some (.ofModel (.ofPeer serde p)) :=
    selectByFingerprint_append (.ofModel (.ofPeer serde p)) hfp hrows
  have hget := getByFingerprint_stored hp.wellFormed hserde hrow id now
  rw [LoadUndoes, hget]
  constructor
  · rintro ⟨q, hq, hundone, -, -⟩
    cases hq
    exact ⟨hundone.id, hundone.status.symm, hundone.verified.symm, hundone.firstSeen,
      hundone.lastSeen⟩
  · rintro ⟨rfl, hstatus, hverified, hfirst, hlast⟩
    refine ⟨_, rfl, ⟨rfl, rfl, rfl, rfl, rfl, rfl, hstatus.symm, hverified.symm, hfirst, hlast⟩, ?_⟩
    have hstored : selectById s' p.id.toString = some (.ofModel (.ofPeer serde p)) :=
      selectById_append (.ofModel (.ofPeer serde p)) hid hrows
    have hdelete : delete .none p.id s'
        = ⟨.ok (), ⟨Table.erase PeerRow.id s'.peers p.id.toString⟩, []⟩ := by
      simp only [delete, attempt_none_bind, statement_bind, deleteRow, hstored]
      rfl
    show (delete .none p.id s').outcome = _ ∧ selectByFingerprint (delete .none p.id s').world _ = _
    rw [hdelete]
    exact ⟨rfl, selectByFingerprint_erase (.ofModel (.ofPeer serde p)) hfp hrows⟩

section
open Sample

/-- A peer as the builder makes it, loaded in the second it was made, on a
generator that draws its own id again. -/
theorem loads_fresh :
    LoadUndoes serde peer peer.id 0 (insert serde .none peer empty).world ↔
      peer.id = peer.id ∧ peer.status = .offline none ∧ peer.verified = false ∧
        DateTime.timestamp 0 = DateTime.timestamp peer.firstSeen ∧
        DateTime.timestamp 0 = DateTime.timestamp peer.lastSeen :=
  loads_iff peer_reachable ⟨addressesJson, rfl, by decide +kernel⟩ (by decide +kernel) peer.id 0

/-- A peer that the user has blocked comes back unblocked. -/
theorem blocked_peer_lost :
    Peer.Reachable (peer.setStatus .blocked 0) ∧
      ¬ LoadUndoes serde (peer.setStatus .blocked 0) ⟨Vector.replicate 16 2⟩ 0
        (insert serde .none (peer.setStatus .blocked 0) empty).world := by
  refine ⟨.op (.setStatus .blocked 0) peer_reachable, ?_⟩
  rintro ⟨q, hq, hundone, -, -⟩
  have hload : (getByFingerprint serde .none peer.fingerprint ⟨Vector.replicate 16 2⟩ 0
      (insert serde .none (peer.setStatus .blocked 0) empty).world).outcome
        = .ok { peer with id := ⟨Vector.replicate 16 2⟩ } := by decide +kernel
  rw [Peer.setStatus_fingerprint, hload] at hq
  cases hq
  exact absurd hundone.status (by decide)

end

end PeerRepository
end Rubix.Persistence
