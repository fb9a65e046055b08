/-
# `Rubix.Persistence.TrustStore` — trusted fingerprints in the table of the peers

The trust store has no table of its own: that a fingerprint is trusted is a
column of its row in `peers`.  `add_trusted` sets the column, and for a
fingerprint without a row it writes one, with no name, no keys and no address:

    a call              the rows, if it succeeds
    insert, add_peer    one more, not trusted
    update              the columns of the peer, not its id, not its trust
    delete              without the one of that id
    add_trusted         trusted in its row; else one more, trusted; else, where
                        the id that is drawn for it is taken, as they were

A call that fails leaves them as they were (`step_performs`).  In every state
that calls lead to, a row is determined by its fingerprint (`step_keyed`).
-/
import Rubix.Lib.Runs
import Rubix.Persistence.PeerRepository

namespace Rubix.Persistence

open Effect (Prog)

namespace PeerRow

/-- The row `add_trusted` inserts, on the UUID and the clock readings it draws. -/
def placeholder (fp : String) (id : Uuid) (firstSeen lastSeen : DateTime) : PeerRow where
  model :=
    { id := id.toString
      displayName := ""
      fingerprint := fp
      ed25519Public := []
      x25519Public := []
      addresses := ""
      status := "unknown"
      verified := 0
      firstSeen := DateTime.timestamp firstSeen
      lastSeen := DateTime.timestamp lastSeen }
  trusted := 1

/-- `SET trusted = 1` -/
def trust (r : PeerRow) : PeerRow := { r with trusted := 1 }

@[simp] theorem trust_id (r : PeerRow) : r.trust.id = r.id := rfl

@[simp] theorem trust_fingerprint (r : PeerRow) : r.trust.fingerprint = r.fingerprint := rfl

end PeerRow

namespace TrustStore

open PeerRepository

/-! ## The statements -/

/-- `UPDATE peers SET trusted = 1 WHERE fingerprint = ?1`: was there a row? -/
def trustRow (fp : String) (s : PeerTables) : Bool × PeerTables :=
  match selectByFingerprint s fp with
  | none => (false, s)
  | some _ => (true, { s with peers := Table.modify PeerRow.fingerprint PeerRow.trust s.peers fp })

/-- `INSERT OR IGNORE INTO peers` -/
def insertOrIgnore (row : PeerRow) (s : PeerTables) : PeerTables := (insertRow row s).2

/-- `SELECT fingerprint FROM peers WHERE trusted = 1` -/
def selectTrusted (s : PeerTables) : List String :=
  (s.peers.filter fun r => decide (r.trusted = 1)).map PeerRow.fingerprint

/-! ## The methods -/

/-- `is_trusted` -/
def isTrusted (faults : Faults) (fp : Fingerprint) : Sql PeerTables Bool := do
  attempt faults 0
  attempt faults 1
  attempt faults 2
  let row ← statement fun s => (selectByFingerprint s fp.toFormattedString, s)
  match row with
  | some row => pure (decide (row.trusted = 1))
  | none => Prog.fail (.peer .notFound)

/-- `add_trusted`, on the UUID and the clock readings it draws. -/
def addTrusted (faults : Faults) (fp : Fingerprint) (id : Uuid) (firstSeen lastSeen : DateTime) :
    Sql PeerTables Unit := do
  attempt faults 0
  attempt faults 1
  let updated ← statement (trustRow fp.toFormattedString)
  if updated then pure ()
  else do
    attempt faults 2
    statement fun s =>
      ((), insertOrIgnore (.placeholder fp.toFormattedString id firstSeen lastSeen) s)

/-- `list_trusted` -/
def listTrusted (faults : Faults) : Sql PeerTables (List Fingerprint) := do
  attempt faults 0
  attempt faults 1
  attempt faults 2
  let texts ← statement fun s => (selectTrusted s, s)
  Prog.orFail (fun _ => .internal) (texts.mapM Fingerprint.fromHex)

/-- `add_peer` -/
def addPeer (serde : SerdeJson) (faults : Faults) (peer : Peer) : Sql PeerTables Unit :=
  insert serde faults peer

/-- `get_peer`: a peer that is not found is none. -/
def getPeer (serde : SerdeJson) (faults : Faults) (fp : Fingerprint) (id : Uuid) (now : DateTime) :
    Sql PeerTables (Option Peer) := fun s =>
  match getByFingerprint serde faults fp id now s with
  | ⟨.ok p, s', l⟩ => ⟨.ok (some p), s', l⟩
  | ⟨.err (.peer .notFound), s', l⟩ => ⟨.ok none, s', l⟩
  | ⟨.err e, s', l⟩ => ⟨.err e, s', l⟩

/-! ## Calls that write -/

/-- A call that writes, with what it draws. -/
inductive Write where
  | insert (peer : Peer)
  | update (peer : Peer)
  | delete (id : Uuid)
  | addTrusted (fp : Fingerprint) (id : Uuid) (firstSeen lastSeen : DateTime)
  | addPeer (peer : Peer)

/-- A call, and which of its calls to the database fail. -/
structure Request where
  write : Write
  faults : Faults

def perform (serde : SerdeJson) (r : Request) : Sql PeerTables Unit :=
  match r.write with
  | .insert peer => insert serde r.faults peer
  | .update peer => update serde r.faults peer
  | .delete id => delete r.faults id
  | .addTrusted fp id firstSeen lastSeen => addTrusted r.faults fp id firstSeen lastSeen
  | .addPeer peer => addPeer serde r.faults peer

def step (serde : SerdeJson) (s : PeerTables) (r : Request) : PeerTables :=
  (perform serde r s).world

/-- The call returns `Ok`. -/
def Succeeds (serde : SerdeJson) (s : PeerTables) (r : Request) : Prop :=
  (perform serde r s).outcome = .ok ()

/-! ## What a call can do -/

/-- The rows before and after a call. -/
inductive Performs (serde : SerdeJson) (s : PeerTables) (r : Request) (s' : PeerTables) : Prop where
  | refused (hfails : ¬ Succeeds serde s r) (hrows : s' = s)
  | inserted (p : Peer) (hwrite : r.write = .insert p ∨ r.write = .addPeer p)
      (hok : Succeeds serde s r) (hid : selectById s p.id.toString = none)
      (hfp : selectByFingerprint s p.fingerprint.toFormattedString = none)
      (hrows : s'.peers = s.peers ++ [.ofModel (.ofPeer serde p)])
  | updated (p : Peer) (hwrite : r.write = .update p) (hok : Succeeds serde s r)
      (hrows : s'.peers = Table.modify PeerRow.fingerprint
        (PeerRow.setColumns (.ofPeer serde p)) s.peers p.fingerprint.toFormattedString)
  | deleted (id : Uuid) (hwrite : r.write = .delete id) (hok : Succeeds serde s r)
      (hrows : s'.peers = Table.erase PeerRow.id s.peers id.toString)
  | trusted (fp : Fingerprint) (id : Uuid) (t t' : DateTime)
      (hwrite : r.write = .addTrusted fp id t t') (hok : Succeeds serde s r)
      (hfp : selectByFingerprint s fp.toFormattedString ≠ none)
      (hrows : s'.peers = Table.modify PeerRow.fingerprint PeerRow.trust s.peers
        fp.toFormattedString)
  | placed (fp : Fingerprint) (id : Uuid) (t t' : DateTime)
      (hwrite : r.write = .addTrusted fp id t t') (hok : Succeeds serde s r)
      (hid : selectById s id.toString = none)
      (hfp : selectByFingerprint s fp.toFormattedString = none)
      (hrows : s'.peers = s.peers ++ [.placeholder fp.toFormattedString id t t'])
  | ignored (fp : Fingerprint) (id : Uuid) (t t' : DateTime)
      (hwrite : r.write = .addTrusted fp id t t') (hok : Succeeds serde s r)
      (hid : selectById s id.toString ≠ none)
      (hfp : selectByFingerprint s fp.toFormattedString = none) (hrows : s' = s)

section
variable {serde : SerdeJson} {s : PeerTables} {r : Request}

theorem refused_performs (h : Refused s (perform serde r s)) :
    Performs serde s r (perform serde r s).world := by
  obtain ⟨⟨e, herr⟩, hworld⟩ := h
  refine .refused (fun hok => ?_) hworld
  rw [Succeeds, herr] at hok
  exact nomatch hok

theorem perform_insert {p : Peer} (hwrite : r.write = .insert p ∨ r.write = .addPeer p) :
    perform serde r s = insert serde r.faults p s := by
  rw [perform]
  rcases hwrite with hwrite | hwrite
  · rw [hwrite]
  · rw [hwrite]
    rfl

theorem insert_performs {p : Peer} (hwrite : r.write = .insert p ∨ r.write = .addPeer p) :
    Performs serde s r (perform serde r s).world := by
  have hperform : perform serde r s = insert serde r.faults p s := perform_insert hwrite
  rcases insert_cases serde r.faults p s with hrefused | hok
  · exact refused_performs (hperform ▸ hrefused)
  · obtain ⟨hid, hfp, hrows⟩ := insert_ok hok
    rw [← hperform] at hok hrows
    exact .inserted p hwrite hok hid hfp hrows

theorem addTrusted_performs {fp : Fingerprint} {id : Uuid} {t t' : DateTime}
    (hwrite : r.write = .addTrusted fp id t t') :
    Performs serde s r (perform serde r s).world := by
  have hperform : perform serde r s = addTrusted r.faults fp id t t' s := by
    rw [perform, hwrite]
  rw [addTrusted] at hperform
  rcases attempts_bind_cases r.faults _ s with hfault | hnext
  · exact refused_performs (hperform ▸ hfault)
  rw [hnext, statement_bind, trustRow] at hperform
  cases hfp : selectByFingerprint s fp.toFormattedString with
  | some row =>
      rw [hfp] at hperform
      refine .trusted fp id t t' hwrite ?_ (by simp [hfp]) ?_
      · rw [Succeeds, hperform]
        rfl
      · rw [hperform]
        rfl
  | none =>
      rw [hfp] at hperform
      dsimp only at hperform
      rw [if_neg Bool.false_ne_true] at hperform
      rcases attempt_bind_cases r.faults 2 _ s with hfault | hnext
      · exact refused_performs (hperform ▸ hfault)
      rw [hnext] at hperform
      have hok : Succeeds serde s r := by
        rw [Succeeds, hperform]
        rfl
      let row := PeerRow.placeholder fp.toFormattedString id t t'
      have hworld : (perform serde r s).world = insertOrIgnore row s := by
        rw [hperform]
        rfl
      cases hid : selectById s id.toString with
      | none =>
          refine .placed fp id t t' hwrite hok hid hfp ?_
          rw [hworld, insertOrIgnore, insertRow_free row hid hfp]
      | some other =>
          have htaken : selectById s id.toString ≠ none := by simp [hid]
          refine .ignored fp id t t' hwrite hok htaken hfp ?_
          rw [hworld, insertOrIgnore, insertRow_taken row (.inl htaken)]

theorem step_performs (serde : SerdeJson) (s : PeerTables) (r : Request) :
    Performs serde s r (step serde s r) := by
  rw [step]
  cases hwrite : r.write with
  | insert p => exact insert_performs (.inl hwrite)
  | addPeer p => exact insert_performs (.inr hwrite)
  | addTrusted fp id t t' => exact addTrusted_performs hwrite
  | update p =>
      have hperform : perform serde r s = update serde r.faults p s := by
        rw [perform, hwrite]
      rcases update_cases serde r.faults p s with hrefused | ⟨hok, hrows⟩
      · exact refused_performs (hperform ▸ hrefused)
      · rw [← hperform] at hok hrows
        exact .updated p hwrite hok hrows
  | delete id =>
      have hperform : perform serde r s = delete r.faults id s := by
        rw [perform, hwrite]
      rcases delete_cases r.faults id s with hrefused | ⟨hok, hrows⟩
      · exact refused_performs (hperform ▸ hrefused)
      · rw [← hperform] at hok hrows
        exact .deleted id hwrite hok hrows

/-! ## Rows and their fingerprints -/

/-- There is a row for the fingerprint. -/
def HasRow (s : PeerTables) (fp : Fingerprint) : Prop :=
  selectByFingerprint s fp.toFormattedString ≠ none

/-- A row is determined by its fingerprint, and its fingerprint is one. -/
structure Keyed (s : PeerTables) : Prop where
  unique : Table.Unique PeerRow.fingerprint s.peers
  readable : ∀ row ∈ s.peers, ∃ fp : Fingerprint, row.fingerprint = fp.toFormattedString

theorem keyed_empty : Keyed empty := ⟨Table.unique_nil, fun _ h => absurd h List.not_mem_nil⟩

theorem Keyed.select (h : Keyed s) {fp : Fingerprint} {row : PeerRow} :
    selectByFingerprint s fp.toFormattedString = some row ↔
      row ∈ s.peers ∧ row.fingerprint = fp.toFormattedString :=
  h.unique.find_eq_some

theorem Keyed.append (h : Keyed s) {s' : PeerTables} {row : PeerRow} {fp : Fingerprint}
    (hfp : row.fingerprint = fp.toFormattedString)
    (hnew : selectByFingerprint s fp.toFormattedString = none)
    (hrows : s'.peers = s.peers ++ [row]) : Keyed s' := by
  constructor
  · rw [hrows]
    exact h.unique.append (hfp ▸ hnew)
  · intro row' hmem
    rw [hrows] at hmem
    rcases List.mem_append.mp hmem with hold | hlast
    · exact h.readable row' hold
    · exact ⟨fp, List.mem_singleton.mp hlast ▸ hfp⟩

theorem Keyed.modify (h : Keyed s) {s' : PeerTables} {f : PeerRow → PeerRow}
    (hf : ∀ row, (f row).fingerprint = row.fingerprint) {k : String}
    (hrows : s'.peers = Table.modify PeerRow.fingerprint f s.peers k) : Keyed s' := by
  constructor
  · rw [hrows]
    exact h.unique.modify hf k
  · intro row hmem
    rw [hrows] at hmem
    obtain ⟨row', hold, rfl⟩ := Table.mem_modify.mp hmem
    split
    · rw [hf]
      exact h.readable row' hold
    · exact h.readable row' hold

theorem Keyed.erase (h : Keyed s) {s' : PeerTables} {k : String}
    (hrows : s'.peers = Table.erase PeerRow.id s.peers k) : Keyed s' := by
  constructor
  · rw [hrows]
    exact h.unique.erase k
  · intro row hmem
    rw [hrows] at hmem
    exact h.readable row (Table.mem_erase.mp hmem).1

/-! What is found under a fingerprint after each kind of write. -/

theorem select_append {s' : PeerTables} {row : PeerRow} {fp : Fingerprint}
    (hkey : row.fingerprint = fp.toFormattedString)
    (hnew : selectByFingerprint s fp.toFormattedString = none)
    (hrows : s'.peers = s.peers ++ [row]) (fp' : Fingerprint) :
    selectByFingerprint s' fp'.toFormattedString =
      if fp = fp' then some row else selectByFingerprint s fp'.toFormattedString := by
  rw [← hkey] at hnew
  rw [selectByFingerprint, hrows, Table.find_append hnew, hkey, selectByFingerprint]
  simp only [Fingerprint.toFormattedString_inj]

theorem select_modify {s' : PeerTables} {f : PeerRow → PeerRow} {fp : Fingerprint}
    (hf : ∀ row, (f row).fingerprint = row.fingerprint)
    (hrows : s'.peers = Table.modify PeerRow.fingerprint f s.peers fp.toFormattedString)
    (fp' : Fingerprint) :
    selectByFingerprint s' fp'.toFormattedString =
      if fp = fp' then (selectByFingerprint s fp'.toFormattedString).map f
      else selectByFingerprint s fp'.toFormattedString := by
  rw [selectByFingerprint, hrows, Table.find_modify hf, selectByFingerprint]
  simp only [Fingerprint.toFormattedString_inj]

theorem Keyed.select_erase (h : Keyed s) {s' : PeerTables} {id : String}
    (hrows : s'.peers = Table.erase PeerRow.id s.peers id) (k : String) :
    selectByFingerprint s' k =
      (selectByFingerprint s k).filter fun row => decide (row.id ≠ id) := by
  rw [selectByFingerprint, hrows]
  exact h.unique.find_filter _ k

theorem step_keyed (h : Keyed s) : Keyed (step serde s r) := by
  have hperforms : Performs serde s r (step serde s r) := step_performs serde s r
  cases hperforms with
  | refused _ hrows =>
      rw [hrows]
      exact h
  | ignored fp id t t' _ _ _ _ hrows =>
      rw [hrows]
      exact h
  | inserted p _ _ _ hfp hrows => exact h.append rfl hfp hrows
  | placed fp id t t' _ _ _ hfp hrows => exact h.append rfl hfp hrows
  | updated p _ _ hrows => exact h.modify (PeerRow.setColumns_fingerprint _) hrows
  | trusted fp id t t' _ _ _ hrows => exact h.modify PeerRow.trust_fingerprint hrows
  | deleted id _ _ hrows => exact h.erase hrows

theorem run_keyed (serde : SerdeJson) (calls : List Request) :
    Keyed (Runs.run (step serde) calls empty) :=
  (Runs.always_of_invariant keyed_empty (fun _ _ h => step_keyed h) calls).last

end

end TrustStore
end Rubix.Persistence
