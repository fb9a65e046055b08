/-
# `Rubix.Persistence.PeerReads` — which peers the reads find

A row of `peers` was inserted with a peer, or placed by an `add_trusted` for a
fingerprint without one.  An update changes neither its fingerprint nor its id:

    a row that was          get_peer                    list_all
    inserted                gives the peer              lists it
    placed                  fails: it has no keys       fails
    placed, then updated    gives a peer that nobody    lists that peer
                            inserted

so the reads answer with the peers that were inserted and not deleted exactly
when no row that was placed is left (`readsRight_iff`).
-/
import Rubix.Persistence.TrustStore

namespace Rubix.Persistence
namespace TrustStore

open PeerRepository

/-- The peer that a call stores. -/
def Write.peer : Write → Option Peer
  | .insert p | .update p | .addPeer p => some p
  | .delete _ | .addTrusted _ _ _ _ => none

/-- The call stores a peer with this fingerprint and this id. -/
def Inserts (serde : SerdeJson) (fp : Fingerprint) (id : Uuid) (s : PeerTables) (r : Request) :
    Prop :=
  (∃ p : Peer, (r.write = .insert p ∨ r.write = .addPeer p) ∧ p.fingerprint = fp ∧ p.id = id) ∧
    Succeeds serde s r

/-- The call is an `add_trusted` that gives the fingerprint a row, of this id. -/
def Places (serde : SerdeJson) (fp : Fingerprint) (id : Uuid) (s : PeerTables) (r : Request) :
    Prop :=
  (∃ t t', r.write = .addTrusted fp id t t') ∧ ¬ HasRow s fp ∧ HasRow (step serde s r) fp

def Deletes (serde : SerdeJson) (id : Uuid) (s : PeerTables) (r : Request) : Prop :=
  r.write = .delete id ∧ Succeeds serde s r

/-- A peer with this fingerprint and id was inserted, and not deleted since. -/
def Inserted (serde : SerdeJson) (calls : List Request) (fp : Fingerprint) (id : Uuid) : Prop :=
  Runs.Since (step serde) (Inserts serde fp id) (fun s r => ¬ Deletes serde id s r) calls empty

/-- `add_trusted` gave the fingerprint a row of this id, not deleted since. -/
def Placed (serde : SerdeJson) (calls : List Request) (fp : Fingerprint) (id : Uuid) : Prop :=
  Runs.Since (step serde) (Places serde fp id) (fun s r => ¬ Deletes serde id s r) calls empty

/-- Some peer with the fingerprint was inserted, and not deleted since. -/
def Held (serde : SerdeJson) (calls : List Request) (fp : Fingerprint) : Prop :=
  ∃ id, Inserted serde calls fp id

/-- The reads answer with the peers that were inserted and not deleted. -/
structure ReadsRight (serde : SerdeJson) (calls : List Request) : Prop where
  getPeer : ∀ fp id now,
    (Held serde calls fp → ∃ p,
      (getPeer serde .none fp id now (Runs.run (step serde) calls empty)).outcome
        = .ok (some p)) ∧
    (¬ Held serde calls fp →
      (getPeer serde .none fp id now (Runs.run (step serde) calls empty)).outcome = .ok none)
  listAll : ∀ draw, ∃ list,
    (listAll serde .none draw (Runs.run (step serde) calls empty)).outcome = .ok list ∧
      (list.map Peer.fingerprint).Nodup ∧
      ∀ fp, fp ∈ list.map Peer.fingerprint ↔ Held serde calls fp

variable {serde : SerdeJson} {s : PeerTables} {r : Request} {fp : Fingerprint} {id : Uuid}

/-! ## Rows by fingerprint and id -/

/-- There is a row of this fingerprint and this id. -/
def RowOf (s : PeerTables) (fp : Fingerprint) (id : Uuid) : Prop :=
  ∃ row ∈ s.peers, row.fingerprint = fp.toFormattedString ∧ row.id = id.toString

theorem RowOf.hasRow (h : RowOf s fp id) : HasRow s fp := by
  obtain ⟨row, hmem, hfp, -⟩ := h
  exact fun hnone => Table.find_eq_none_iff.mp hnone row hmem hfp

/-- A fingerprint has a row of one id. -/
theorem RowOf.id_eq {id' : Uuid} (hs : Keyed s) (h : RowOf s fp id) (h' : RowOf s fp id') :
    id = id' := by
  obtain ⟨row, hmem, hfp, hid⟩ := h
  obtain ⟨row', hmem', hfp', hid'⟩ := h'
  have hrow : row = row' := hs.unique.eq_of_key hmem hmem' (hfp.trans hfp'.symm)
  rw [hrow] at hid
  exact Uuid.toString_injective (hid.symm.trans hid')

theorem RowOf.modify {s' : PeerTables} {f : PeerRow → PeerRow} {k : String} (h : RowOf s fp id)
    (hfp : ∀ row, (f row).fingerprint = row.fingerprint) (hid : ∀ row, (f row).id = row.id)
    (hrows : s'.peers = Table.modify PeerRow.fingerprint f s.peers k) : RowOf s' fp id := by
  obtain ⟨row, hmem, hrow, hrowid⟩ := h
  refine ⟨if row.fingerprint = k then f row else row, ?_, ?_⟩
  · rw [hrows]
    exact Table.mem_modify.mpr ⟨row, hmem, rfl⟩
  · split
    · rw [hfp, hid]
      exact ⟨hrow, hrowid⟩
    · exact ⟨hrow, hrowid⟩

theorem RowOf.append {s' : PeerTables} {row : PeerRow} (h : RowOf s fp id)
    (hrows : s'.peers = s.peers ++ [row]) : RowOf s' fp id := by
  obtain ⟨row', hmem, hkeys⟩ := h
  refine ⟨row', ?_, hkeys⟩
  rw [hrows]
  exact List.mem_append_left _ hmem

theorem rowOf_last {s' : PeerTables} {row : PeerRow} (hrows : s'.peers = s.peers ++ [row])
    (hfp : row.fingerprint = fp.toFormattedString) (hid : row.id = id.toString) :
    RowOf s' fp id := by
  refine ⟨row, ?_, hfp, hid⟩
  rw [hrows]
  exact List.mem_append_right _ (List.mem_singleton_self row)

/-- A row stays until its id is deleted. -/
theorem step_rowOf (h : RowOf s fp id) (hkept : ¬ Deletes serde id s r) :
    RowOf (step serde s r) fp id := by
  have hperforms : Performs serde s r (step serde s r) := step_performs serde s r
  cases hperforms with
  | refused _ hrows =>
      rw [hrows]
      exact h
  | ignored _ _ _ _ _ _ _ _ hrows =>
      rw [hrows]
      exact h
  | inserted p _ _ _ _ hrows => exact h.append hrows
  | placed fp' id' t t' _ _ _ _ hrows => exact h.append hrows
  | updated p _ _ hrows =>
      exact h.modify (PeerRow.setColumns_fingerprint _) (PeerRow.setColumns_id _) hrows
  | trusted fp' id' t t' _ _ _ hrows =>
      exact h.modify PeerRow.trust_fingerprint PeerRow.trust_id hrows
  | deleted id' hwrite hok hrows =>
      obtain ⟨row, hmem, hfp, hid⟩ := h
      refine ⟨row, ?_, hfp, hid⟩
      rw [hrows]
      refine Table.mem_erase.mpr ⟨hmem, fun heq => hkept ?_⟩
      rw [Uuid.toString_injective (hid.symm.trans heq)]
      exact ⟨hwrite, hok⟩

theorem Inserts.step (h : Inserts serde fp id s r) :
    ¬ HasRow s fp ∧ RowOf (step serde s r) fp id := by
  obtain ⟨⟨p, hwrite, rfl, rfl⟩, hok⟩ := h
  rw [Succeeds, perform_insert hwrite] at hok
  obtain ⟨-, hfp, hrows⟩ := insert_ok hok
  rw [← perform_insert hwrite] at hrows
  exact ⟨not_not_intro hfp, rowOf_last hrows rfl rfl⟩

theorem Places.step (h : Places serde fp id s r) : RowOf (step serde s r) fp id := by
  obtain ⟨⟨t, t', hwrite⟩, hnone, hrow⟩ := h
  have hperforms : Performs serde s r (TrustStore.step serde s r) := step_performs serde s r
  cases hperforms with
  | placed fp' id' u u' hwrite' _ _ _ hrows =>
      rw [hwrite] at hwrite'
      cases hwrite'
      exact rowOf_last hrows rfl rfl
  | trusted fp' id' u u' hwrite' _ hfp =>
      rw [hwrite] at hwrite'
      cases hwrite'
      exact absurd hfp hnone
  | refused _ hrows => exact absurd (hrows ▸ hrow) hnone
  | ignored _ _ _ _ _ _ _ _ hrows => exact absurd (hrows ▸ hrow) hnone
  | inserted p hwrite' => rcases hwrite' with hwrite' | hwrite' <;> simp [hwrite] at hwrite'
  | updated p hwrite' => simp [hwrite] at hwrite'
  | deleted id' hwrite' => simp [hwrite] at hwrite'

theorem Inserted.rowOf {calls : List Request} (h : Inserted serde calls fp id) :
    RowOf (Runs.run (step serde) calls empty) fp id :=
  Runs.Since.holds (P := fun s => RowOf s fp id) h (fun _ _ hnow => hnow.step.2)
    fun _ _ => step_rowOf

theorem Placed.rowOf {calls : List Request} (h : Placed serde calls fp id) :
    RowOf (Runs.run (step serde) calls empty) fp id :=
  Runs.Since.holds (P := fun s => RowOf s fp id) h (fun _ _ => Places.step) fun _ _ => step_rowOf

/-- A row that is there was either inserted or placed. -/
theorem Inserted.not_placed {calls : List Request} (h : Inserted serde calls fp id) :
    ¬ Placed serde calls fp id := by
  induction calls using List.reverseRecOn with
  | nil => exact absurd h Runs.not_since_nil
  | append_singleton calls r ih =>
      intro hplaced
      rcases Runs.since_concat.mp h with hinserts | ⟨hinserted, -⟩
      · rcases Runs.since_concat.mp hplaced with ⟨⟨t, t', hplaces⟩, -⟩ | ⟨hplaced, -⟩
        · obtain ⟨⟨p, hwrite, -⟩, -⟩ := hinserts
          rcases hwrite with hwrite | hwrite <;> simp [hwrite] at hplaces
        · exact hinserts.step.1 (Placed.rowOf hplaced).hasRow
      · rcases Runs.since_concat.mp hplaced with ⟨-, hnone, -⟩ | ⟨hplaced, -⟩
        · exact hnone (Inserted.rowOf hinserted).hasRow
        · exact ih hinserted hplaced

/-! ## Rows that are read -/

/-- The row is read as a peer with its fingerprint. -/
def Decodes (serde : SerdeJson) (m : PeerModel) : Prop :=
  ∀ id now, ∃ p, m.toPeer serde id now = .ok p ∧ p.fingerprint.toFormattedString = m.fingerprint

theorem decodes_ofPeer {p : Peer} (hp : p.WellFormed) (hserde : AddressesRoundTrip serde p) :
    Decodes serde (.ofPeer serde p) :=
  fun id now => ⟨_, toPeer_ofPeer hp hserde id now, rfl⟩

/-- What is read of a row that was updated is what the update wrote. -/
theorem decodes_setColumns {p : Peer} {row : PeerRow} (hp : p.WellFormed)
    (hserde : AddressesRoundTrip serde p)
    (hfp : row.fingerprint = p.fingerprint.toFormattedString) :
    Decodes serde (row.setColumns (.ofPeer serde p)).model := by
  intro id now
  obtain ⟨q, hq, hqfp⟩ := decodes_ofPeer hp hserde id now
  refine ⟨q, ?_, hqfp.trans hfp.symm⟩
  rw [← hq]
  simp only [PeerModel.toPeer, PeerRow.setColumns, PeerModel.ofPeer, hfp]

/-- The peers that are stored are ones the code can make, and the JSON library
undoes itself on their addresses. -/
def StoresPeers (serde : SerdeJson) (calls : List Request) : Prop :=
  ∀ r ∈ calls, ∀ p ∈ r.write.peer, p.Reachable ∧ AddressesRoundTrip serde p

/-- The row was placed, or it was inserted and is read. -/
def Origin (serde : SerdeJson) (calls : List Request) (row : PeerRow) : Prop :=
  ∃ fp id, row.fingerprint = fp.toFormattedString ∧ row.id = id.toString ∧
    (Placed serde calls fp id ∨ (Inserted serde calls fp id ∧ Decodes serde row.model))

/-- A row that a call leaves where it was keeps its origin. -/
theorem Origin.kept {calls : List Request} {row row' : PeerRow} (h : Origin serde calls row)
    (hfp : row'.fingerprint = row.fingerprint) (hid : row'.id = row.id)
    (hdecodes : Decodes serde row.model → Decodes serde row'.model)
    (hkept : ∀ id, row.id = id.toString →
      ¬ Deletes serde id (Runs.run (step serde) calls empty) r) :
    Origin serde (calls ++ [r]) row' := by
  obtain ⟨fp, id, hrow, hrowid, horigin⟩ := h
  refine ⟨fp, id, hfp.trans hrow, hid.trans hrowid, ?_⟩
  have hnot := hkept id hrowid
  rcases horigin with hplaced | ⟨hinserted, hread⟩
  · exact .inl (Runs.since_concat.mpr (.inr ⟨hplaced, hnot⟩))
  · exact .inr ⟨Runs.since_concat.mpr (.inr ⟨hinserted, hnot⟩), hdecodes hread⟩

theorem not_deletes (hwrite : ∀ id, r.write ≠ .delete id) (id : Uuid) : ¬ Deletes serde id s r :=
  fun h => hwrite id h.1

/-- The rows behind one more call; one that is new was inserted or placed by it. -/
theorem step_origin {calls : List Request} (hs : Runs.run (step serde) calls empty = s)
    (hstored : ∀ p ∈ r.write.peer, p.WellFormed ∧ AddressesRoundTrip serde p)
    (hbefore : ∀ row ∈ s.peers, Origin serde calls row) {row : PeerRow}
    (hrow : row ∈ (step serde s r).peers) : Origin serde (calls ++ [r]) row := by
  have hsame : (∀ id, ¬ Deletes serde id s r) → ∀ row ∈ s.peers,
      Origin serde (calls ++ [r]) row := by
    intro hnot row hold
    refine (hbefore row hold).kept rfl rfl (fun h => h) ?_
    intro id _
    rw [hs]
    exact hnot id
  have hperforms : Performs serde s r (step serde s r) := step_performs serde s r
  cases hperforms with
  | refused hfails hrows =>
      rw [hrows] at hrow
      exact hsame (fun id h => hfails h.2) row hrow
  | ignored fp id t t' hwrite _ _ _ hrows =>
      rw [hrows] at hrow
      exact hsame (not_deletes (by simp [hwrite])) row hrow
  | inserted p hwrite hok _ _ hrows =>
      rw [hrows] at hrow
      rcases List.mem_append.mp hrow with hold | hnew
      · refine hsame (not_deletes fun id => ?_) row hold
        rcases hwrite with hwrite | hwrite <;> simp [hwrite]
      · rw [List.mem_singleton.mp hnew]
        have hp : p ∈ r.write.peer := by
          rcases hwrite with hwrite | hwrite <;> simp [hwrite, Write.peer]
        obtain ⟨hwell, hserde⟩ := hstored p hp
        have hinserts : Inserts serde p.fingerprint p.id s r := ⟨⟨p, hwrite, rfl, rfl⟩, hok⟩
        rw [← hs] at hinserts
        exact ⟨p.fingerprint, p.id, rfl, rfl,
          .inr ⟨Runs.since_concat.mpr (.inl hinserts), decodes_ofPeer hwell hserde⟩⟩
  | placed fp id t t' hwrite _ _ hfp hrows =>
      rw [hrows] at hrow
      rcases List.mem_append.mp hrow with hold | hnew
      · exact hsame (not_deletes (by simp [hwrite])) row hold
      · rw [List.mem_singleton.mp hnew]
        have hthere : RowOf (step serde s r) fp id := rowOf_last hrows rfl rfl
        have hplaces : Places serde fp id s r := ⟨⟨t, t', hwrite⟩, not_not_intro hfp, hthere.hasRow⟩
        rw [← hs] at hplaces
        exact ⟨fp, id, rfl, rfl, .inl (Runs.since_concat.mpr (.inl hplaces))⟩
  | trusted fp id t t' hwrite _ _ hrows =>
      rw [hrows] at hrow
      obtain ⟨row', hold, rfl⟩ := Table.mem_modify.mp hrow
      have horigin := hsame (not_deletes (by simp [hwrite])) row' hold
      split
      · exact horigin
      · exact horigin
  | updated p hwrite _ hrows =>
      rw [hrows] at hrow
      obtain ⟨row', hold, rfl⟩ := Table.mem_modify.mp hrow
      split
      · next hfp =>
          obtain ⟨hwell, hserde⟩ := hstored p (by simp [hwrite, Write.peer])
          have hdecodes := decodes_setColumns hwell hserde hfp
          refine (hbefore row' hold).kept (PeerRow.setColumns_fingerprint _ _)
            (PeerRow.setColumns_id _ _) (fun _ => hdecodes) fun id _ => ?_
          exact not_deletes (by simp [hwrite]) id
      · exact hsame (not_deletes (by simp [hwrite])) row' hold
  | deleted id hwrite _ hrows =>
      rw [hrows] at hrow
      obtain ⟨hold, hother⟩ := Table.mem_erase.mp hrow
      refine (hbefore row hold).kept rfl rfl (fun h => h) ?_
      intro id' hid'
      rintro ⟨hwrite', -⟩
      rw [hwrite] at hwrite'
      cases hwrite'
      exact hother hid'

theorem run_origin {calls : List Request} (hpeers : StoresPeers serde calls) :
    ∀ row ∈ (Runs.run (step serde) calls empty).peers, Origin serde calls row := by
  induction calls using List.reverseRecOn with
  | nil => exact fun row hrow => absurd hrow List.not_mem_nil
  | append_singleton calls r ih =>
      have hbefore := ih fun r' hr' => hpeers r' (List.mem_append_left _ hr')
      have hstored : ∀ p ∈ r.write.peer, p.WellFormed ∧ AddressesRoundTrip serde p := by
        intro p hp
        obtain ⟨hreachable, hserde⟩ := hpeers r (by simp) p hp
        exact ⟨hreachable.wellFormed, hserde⟩
      intro row hrow
      rw [Runs.run_concat] at hrow
      exact step_origin rfl hstored hbefore hrow

/-! ## The reads -/

theorem hasRow_iff : HasRow s fp ↔ ∃ row ∈ s.peers, row.fingerprint = fp.toFormattedString := by
  rw [HasRow, selectByFingerprint, ne_eq, Table.find_eq_none_iff]
  constructor
  · intro h
    by_contra hnone
    exact h fun row hmem hfp => hnone ⟨row, hmem, hfp⟩
  · rintro ⟨row, hmem, hfp⟩ hnone
    exact hnone row hmem hfp

theorem getPeer_eq (serde : SerdeJson) (fp : Fingerprint) (id : Uuid) (now : DateTime)
    (s : PeerTables) :
    (getPeer serde .none fp id now s).outcome =
      match selectByFingerprint s fp.toFormattedString with
      | none => .ok none
      | some row =>
          match row.model.toPeer serde id now with
          | .ok p => .ok (some p)
          | .error _ => .err .internal := by
  rw [getPeer, getByFingerprint_eq]
  cases selectByFingerprint s fp.toFormattedString with
  | none => rfl
  | some row =>
      dsimp only
      cases row.model.toPeer serde id now with
      | ok p => rfl
      | error e => rfl

/-- A fingerprint with a row is never answered for with no peer. -/
theorem getPeer_none {now : DateTime} :
    (getPeer serde .none fp id now s).outcome = .ok none ↔ ¬ HasRow s fp := by
  rw [getPeer_eq, HasRow, not_not]
  cases selectByFingerprint s fp.toFormattedString with
  | none => simp
  | some row =>
      dsimp only
      cases row.model.toPeer serde id now with
      | ok p => simp
      | error e => simp

theorem getPeer_decodes (h : ∀ row ∈ s.peers, Decodes serde row.model) (hrow : HasRow s fp)
    (id : Uuid) (now : DateTime) :
    ∃ p, (getPeer serde .none fp id now s).outcome = .ok (some p) := by
  obtain ⟨row, hselect⟩ := Option.ne_none_iff_exists'.mp hrow
  obtain ⟨p, hp, -⟩ := h row (List.mem_of_find?_eq_some hselect) id now
  refine ⟨p, ?_⟩
  rw [getPeer_eq, hselect]
  dsimp only
  rw [hp]

theorem mapM_toPeer {rows : List PeerRow} (h : ∀ row ∈ rows, Decodes serde row.model)
    (draw : Nat → Uuid × DateTime) (k : Nat) :
    ∃ list, (rows.zipIdx k).mapM (fun (row, k) => row.model.toPeer serde (draw k).1 (draw k).2)
        = .ok list ∧
      (list.map Peer.fingerprint).map Fingerprint.toFormattedString
        = rows.map PeerRow.fingerprint := by
  induction rows generalizing k with
  | nil => exact ⟨[], rfl, rfl⟩
  | cons row rows ih =>
      obtain ⟨p, hp, hfp⟩ := h row List.mem_cons_self (draw k).1 (draw k).2
      obtain ⟨list, hlist, hfps⟩ :=
        ih (fun row' hrow' => h row' (List.mem_cons_of_mem _ hrow')) (k + 1)
      refine ⟨p :: list, ?_, ?_⟩
      · simp only [List.zipIdx_cons, List.mapM_cons, hp, hlist]
        rfl
      · rw [List.map_cons, List.map_cons, List.map_cons, hfps, hfp]

theorem listAll_decodes (hs : Keyed s) (h : ∀ row ∈ s.peers, Decodes serde row.model)
    (draw : Nat → Uuid × DateTime) :
    ∃ list, (listAll serde .none draw s).outcome = .ok list ∧ (list.map Peer.fingerprint).Nodup ∧
      ∀ fp, fp ∈ list.map Peer.fingerprint ↔ HasRow s fp := by
  obtain ⟨list, hlist, hfps⟩ := mapM_toPeer h draw 0
  refine ⟨list, ?_, ?_, fun fp => ?_⟩
  · simp only [listAll, attempt_none_bind, statement_bind, hlist]
    rfl
  · have hnodup : (s.peers.map PeerRow.fingerprint).Nodup := hs.unique
    rw [← hfps] at hnodup
    exact hnodup.of_map
  · have htext : fp ∈ list.map Peer.fingerprint ↔
        fp.toFormattedString ∈ s.peers.map PeerRow.fingerprint := by
      rw [← hfps]
      exact (List.mem_map_of_injective fun _ _ => Fingerprint.toFormattedString_injective).symm
    rw [htext, hasRow_iff, List.mem_map]

/-- The reads answer with the peers that were inserted and not deleted exactly
when there is no row left that `add_trusted` placed. -/
theorem readsRight_iff {calls : List Request} (hpeers : StoresPeers serde calls) :
    ReadsRight serde calls ↔ ∀ fp id, ¬ Placed serde calls fp id := by
  have hkeyed := run_keyed serde calls
  constructor
  · intro h fp id hplaced
    by_cases hheld : Held serde calls fp
    · obtain ⟨id', hinserted⟩ := hheld
      have hid : id' = id := hinserted.rowOf.id_eq hkeyed hplaced.rowOf
      rw [hid] at hinserted
      exact hinserted.not_placed hplaced
    · have hnone := (h.getPeer fp id 0).2 hheld
      exact getPeer_none.mp hnone hplaced.rowOf.hasRow
  · intro hnone
    have hinserted : ∀ row ∈ (Runs.run (step serde) calls empty).peers,
        ∃ fp, row.fingerprint = fp.toFormattedString ∧ Held serde calls fp ∧
          Decodes serde row.model := by
      intro row hrow
      obtain ⟨fp, id, hfp, -, hplaced | ⟨hinserted, hdecodes⟩⟩ := run_origin hpeers row hrow
      · exact absurd hplaced (hnone fp id)
      · exact ⟨fp, hfp, ⟨id, hinserted⟩, hdecodes⟩
    have hdecodes : ∀ row ∈ (Runs.run (step serde) calls empty).peers, Decodes serde row.model := by
      intro row hrow
      obtain ⟨fp, -, -, hdecodes⟩ := hinserted row hrow
      exact hdecodes
    have hheld : ∀ fp, HasRow (Runs.run (step serde) calls empty) fp ↔ Held serde calls fp := by
      intro fp
      constructor
      · intro hrow
        obtain ⟨row, hmem, hfp⟩ := hasRow_iff.mp hrow
        obtain ⟨fp', hfp', hheld, -⟩ := hinserted row hmem
        rw [Fingerprint.toFormattedString_injective (hfp.symm.trans hfp')]
        exact hheld
      · rintro ⟨id, h⟩
        exact h.rowOf.hasRow
    constructor
    · intro fp id now
      rw [← hheld]
      constructor
      · intro hrow
        exact getPeer_decodes hdecodes hrow id now
      · exact getPeer_none.mpr
    · intro draw
      obtain ⟨list, hlist, hnodup, hmem⟩ := listAll_decodes hkeyed hdecodes draw
      exact ⟨list, hlist, hnodup, fun fp => (hmem fp).trans (hheld fp)⟩

section
open Sample

theorem readsRight_stored :
    ReadsRight Sample.serde [⟨.insert peer, .none⟩] ↔
      ∀ fp id, ¬ Placed Sample.serde [⟨.insert peer, .none⟩] fp id := by
  refine readsRight_iff ?_
  intro r hr p hp
  rw [List.mem_singleton.mp hr] at hp
  cases hp
  exact ⟨peer_reachable, addressesJson, rfl, by decide +kernel⟩

/-- Bob is trusted before anybody knows him, and the read of his row fails. -/
theorem placeholder_not_read :
    ¬ ReadsRight Sample.serde [⟨.addTrusted bob ⟨Vector.replicate 16 2⟩ 0 0, .none⟩] := by
  intro h
  have hnot : ¬ Held Sample.serde [⟨.addTrusted bob ⟨Vector.replicate 16 2⟩ 0 0, .none⟩] bob := by
    rintro ⟨id, hinserted⟩
    have hlast : Inserted Sample.serde
        ([] ++ [⟨.addTrusted bob ⟨Vector.replicate 16 2⟩ 0 0, .none⟩]) bob id := hinserted
    rcases Runs.since_concat.mp hlast with ⟨⟨p, hwrite, -⟩, -⟩ | ⟨hnil, -⟩
    · simp at hwrite
    · exact Runs.not_since_nil hnil
  have hfails : (getPeer Sample.serde .none bob ⟨Vector.replicate 16 3⟩ 0
      (Runs.run (step Sample.serde) [⟨.addTrusted bob ⟨Vector.replicate 16 2⟩ 0 0, .none⟩]
        empty)).outcome = .err .internal := by decide +kernel
  exact absurd (hfails.symm.trans ((h.getPeer bob _ 0).2 hnot)) (by simp)

end

end TrustStore
end Rubix.Persistence
