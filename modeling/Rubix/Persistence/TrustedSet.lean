/-
# `Rubix.Persistence.TrustedSet` — the trust store against a set of fingerprints

What the trust store is for is a set: `add_trusted` puts a fingerprint in, and
`is_trusted` and `list_trusted` read it.  The set that a run of calls stands for
has the fingerprints an `add_trusted` has succeeded for (`Added`).  What the
table says of a fingerprint:

    no row                                   is_trusted fails with NotFound
    a row, `add_trusted` since it is there   trusted
    a row, `add_trusted` not since then      not trusted

So a fingerprint is answered for as the set has it if and only if it has a row,
and, if it is in the set, has had one ever since an `add_trusted` for it that
succeeded (`trustRight_iff`).
-/
import Rubix.Persistence.TrustStore

namespace Rubix.Persistence
namespace TrustStore

open Effect (Prog)
open PeerRepository

variable {serde : SerdeJson} {s : PeerTables} {r : Request} {fp : Fingerprint}

/-- The call is an `add_trusted` for the fingerprint, and succeeds. -/
def Adds (serde : SerdeJson) (fp : Fingerprint) (s : PeerTables) (r : Request) : Prop :=
  (∃ id t t', r.write = .addTrusted fp id t t') ∧ Succeeds serde s r

/-- The set of the run: some `add_trusted` for the fingerprint has succeeded. -/
def Added (serde : SerdeJson) (calls : List Request) (fp : Fingerprint) : Prop :=
  Runs.Since (step serde) (Adds serde fp) (fun _ _ => True) calls empty

/-- The fingerprint has had a row ever since some `add_trusted` for it
succeeded. -/
def KeptSinceAdded (serde : SerdeJson) (calls : List Request) (fp : Fingerprint) : Prop :=
  Runs.Since (step serde) (fun s r => Adds serde fp s r ∧ HasRow (step serde s r) fp)
    (fun s r => HasRow (step serde s r) fp) calls empty

/-- The trust store answers for the fingerprint as the set of the run has it. -/
structure TrustRight (serde : SerdeJson) (calls : List Request) (fp : Fingerprint) : Prop where
  isTrusted : (Added serde calls fp →
      (isTrusted .none fp (Runs.run (step serde) calls empty)).outcome = .ok true) ∧
    (¬ Added serde calls fp →
      (isTrusted .none fp (Runs.run (step serde) calls empty)).outcome = .ok false)
  listTrusted : ∃ list, (listTrusted .none (Runs.run (step serde) calls empty)).outcome = .ok list ∧
    (fp ∈ list ↔ Added serde calls fp)
  /-- adding it again is a no-op -/
  again : Added serde calls fp → ∀ id t t',
    (addTrusted .none fp id t t' (Runs.run (step serde) calls empty)).outcome = .ok () ∧
    (addTrusted .none fp id t t' (Runs.run (step serde) calls empty)).world =
      Runs.run (step serde) calls empty

/-! ## The column -/

/-- The row of the fingerprint has the column set. -/
def Flagged (s : PeerTables) (fp : Fingerprint) : Prop :=
  ∃ row, selectByFingerprint s fp.toFormattedString = some row ∧ row.trusted = 1

theorem Flagged.hasRow (h : Flagged s fp) : HasRow s fp := by
  obtain ⟨row, hrow, -⟩ := h
  rw [HasRow, hrow]
  exact Option.some_ne_none row

theorem Adds.eq {fp' : Fingerprint} {id : Uuid} {t t' : DateTime} (h : Adds serde fp s r)
    (hwrite : r.write = .addTrusted fp' id t t') : fp' = fp := by
  obtain ⟨⟨id', u, u', hadd⟩, -⟩ := h
  rw [hwrite] at hadd
  cases hadd
  rfl

/-- Where a call finds the row of the fingerprint as it leaves it. -/
theorem flagged_congr {s' : PeerTables}
    (hsame : selectByFingerprint s' fp.toFormattedString
      = selectByFingerprint s fp.toFormattedString) :
    Flagged s' fp ↔ Flagged s fp ∧ HasRow s' fp := by
  rw [Flagged, HasRow, hsame]
  constructor
  · intro h
    exact ⟨h, Flagged.hasRow h⟩
  · rintro ⟨h, -⟩
    exact h

/-- A call other than `add_trusted` keeps the column of the row, if it keeps the
row. -/
theorem step_flagged_quiet (h : Keyed s) (hquiet : ∀ fp id t t', r.write ≠ .addTrusted fp id t t') :
    Flagged (step serde s r) fp ↔ Flagged s fp ∧ HasRow (step serde s r) fp := by
  have hperforms : Performs serde s r (step serde s r) := step_performs serde s r
  cases hperforms with
  | refused _ hrows =>
      refine flagged_congr ?_
      rw [hrows]
  | trusted fp' id t t' hwrite _ _ _ => exact absurd hwrite (hquiet fp' id t t')
  | placed fp' id t t' hwrite _ _ _ _ => exact absurd hwrite (hquiet fp' id t t')
  | ignored fp' id t t' hwrite _ _ _ _ => exact absurd hwrite (hquiet fp' id t t')
  | inserted p _ _ _ hfp hrows =>
      have hselect := select_append rfl hfp hrows fp
      by_cases heq : p.fingerprint = fp
      · rw [if_pos heq] at hselect
        rw [heq] at hfp
        rw [Flagged, Flagged, hselect, hfp]
        constructor
        · rintro ⟨row, hrow, htrusted⟩
          cases hrow
          exact absurd htrusted (by simp [PeerRow.ofModel])
        · rintro ⟨⟨row, hrow, -⟩, -⟩
          simp at hrow
      · rw [if_neg heq] at hselect
        exact flagged_congr hselect
  | updated p _ _ hrows =>
      have hselect := select_modify (PeerRow.setColumns_fingerprint _) hrows fp
      by_cases heq : p.fingerprint = fp
      · rw [if_pos heq] at hselect
        rw [Flagged, Flagged, HasRow, hselect]
        constructor
        · rintro ⟨row, hrow, htrusted⟩
          obtain ⟨row', hrow', rfl⟩ := Option.map_eq_some_iff.mp hrow
          rw [PeerRow.setColumns_trusted] at htrusted
          exact ⟨⟨row', hrow', htrusted⟩, by simp [hrow']⟩
        · rintro ⟨⟨row, hrow, htrusted⟩, -⟩
          exact ⟨_, Option.map_eq_some_iff.mpr ⟨row, hrow, rfl⟩, htrusted⟩
      · rw [if_neg heq] at hselect
        exact flagged_congr hselect
  | deleted id _ _ hrows =>
      have hselect := h.select_erase hrows fp.toFormattedString
      rw [Flagged, Flagged, HasRow, hselect]
      constructor
      · rintro ⟨row, hrow, htrusted⟩
        refine ⟨⟨row, (Option.filter_eq_some_iff.mp hrow).1, htrusted⟩, ?_⟩
        rw [hrow]
        exact Option.some_ne_none row
      · rintro ⟨⟨row, hrow, htrusted⟩, hkept⟩
        obtain ⟨row', hrow'⟩ := Option.ne_none_iff_exists'.mp hkept
        -- the row that is kept is the one there was
        have hsame := (Option.filter_eq_some_iff.mp hrow').1
        rw [hrow] at hsame
        cases hsame
        exact ⟨row, hrow', htrusted⟩

/-- What a call makes of the column, in terms of the set. -/
def FollowsSet (serde : SerdeJson) (fp : Fingerprint) (s : PeerTables) (r : Request) : Prop :=
  Flagged (step serde s r) fp ↔
    (Adds serde fp s r ∧ HasRow (step serde s r) fp) ∨
      (Flagged s fp ∧ HasRow (step serde s r) fp)

/-- A call that does not add the fingerprint. -/
theorem followsSet_of_not_adds (hadds : ¬ Adds serde fp s r)
    (h : Flagged (step serde s r) fp ↔ Flagged s fp ∧ HasRow (step serde s r) fp) :
    FollowsSet serde fp s r := by
  rw [FollowsSet, h]
  simp [hadds]

/-- A call that adds a fingerprint, and leaves the rows of others as they are. -/
theorem followsSet_of_adds {fp' : Fingerprint} {id : Uuid} {t t' : DateTime}
    (hwrite : r.write = .addTrusted fp' id t t') (hok : Succeeds serde s r)
    (hflagged : Flagged (step serde s r) fp')
    (hsame : fp' ≠ fp → selectByFingerprint (step serde s r) fp.toFormattedString
      = selectByFingerprint s fp.toFormattedString) : FollowsSet serde fp s r := by
  by_cases heq : fp' = fp
  · rw [heq] at hwrite hflagged
    have hadds : Adds serde fp s r := ⟨⟨id, t, t', hwrite⟩, hok⟩
    exact iff_of_true hflagged (.inl ⟨hadds, hflagged.hasRow⟩)
  · exact followsSet_of_not_adds (fun hadd => heq (hadd.eq hwrite)) (flagged_congr (hsame heq))

/-- Where a row is trusted after a call. -/
theorem step_flagged (h : Keyed s) : FollowsSet serde fp s r := by
  have hquiet : (∀ fp id t t', r.write ≠ .addTrusted fp id t t') → FollowsSet serde fp s r := by
    intro hwrite
    have hadds : ¬ Adds serde fp s r := fun ⟨⟨id, t, t', hadd⟩, _⟩ => hwrite fp id t t' hadd
    exact followsSet_of_not_adds hadds (step_flagged_quiet h hwrite)
  have hperforms : Performs serde s r (step serde s r) := step_performs serde s r
  cases hperforms with
  | refused hfails hrows =>
      refine followsSet_of_not_adds (fun hadd => hfails hadd.2) (flagged_congr ?_)
      rw [hrows]
  | inserted p hwrite => exact hquiet (by rcases hwrite with hwrite | hwrite <;> simp [hwrite])
  | updated p hwrite => exact hquiet (by simp [hwrite])
  | deleted id hwrite => exact hquiet (by simp [hwrite])
  | trusted fp' id t t' hwrite hok hfp hrows =>
      have hselect := select_modify PeerRow.trust_fingerprint hrows
      obtain ⟨row, hrow⟩ := Option.ne_none_iff_exists'.mp hfp
      refine followsSet_of_adds hwrite hok ⟨row.trust, ?_, rfl⟩ fun hne => ?_
      · rw [hselect, if_pos rfl, hrow]
        rfl
      · rw [hselect, if_neg hne]
  | placed fp' id t t' hwrite hok hid hfp hrows =>
      have hselect := select_append rfl hfp hrows
      refine followsSet_of_adds hwrite hok ⟨_, (hselect fp').trans (if_pos rfl), rfl⟩ ?_
      intro hne
      rw [hselect, if_neg hne]
  | ignored fp' id t t' hwrite hok hid hfp hrows =>
      by_cases heq : fp' = fp
      · -- there was no row, and there is none
        have hnone : ¬ HasRow (step serde s r) fp := by
          rw [hrows, ← heq]
          exact not_not_intro hfp
        have hnot : ¬ Flagged (step serde s r) fp := fun hflagged => hnone hflagged.hasRow
        rw [FollowsSet]
        simp [hnone, hnot]
      · refine followsSet_of_not_adds (fun hadd => heq (hadd.eq hwrite)) (flagged_congr ?_)
        rw [hrows]

/-! ## What the reads say -/

theorem isTrusted_eq (fp : Fingerprint) (s : PeerTables) :
    (isTrusted .none fp s).outcome =
      match selectByFingerprint s fp.toFormattedString with
      | some row => .ok (decide (row.trusted = 1))
      | none => .err (.peer .notFound) := by
  simp only [isTrusted, attempt_none_bind, statement_bind]
  cases selectByFingerprint s fp.toFormattedString with
  | some row => rfl
  | none => rfl

/-- `is_trusted` answers where there is a row, and as the column says. -/
theorem isTrusted_ok {b : Bool} :
    (isTrusted .none fp s).outcome = .ok b ↔
      HasRow s fp ∧ (b = true ↔ Flagged s fp) := by
  rw [isTrusted_eq, HasRow, Flagged]
  cases selectByFingerprint s fp.toFormattedString with
  | none => simp
  | some row =>
      have hcolumn : (∃ row', some row = some row' ∧ row'.trusted = 1) ↔ row.trusted = 1 := by
        simp
      rw [hcolumn]
      constructor
      · intro hok
        cases hok
        exact ⟨Option.some_ne_none row, decide_eq_true_iff⟩
      · rintro ⟨-, hb⟩
        have hanswer : decide (row.trusted = 1) = b := by
          rw [Bool.eq_iff_iff, decide_eq_true_iff]
          exact hb.symm
        show Effect.Outcome.ok _ = _
        rw [hanswer]

/-- Texts that fingerprints were written as are read as those. -/
theorem mapM_fromHex {texts : List String}
    (h : ∀ t ∈ texts, ∃ fp : Fingerprint, t = fp.toFormattedString) :
    ∃ list : List Fingerprint, texts.mapM Fingerprint.fromHex = .ok list ∧
      texts = list.map Fingerprint.toFormattedString := by
  induction texts with
  | nil => exact ⟨[], rfl, rfl⟩
  | cons t texts ih =>
      obtain ⟨fp, rfl⟩ := h _ List.mem_cons_self
      obtain ⟨list, hlist, htexts⟩ := ih fun t ht => h t (List.mem_cons_of_mem _ ht)
      refine ⟨fp :: list, ?_, ?_⟩
      · rw [List.mapM_cons, Fingerprint.fromHex_toFormattedString, hlist]
        rfl
      · rw [htexts, List.map_cons]

/-- `list_trusted` lists the fingerprints whose rows have the column set. -/
theorem listTrusted_ok (h : Keyed s) :
    ∃ list, (listTrusted .none s).outcome = .ok list ∧ ∀ fp, fp ∈ list ↔ Flagged s fp := by
  have hmem : ∀ t,
      t ∈ selectTrusted s ↔ ∃ row ∈ s.peers, row.trusted = 1 ∧ row.fingerprint = t := by
    intro t
    simp only [selectTrusted, List.mem_map, List.mem_filter, decide_eq_true_iff, and_assoc]
  have hreadable : ∀ t ∈ selectTrusted s, ∃ fp : Fingerprint, t = fp.toFormattedString := by
    intro t ht
    obtain ⟨row, hrow, -, rfl⟩ := (hmem t).mp ht
    exact h.readable row hrow
  obtain ⟨list, hlist, htexts⟩ := mapM_fromHex hreadable
  refine ⟨list, ?_, fun fp => ?_⟩
  · simp only [listTrusted, attempt_none_bind, statement_bind, hlist]
    rfl
  · have htext : fp ∈ list ↔ fp.toFormattedString ∈ selectTrusted s := by
      rw [htexts, List.mem_map]
      constructor
      · exact fun hfp => ⟨fp, hfp, rfl⟩
      · rintro ⟨fp', hfp', heq⟩
        rw [← Fingerprint.toFormattedString_injective heq]
        exact hfp'
    rw [htext, hmem, Flagged]
    constructor
    · rintro ⟨row, hrow, htrusted, hfp⟩
      exact ⟨row, h.select.mpr ⟨hrow, hfp⟩, htrusted⟩
    · rintro ⟨row, hselect, htrusted⟩
      obtain ⟨hrow, hfp⟩ := h.select.mp hselect
      exact ⟨row, hrow, htrusted, hfp⟩

/-- Trusting what is trusted changes nothing. -/
theorem addTrusted_flagged (h : Keyed s) (hflagged : Flagged s fp) (id : Uuid) (t t' : DateTime) :
    (addTrusted .none fp id t t' s).outcome = .ok () ∧
      (addTrusted .none fp id t t' s).world = s := by
  obtain ⟨row, hselect, htrusted⟩ := hflagged
  have hsame : Table.modify PeerRow.fingerprint PeerRow.trust s.peers fp.toFormattedString
      = s.peers := by
    refine (List.map_congr_left fun row' hrow' => ?_).trans (List.map_id s.peers)
    split
    · next hfp =>
        have hfound := h.select.mpr ⟨hrow', hfp⟩
        rw [hselect] at hfound
        cases hfound
        rw [PeerRow.trust, ← htrusted]
        rfl
    · rfl
  simp only [addTrusted, attempt_none_bind, statement_bind, trustRow, hselect, hsame]
  exact ⟨rfl, rfl⟩

/-! ## Over the run -/

theorem flagged_iff (serde : SerdeJson) (calls : List Request) (fp : Fingerprint) :
    Flagged (Runs.run (step serde) calls empty) fp ↔ KeptSinceAdded serde calls fp := by
  have hnew : ¬ Flagged empty fp := by
    rintro ⟨row, hrow, -⟩
    simp [selectByFingerprint, empty, Table.find] at hrow
  exact Runs.iff_since (P := fun s => Flagged s fp) (Q := Keyed) keyed_empty
    (fun _ _ h => step_keyed h) hnew (fun _ _ h => step_flagged h) calls

theorem KeptSinceAdded.added {calls : List Request} (h : KeptSinceAdded serde calls fp) :
    Added serde calls fp :=
  Runs.Since.imp h (fun _ _ hadds => hadds.1) fun _ _ _ => trivial

/-- The trust store answers for a fingerprint as the set has it exactly when
the fingerprint has a row, and has had one since it was put into the set, if it
was. -/
theorem trustRight_iff (serde : SerdeJson) (calls : List Request) (fp : Fingerprint) :
    TrustRight serde calls fp ↔
      HasRow (Runs.run (step serde) calls empty) fp ∧
        (Added serde calls fp → KeptSinceAdded serde calls fp) := by
  have hkeyed := run_keyed serde calls
  have hflagged := flagged_iff serde calls fp
  constructor
  · intro h
    by_cases hadded : Added serde calls fp
    · obtain ⟨hrow, htrusted⟩ := isTrusted_ok.mp (h.isTrusted.1 hadded)
      exact ⟨hrow, fun _ => hflagged.mp (htrusted.mp rfl)⟩
    · obtain ⟨hrow, -⟩ := isTrusted_ok.mp (h.isTrusted.2 hadded)
      exact ⟨hrow, fun hadd => absurd hadd hadded⟩
  · rintro ⟨hrow, hkept⟩
    have hset : Flagged (Runs.run (step serde) calls empty) fp ↔ Added serde calls fp :=
      hflagged.trans ⟨KeptSinceAdded.added, hkept⟩
    constructor
    · constructor
      · intro hadded
        refine isTrusted_ok.mpr ⟨hrow, ?_⟩
        simp [hset, hadded]
      · intro hadded
        refine isTrusted_ok.mpr ⟨hrow, ?_⟩
        simp [hset, hadded]
    · obtain ⟨list, hlist, hmem⟩ := listTrusted_ok hkeyed
      exact ⟨list, hlist, (hmem fp).trans hset⟩
    · intro hadded id t t'
      exact addTrusted_flagged hkeyed (hset.mpr hadded) id t t'

open Sample in
/-- Nobody has been heard of, and whether Bob is trusted is an error. -/
theorem unknown_not_answered : ¬ TrustRight Sample.serde [] bob := by
  intro h
  have hnone : ¬ Added Sample.serde [] bob := Runs.not_since_nil
  have herr : (isTrusted .none bob (Runs.run (step Sample.serde) [] empty)).outcome
      = .err (.peer .notFound) := by decide +kernel
  exact absurd (herr.symm.trans (h.isTrusted.2 hnone)) (by simp)

open Sample in
/-- Bob is stored, trusted, deleted and stored again: trust went with the row. -/
example : (isTrusted .none bob (Runs.run (step Sample.serde)
    [⟨.insert peer, .none⟩, ⟨.addTrusted bob ⟨Vector.replicate 16 2⟩ 0 0, .none⟩,
      ⟨.delete peer.id, .none⟩, ⟨.insert peer, .none⟩] empty)).outcome = .ok false := by
  decide +kernel

end TrustStore
end Rubix.Persistence
