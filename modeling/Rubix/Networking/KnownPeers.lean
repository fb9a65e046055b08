/-
# `Rubix.Networking.KnownPeers` — the map of known peers under many callers

`add_peer` reads the size of the map, and asks for the fingerprint only where
the limit is reached; then it inserts.  These are calls of their own on the map,
and other callers run in between, as does the task that removes the stale peers,
one entry after the other:

    add_peer       counting → inserting → returned
                      └────→ looking → inserting | returned
    cleanup task   sweep of a fingerprint, at the reading taken before the first

A lone call, and a cleanup that nothing interrupts, are those of
`Rubix.Networking.ConnectionManager` (`run_addPeer`, `run_sweeps`).  Among
others the limit is exceeded by exactly the callers that overlap between their
check and their insertion (`peers_limited`), while what `get_peer` answers does
not depend on them (`getPeer_exact`).
-/
import Rubix.Lib.CheckThenAct
import Rubix.Networking.ConnectionManager

namespace Rubix.Networking

/-- A call of `add_peer`, by what it does next. -/
inductive Adding where
  | counting (info : PeerInfo)
  | looking (info : PeerInfo)
  | inserting (info : PeerInfo)
  | returned (result : NetworkResult Unit)
  deriving DecidableEq

/-- What a call has passed its check with. -/
def Adding.granted? : Adding → Option Fingerprint
  | .inserting info => some info.fingerprint
  | _ => none

/-- A call for a peer that has not been refused. -/
def Adding.Unrefused (info : PeerInfo) : Adding → Prop
  | .counting p | .looking p | .inserting p => p = info
  | .returned result => result = .ok ()

structure KnownPeers where
  peers : List PeerInfo
  calls : List Adding
  deriving DecidableEq

inductive PeersEvent where
  | addPeer (info : PeerInfo)
  /-- A call goes on by one access to the map. -/
  | advance (call : Nat)
  /-- The cleanup comes to a fingerprint. -/
  | sweep (now : DateTime) (fp : Fingerprint)

namespace KnownPeers

def new : KnownPeers := ⟨[], []⟩

/-- `get_peer` -/
def getPeer (s : KnownPeers) (fp : Fingerprint) : Option PeerInfo :=
  Table.find PeerInfo.fingerprint s.peers fp

def setCall (s : KnownPeers) (i : Nat) (call : Adding) : KnownPeers :=
  { s with calls := s.calls.set i call }

/-- The accesses of `add_peer`. -/
def advance (s : KnownPeers) (i : Nat) : Adding → KnownPeers
  | .counting info =>
      if maxPeers ≤ s.peers.length then s.setCall i (.looking info)
      else s.setCall i (.inserting info)
  | .looking info =>
      if (s.getPeer info.fingerprint).isSome then s.setCall i (.inserting info)
      else s.setCall i (.returned (.error (.peerLimitExceeded maxPeers)))
  | .inserting info =>
      { peers := Table.put PeerInfo.fingerprint s.peers info
        calls := s.calls.set i (.returned (.ok ())) }
  | .returned _ => s

/-- Peers seen in the last 5 minutes are kept. -/
def keep (now : DateTime) (info : PeerInfo) : Bool := decide (now - info.lastSeen < seconds 300)

/-- `cleanup_stale`, of the entry of one fingerprint. -/
def sweep (s : KnownPeers) (now : DateTime) (fp : Fingerprint) : KnownPeers :=
  { s with peers := s.peers.filter fun info => decide (info.fingerprint ≠ fp) || keep now info }

def step (s : KnownPeers) : PeersEvent → KnownPeers
  | .addPeer info => { s with calls := s.calls ++ [.counting info] }
  | .advance i =>
      match s.calls[i]? with
      | some call => s.advance i call
      | none => s
  | .sweep now fp => s.sweep now fp

/-- The calls between their check and their insertion. -/
def inserting (s : KnownPeers) : Nat := (s.calls.filterMap Adding.granted?).length

/-- A peer is inserted in this step. -/
def Inserts (info : PeerInfo) (s : KnownPeers) (e : PeersEvent) : Prop :=
  ∃ i, e = .advance i ∧ s.calls[i]? = some (.inserting info)

/-- The step does not insert the peer anew, nor remove it for its age. -/
structure Keeps (info : PeerInfo) (s : KnownPeers) (e : PeersEvent) : Prop where
  others : ∀ other, Inserts other s e → other.fingerprint ≠ info.fingerprint
  fresh : ∀ now, e = .sweep now info.fingerprint → now - info.lastSeen < seconds 300

/-! ## One call, and one cleanup, by themselves -/

theorem step_advance (peers : List PeerInfo) (front : List Adding) (call : Adding)
    (rest : List Adding) :
    step ⟨peers, front ++ call :: rest⟩ (.advance front.length)
      = advance ⟨peers, front ++ call :: rest⟩ front.length call := by
  have hcall : (front ++ call :: rest)[front.length]? = some call := by
    rw [List.getElem?_append_right (Nat.le_refl _), Nat.sub_self]
    rfl
  rw [step]
  dsimp only
  rw [hcall]

theorem set_advance (front : List Adding) (call call' : Adding) (rest : List Adding) :
    (front ++ call :: rest).set front.length call' = front ++ call' :: rest := by
  rw [List.set_append_right _ _ (Nat.le_refl _), Nat.sub_self]
  rfl

/-- A call that runs alone is `add_peer` of the manager. -/
theorem run_addPeer {C : Type} (m : ConnectionManager C) (info : PeerInfo) (calls : List Adding) :
    let n := calls.length
    Runs.run step [.addPeer info, .advance n, .advance n, .advance n] ⟨m.peers, calls⟩
      = ⟨(m.addPeer info).2.peers, calls ++ [.returned (m.addPeer info).1]⟩ := by
  intro n
  show step (step (step ⟨m.peers, calls ++ [.counting info]⟩ (.advance n)) (.advance n))
    (.advance n) = _
  rw [step_advance, advance, ConnectionManager.addPeer]
  split
  · next hlimit =>
      rw [setCall, set_advance, step_advance, advance, getPeer]
      cases hfound : (Table.find PeerInfo.fingerprint m.peers info.fingerprint).isSome with
      | true =>
          rw [if_pos rfl, setCall, set_advance, step_advance, advance, set_advance,
            if_neg fun h => Bool.false_ne_true h.2.symm]
      | false =>
          rw [if_neg Bool.false_ne_true, setCall, set_advance, step_advance, advance,
            if_pos ⟨hlimit, rfl⟩]
  · next hroom =>
      rw [setCall, set_advance, step_advance, advance, set_advance, step_advance, advance,
        if_neg (fun h => hroom h.1)]

/-- What the sweeps of some fingerprints leave. -/
theorem run_sweeps_some (s : KnownPeers) (now : DateTime) (fps : List Fingerprint) :
    Runs.run step (fps.map (.sweep now)) s
      = { s with
          peers := s.peers.filter fun info =>
            decide (info.fingerprint ∉ fps) || keep now info } := by
  induction fps generalizing s with
  | nil =>
      show s = _
      simp
  | cons fp fps ih =>
      rw [List.map_cons, Runs.run_cons, ih]
      show KnownPeers.mk _ s.calls = ⟨_, s.calls⟩
      simp only [step, sweep, List.filter_filter, List.mem_cons]
      refine congrArg (KnownPeers.mk · s.calls) (congrArg (List.filter · s.peers) ?_)
      funext info
      by_cases hfp : info.fingerprint = fp
      · cases hkeep : keep now info with
        | true => simp
        | false => simp [hfp]
      · simp [hfp]

/-- A cleanup that nothing interrupts is `cleanup_stale` of the manager. -/
theorem run_sweeps {C : Type} (m : ConnectionManager C) (now : DateTime) (calls : List Adding) :
    Runs.run step ((m.peers.map PeerInfo.fingerprint).map (.sweep now)) ⟨m.peers, calls⟩
      = ⟨(m.cleanupStale now).peers, calls⟩ := by
  rw [run_sweeps_some]
  refine congrArg (KnownPeers.mk · calls) (List.filter_congr ?_)
  intro info hinfo
  have hmem : info.fingerprint ∈ m.peers.map PeerInfo.fingerprint := List.mem_map_of_mem hinfo
  simp [hmem, keep]

/-! ## What a step can do -/

/-- The peers before and after a step. -/
inductive Writes (s : KnownPeers) (e : PeersEvent) (s' : KnownPeers) : Prop where
  | inserts (info : PeerInfo) (hinserts : Inserts info s e)
      (hpeers : s'.peers = Table.put PeerInfo.fingerprint s.peers info)
  | sweeps (now : DateTime) (fp : Fingerprint) (hsweep : e = .sweep now fp)
      (hpeers : s'.peers = (s.sweep now fp).peers)
  | none (hinserts : ∀ info, ¬ Inserts info s e) (hsweep : ∀ now fp, e ≠ .sweep now fp)
      (hpeers : s'.peers = s.peers)

section
variable {s : KnownPeers} {e : PeersEvent}

theorem not_inserts {i : Nat} {call : Adding} (hcall : s.calls[i]? = some call)
    (hother : ∀ info, call ≠ .inserting info) (info : PeerInfo) :
    ¬ Inserts info s (.advance i) := by
  rintro ⟨j, hj, hinserting⟩
  cases hj
  rw [hcall] at hinserting
  exact hother info (Option.some.inj hinserting)

theorem step_writes (s : KnownPeers) (e : PeersEvent) : Writes s e (step s e) := by
  cases e with
  | addPeer info =>
      refine .none ?_ (by intro now fp h; cases h) rfl
      rintro info' ⟨i, hi, -⟩
      cases hi
  | sweep now fp => exact .sweeps now fp rfl rfl
  | advance i =>
      have hsweep : ∀ now fp, PeersEvent.advance i ≠ .sweep now fp := by
        intro now fp h
        cases h
      rw [step]
      split
      · next call hcall =>
          cases call with
          | counting info =>
              refine .none (not_inserts hcall (by intro info' h; cases h)) hsweep ?_
              rw [advance]
              split
              · rfl
              · rfl
          | looking info =>
              refine .none (not_inserts hcall (by intro info' h; cases h)) hsweep ?_
              rw [advance]
              split
              · rfl
              · rfl
          | inserting info => exact .inserts info ⟨i, rfl, hcall⟩ rfl
          | returned result =>
              exact .none (not_inserts hcall (by intro info' h; cases h)) hsweep rfl
      · next hnone =>
          refine .none ?_ hsweep rfl
          rintro info ⟨j, hj, hinserting⟩
          cases hj
          exact absurd hinserting (by rw [hnone]; intro h; cases h)

theorem unique_step (h : Table.Unique PeerInfo.fingerprint s.peers) :
    Table.Unique PeerInfo.fingerprint (step s e).peers := by
  have hwrites : Writes s e (step s e) := step_writes s e
  cases hwrites with
  | inserts info _ hpeers =>
      rw [hpeers]
      exact h.put info
  | sweeps now fp _ hpeers =>
      rw [hpeers]
      exact h.filter _
  | none _ _ hpeers =>
      rw [hpeers]
      exact h

end

/-! ## The limit -/

/-- The fingerprints in the map, and those of the calls past their check. -/
def keys (s : KnownPeers) : CheckThenAct.State Fingerprint where
  present := (s.peers.map PeerInfo.fingerprint).toFinset
  granted := (s.calls.filterMap Adding.granted?).toFinset

section
variable {s s' : KnownPeers} {e : PeersEvent}

theorem mem_present {fp : Fingerprint} :
    fp ∈ (keys s).present ↔ ∃ info ∈ s.peers, info.fingerprint = fp := by
  rw [keys, List.mem_toFinset, List.mem_map]

theorem mem_granted {fp : Fingerprint} :
    fp ∈ (keys s).granted ↔ ∃ call ∈ s.calls, call.granted? = some fp := by
  rw [keys, List.mem_toFinset, List.mem_filterMap]

theorem granted_le (s : KnownPeers) : (keys s).granted.card ≤ s.inserting :=
  List.toFinset_card_le _

theorem card_present_le (s : KnownPeers) : (keys s).present.card ≤ s.peers.length := by
  have hcard := List.toFinset_card_le (s.peers.map PeerInfo.fingerprint)
  rwa [List.length_map] at hcard

theorem card_present (h : Table.Unique PeerInfo.fingerprint s.peers) :
    (keys s).present.card = s.peers.length := by
  have hcard := List.toFinset_card_of_nodup h
  rwa [List.length_map] at hcard

/-- A call goes on, and what it has passed its check with is no new key. -/
theorem moves_of_call {i : Nat} {call : Adding} (hcalls : s'.calls = s.calls.set i call)
    (hpresent : (keys s').present ⊆ (keys s).present ∪ (keys s).granted)
    (hcall : ∀ fp, call.granted? = some fp → fp ∈ (keys s).present ∪ (keys s).granted) :
    CheckThenAct.Moves maxPeers (keys s) (keys s') := by
  refine .keeps (Finset.union_subset hpresent ?_)
  intro fp hfp
  obtain ⟨call', hmem, hgranted⟩ := mem_granted.mp hfp
  rw [hcalls] at hmem
  rcases List.mem_or_eq_of_mem_set hmem with hold | rfl
  · exact Finset.mem_union_right _ (mem_granted.mpr ⟨call', hold, hgranted⟩)
  · exact hcall fp hgranted

theorem advance_moves {i : Nat} {call : Adding} (hcall : s.calls[i]? = some call) :
    CheckThenAct.Moves maxPeers (keys s) (keys (s.advance i call)) := by
  have hnothing : ∀ {call' : Adding}, call'.granted? = none →
      ∀ fp, call'.granted? = some fp → fp ∈ (keys s).present ∪ (keys s).granted := by
    intro call' hnone fp hsome
    rw [hnone] at hsome
    cases hsome
  cases call with
  | counting info =>
      rw [advance]
      split
      · exact moves_of_call rfl Finset.subset_union_left (hnothing rfl)
      · next hroom =>
          have hcard := card_present_le s
          exact .grants (Nat.lt_of_le_of_lt hcard (Nat.not_le.mp hroom)) rfl
  | looking info =>
      rw [advance]
      split
      · next hfound =>
          refine moves_of_call rfl Finset.subset_union_left ?_
          intro fp hfp
          cases hfp
          obtain ⟨other, hother⟩ := Option.isSome_iff_exists.mp hfound
          have hmem : other ∈ s.peers := List.mem_of_find?_eq_some hother
          exact Finset.mem_union_left _ (mem_present.mpr ⟨other, hmem, Table.key_of_find hother⟩)
      · exact moves_of_call rfl Finset.subset_union_left (hnothing rfl)
  | inserting info =>
      rw [advance]
      refine moves_of_call rfl ?_ (hnothing rfl)
      intro fp hfp
      obtain ⟨other, hother, rfl⟩ := mem_present.mp hfp
      rcases Table.mem_put.mp hother with ⟨hold, -⟩ | rfl
      · exact Finset.mem_union_left _ (mem_present.mpr ⟨other, hold, rfl⟩)
      · -- the call has passed its check with it
        have hmem := List.mem_of_getElem? hcall
        exact Finset.mem_union_right _ (mem_granted.mpr ⟨.inserting other, hmem, rfl⟩)
  | returned result => exact .keeps Finset.Subset.rfl

theorem step_moves (s : KnownPeers) (e : PeersEvent) :
    CheckThenAct.Moves maxPeers (keys s) (keys (step s e)) := by
  cases e with
  | addPeer info =>
      refine .keeps (Finset.union_subset_union Finset.Subset.rfl ?_)
      intro fp hfp
      obtain ⟨call, hmem, hgranted⟩ := mem_granted.mp hfp
      rcases List.mem_append.mp hmem with hold | hlast
      · exact mem_granted.mpr ⟨call, hold, hgranted⟩
      · cases List.mem_singleton.mp hlast
        cases hgranted
  | advance i =>
      rw [step]
      split
      · next hcall => exact advance_moves hcall
      · exact .keeps Finset.Subset.rfl
  | sweep now fp =>
      refine .keeps (Finset.union_subset_union ?_ Finset.Subset.rfl)
      intro fp' hfp'
      obtain ⟨info, hmem, hinfo⟩ := mem_present.mp hfp'
      exact mem_present.mpr ⟨info, List.mem_of_mem_filter hmem, hinfo⟩

/-- With at most one call more than `k` between check and insertion at a time,
at most `k` peers are too many. -/
theorem length_peers_le {k : Nat} {events : List PeersEvent}
    (hfew : Runs.Always step (fun s => s.inserting ≤ k + 1) events new) :
    Runs.Always step (fun s => s.peers.length ≤ maxPeers + k) events new := by
  have hunique : Runs.Always step (fun s => Table.Unique PeerInfo.fingerprint s.peers) events new :=
    Runs.always_of_invariant (P := fun s : KnownPeers => Table.Unique PeerInfo.fingerprint s.peers)
      Table.unique_nil (fun _ _ h => unique_step h) events
  have hgranted : Runs.Always step (fun s => (keys s).granted.card ≤ k + 1) events new :=
    hfew.imp fun s h => Nat.le_trans (granted_le s) h
  have hcard := CheckThenAct.card_present_le step_moves (Nat.zero_le _) hgranted
  intro before hbefore
  rw [← card_present (hunique before hbefore)]
  exact hcard before hbefore

end

/-! ## How many there can be -/

/-- A run leads from `s` to `s'`, with at most `n` calls between check and
insertion at a time. -/
def Reaches (n : Nat) (s s' : KnownPeers) : Prop :=
  ∃ events, Runs.Always step (fun s => s.inserting ≤ n) events s ∧ Runs.run step events s = s'

section
variable {n : Nat} {s s' s'' : KnownPeers} {peers infos : List PeerInfo} {calls : List Adding}

theorem Reaches.here (h : s.inserting ≤ n) : Reaches n s s :=
  ⟨[], Runs.always_nil.mpr h, rfl⟩

theorem Reaches.next (h : s.inserting ≤ n) (e : PeersEvent) (hrest : Reaches n (step s e) s') :
    Reaches n s s' := by
  obtain ⟨events, halways, hrun⟩ := hrest
  exact ⟨e :: events, Runs.always_cons.mpr ⟨h, halways⟩, hrun⟩

theorem Reaches.trans (h : Reaches n s s') (h' : Reaches n s' s'') : Reaches n s s'' := by
  obtain ⟨events, halways, rfl⟩ := h
  obtain ⟨events', halways', rfl⟩ := h'
  exact ⟨events ++ events', halways.append halways', Runs.run_append events events'⟩

theorem Reaches.mono {m : Nat} (h : Reaches n s s') (hle : n ≤ m) : Reaches m s s' := by
  obtain ⟨events, halways, hrun⟩ := h
  exact ⟨events, halways.imp fun s hs => Nat.le_trans hs hle, hrun⟩

theorem granted_counting (infos : List PeerInfo) :
    (infos.map Adding.counting).filterMap Adding.granted? = [] := by
  induction infos with
  | nil => rfl
  | cons info infos ih => exact ih

theorem granted_inserting (infos : List PeerInfo) :
    (infos.map Adding.inserting).filterMap Adding.granted? = infos.map PeerInfo.fingerprint := by
  induction infos with
  | nil => rfl
  | cons info infos ih => exact congrArg (info.fingerprint :: ·) ih

/-- The calls between check and insertion, where no others are. -/
theorem inserting_calls (peers : List PeerInfo) {front rest : List Adding}
    (hfront : front.filterMap Adding.granted? = []) (hrest : rest.filterMap Adding.granted? = [])
    (infos : List PeerInfo) :
    (KnownPeers.mk peers (front ++ (infos.map Adding.inserting ++ rest))).inserting
      = infos.length := by
  rw [inserting, List.filterMap_append, hfront, List.nil_append, List.filterMap_append, hrest,
    List.append_nil, granted_inserting, List.length_map]

/-- All are called. -/
theorem reaches_called (hcalls : calls.filterMap Adding.granted? = []) :
    Reaches n ⟨peers, calls⟩ ⟨peers, calls ++ infos.map .counting⟩ := by
  induction infos generalizing calls with
  | nil =>
      rw [List.map_nil, List.append_nil]
      refine .here ?_
      rw [inserting, hcalls]
      exact Nat.zero_le n
  | cons info infos ih =>
      have hnext : (calls ++ [Adding.counting info]).filterMap Adding.granted? = [] := by
        rw [List.filterMap_append, hcalls]
        rfl
      refine .next ?_ (.addPeer info) ?_
      · rw [inserting, hcalls]
        exact Nat.zero_le n
      · have hrest := ih hnext
        rw [List.append_assoc] at hrest
        exact hrest

/-- All pass their check, as there is room for one more. -/
theorem reaches_granted (done : List PeerInfo) (hcalls : calls.filterMap Adding.granted? = [])
    (hroom : peers.length < maxPeers) (hn : done.length + infos.length ≤ n) :
    Reaches n ⟨peers, calls ++ (done.map .inserting ++ infos.map .counting)⟩
      ⟨peers, calls ++ (done ++ infos).map .inserting⟩ := by
  induction infos generalizing done with
  | nil =>
      rw [List.append_nil, List.map_nil]
      have hnow := inserting_calls peers hcalls (granted_counting []) done
      rw [List.map_nil, List.append_nil] at hnow
      rw [List.append_nil]
      refine .here ?_
      rw [hnow]
      exact hn
  | cons info infos ih =>
      have hall : (done ++ [info]).length + infos.length ≤ n := by
        rw [List.length_append, Nat.add_assoc, Nat.add_comm [info].length]
        exact hn
      refine .next ?_ (.advance (calls ++ done.map Adding.inserting).length) ?_
      · rw [inserting_calls peers hcalls (granted_counting (info :: infos))]
        exact Nat.le_trans (Nat.le_add_right _ _) hn
      · rw [List.map_cons, ← List.append_assoc, step_advance, advance,
          if_neg (Nat.not_le.mpr hroom), setCall, set_advance]
        have hrest := ih (done ++ [info]) hall
        rw [List.append_assoc done] at hrest
        rw [List.map_append, List.append_assoc, ← List.append_assoc calls] at hrest
        exact hrest

/-- All insert. -/
theorem reaches_inserted (hcalls : calls.filterMap Adding.granted? = [])
    (hnew : Table.Unique PeerInfo.fingerprint (peers ++ infos)) (hn : infos.length ≤ n) :
    ∃ calls', calls'.filterMap Adding.granted? = [] ∧
      Reaches n ⟨peers, calls ++ infos.map .inserting⟩ ⟨peers ++ infos, calls'⟩ := by
  induction infos generalizing peers calls with
  | nil =>
      refine ⟨calls, hcalls, ?_⟩
      rw [List.map_nil, List.append_nil, List.append_nil]
      refine .here ?_
      rw [inserting, hcalls]
      exact Nat.zero_le n
  | cons info infos ih =>
      have hfresh : Table.find PeerInfo.fingerprint peers info.fingerprint = none := by
        rw [Table.find_eq_none_iff]
        intro other hother
        rw [Table.Unique, List.map_append] at hnew
        exact (List.nodup_append.mp hnew).2.2 _ (List.mem_map_of_mem hother) _ List.mem_cons_self
      have hput : Table.put PeerInfo.fingerprint peers info = peers ++ [info] := by
        rw [Table.put, Table.erase_of_find hfresh]
      have hcalls' : (calls ++ [Adding.returned (.ok ())]).filterMap Adding.granted? = [] := by
        rw [List.filterMap_append, hcalls]
        rfl
      rw [← List.singleton_append, ← List.append_assoc] at hnew
      obtain ⟨calls', hnone, hrest⟩ := ih hcalls' hnew (Nat.le_of_succ_le hn)
      refine ⟨calls', hnone, .next ?_ (.advance calls.length) ?_⟩
      · have hnow := inserting_calls peers hcalls (granted_counting []) (info :: infos)
        rw [List.map_nil, List.append_nil] at hnow
        rw [hnow]
        exact hn
      · rw [List.map_cons, step_advance, advance, set_advance, hput]
        rw [List.append_assoc, List.append_assoc] at hrest
        exact hrest

/-- Calls that overlap all find the last free place. -/
theorem reaches_batch (hcalls : calls.filterMap Adding.granted? = [])
    (hnew : Table.Unique PeerInfo.fingerprint (peers ++ infos)) (hroom : peers.length < maxPeers) :
    ∃ calls', calls'.filterMap Adding.granted? = [] ∧
      Reaches infos.length ⟨peers, calls⟩ ⟨peers ++ infos, calls'⟩ := by
  obtain ⟨calls', hnone, hinserted⟩ := reaches_inserted hcalls hnew (Nat.le_refl _)
  have hcalled : Reaches infos.length ⟨peers, calls⟩ ⟨peers, calls ++ infos.map .counting⟩ :=
    reaches_called hcalls
  have hgranted : Reaches infos.length ⟨peers, calls ++ infos.map .counting⟩
      ⟨peers, calls ++ infos.map .inserting⟩ :=
    reaches_granted [] hcalls hroom (Nat.le_of_eq (Nat.zero_add _))
  exact ⟨calls', hnone, hcalled.trans (hgranted.trans hinserted)⟩

/-- One after the other, they come in up to the limit. -/
theorem reaches_in_turn (hcalls : calls.filterMap Adding.granted? = [])
    (hnew : Table.Unique PeerInfo.fingerprint (peers ++ infos))
    (hroom : peers.length + infos.length ≤ maxPeers) :
    ∃ calls', calls'.filterMap Adding.granted? = [] ∧
      Reaches 1 ⟨peers, calls⟩ ⟨peers ++ infos, calls'⟩ := by
  induction infos generalizing peers calls with
  | nil =>
      refine ⟨calls, hcalls, ?_⟩
      rw [List.append_nil]
      refine .here ?_
      rw [inserting, hcalls]
      exact Nat.zero_le 1
  | cons info infos ih =>
      rw [← List.singleton_append, ← List.append_assoc] at hnew
      rw [List.length_cons] at hroom
      have hfirst : Table.Unique PeerInfo.fingerprint (peers ++ [info]) := by
        rw [Table.Unique, List.map_append] at hnew
        exact hnew.of_append_left
      obtain ⟨calls', hnone, hone⟩ := reaches_batch hcalls hfirst (by omega)
      have hlength : (peers ++ [info]).length + infos.length ≤ maxPeers := by
        rw [List.length_append, List.length_singleton]
        omega
      obtain ⟨calls'', hnone', hrest⟩ := ih hnone hnew hlength
      rw [List.append_assoc, List.singleton_append] at hrest
      exact ⟨calls'', hnone', hone.trans hrest⟩

/-- Any peers that are `k` too many fit, if `k` calls more than one overlap. -/
theorem crowded {k : Nat} (hnew : Table.Unique PeerInfo.fingerprint infos)
    (hlength : infos.length = maxPeers + k) :
    ∃ calls', Reaches (k + 1) new ⟨infos, calls'⟩ := by
  have hsplit : infos.take 199 ++ infos.drop 199 = infos := List.take_append_drop 199 infos
  rw [maxPeers] at hlength
  have hfirst : (infos.take 199).length = 199 := List.length_take_of_le (by omega)
  have hlast : (infos.drop 199).length = k + 1 := by
    rw [List.length_drop]
    omega
  have hfront : Table.Unique PeerInfo.fingerprint ([] ++ infos.take 199) :=
    ((List.take_sublist 199 infos).map PeerInfo.fingerprint).nodup hnew
  have hwhole : Table.Unique PeerInfo.fingerprint (infos.take 199 ++ infos.drop 199) := by
    rw [hsplit]
    exact hnew
  have hnocalls : ([] : List Adding).filterMap Adding.granted? = [] := rfl
  obtain ⟨calls, hnone, hturn⟩ := reaches_in_turn hnocalls hfront
    (by rw [hfirst]; decide)
  obtain ⟨calls', -, hbatch⟩ := reaches_batch hnone hwhole (by rw [hfirst]; decide)
  rw [hlast, hsplit] at hbatch
  exact ⟨calls', (hturn.mono (Nat.succ_le_succ (Nat.zero_le k))).trans hbatch⟩

end

/-- The limit of 200 under any interleaving: it is exceeded by no more calls
than overlap with another one between check and insertion, and by as many as
do. -/
theorem peers_limited :
    (∀ k events, Runs.Always step (fun s => s.inserting ≤ k + 1) events new →
      Runs.Always step (fun s => s.peers.length ≤ maxPeers + k) events new) ∧
    ∀ k infos, Table.Unique PeerInfo.fingerprint infos → infos.length = maxPeers + k →
      ∃ events, Runs.Always step (fun s => s.inserting ≤ k + 1) events new ∧
        (Runs.run step events new).peers = infos := by
  constructor
  · intro k events hfew
    exact length_peers_le hfew
  · intro k infos hnew hlength
    obtain ⟨calls, events, hfew, hrun⟩ := crowded hnew hlength
    exact ⟨events, hfew, congrArg KnownPeers.peers hrun⟩

/-- A peer for each byte. -/
def numbered (n : Nat) : PeerInfo :=
  ⟨⟨Vector.replicate 20 (UInt8.ofNat n)⟩, "peer", "192.168.1.2", 7878, none, 0⟩

theorem numbered_unique : Table.Unique PeerInfo.fingerprint ((List.range 201).map numbered) := by
  rw [Table.Unique, List.map_map]
  refine List.Nodup.map_on ?_ List.nodup_range
  intro n hn m hm heq
  have hbytes : Vector.replicate 20 (UInt8.ofNat n) = Vector.replicate 20 (UInt8.ofNat m) :=
    Fingerprint.mk.inj heq
  have hbyte : UInt8.ofNat n = UInt8.ofNat m := by
    have hfirst := congrArg (fun v => v[0]) hbytes
    simpa using hfirst
  have htoNat := congrArg UInt8.toNat hbyte
  rw [UInt8.toNat_ofNat', UInt8.toNat_ofNat'] at htoNat
  have hn' := List.mem_range.mp hn
  have hm' := List.mem_range.mp hm
  omega

/-- Two calls that overlap make it 201 peers, and no more. -/
theorem peers_limited_overlap :
    ∃ events, Runs.Always step (fun s => s.peers.length ≤ 201) events new ∧
      (Runs.run step events new).peers.length = 201 := by
  obtain ⟨hlimited, hcrowded⟩ := peers_limited
  obtain ⟨events, hfew, hpeers⟩ :=
    hcrowded 1 ((List.range 201).map numbered) numbered_unique (by rw [List.length_map]; rfl)
  refine ⟨events, hlimited 1 events hfew, ?_⟩
  rw [hpeers, List.length_map, List.length_range]

/-! ## What is answered -/

section
variable {s : KnownPeers} {e : PeersEvent} {info other : PeerInfo}

theorem Inserts.eq (h : Inserts info s e) (h' : Inserts other s e) : other = info := by
  obtain ⟨i, rfl, hi⟩ := h
  obtain ⟨j, hj, hother⟩ := h'
  cases hj
  rw [hi] at hother
  cases hother
  rfl

theorem Inserts.not_sweep (h : Inserts info s e) (now : DateTime) (fp : Fingerprint) :
    e ≠ .sweep now fp := by
  obtain ⟨i, rfl, -⟩ := h
  intro heq
  cases heq

/-- What is found behind a step was inserted by it, or was there and is kept. -/
theorem getPeer_step (hunique : Table.Unique PeerInfo.fingerprint s.peers) :
    (step s e).getPeer info.fingerprint = some info ↔
      Inserts info s e ∨ (s.getPeer info.fingerprint = some info ∧ Keeps info s e) := by
  have hwrites : Writes s e (step s e) := step_writes s e
  cases hwrites with
  | inserts new hinserts hpeers =>
      rw [getPeer, hpeers, Table.find_put]
      by_cases hfp : new.fingerprint = info.fingerprint
      · rw [if_pos hfp]
        constructor
        · intro hnew
          cases hnew
          exact .inl hinserts
        · rintro (hinserted | ⟨-, hkeeps⟩)
          · rw [hinserted.eq hinserts]
          · exact absurd hfp (hkeeps.others new hinserts)
      · rw [if_neg hfp]
        constructor
        · intro hfound
          refine .inr ⟨hfound, ?_, ?_⟩
          · intro other hother
            rw [hinserts.eq hother]
            exact hfp
          · intro now hsweep
            exact absurd hsweep (hinserts.not_sweep now _)
        · rintro (hinserted | ⟨hfound, -⟩)
          · exact absurd (congrArg PeerInfo.fingerprint (hinserted.eq hinserts)) hfp
          · exact hfound
  | sweeps now fp hsweep hpeers =>
      have hnone : ∀ other, ¬ Inserts other s e := fun other h => h.not_sweep now fp hsweep
      rw [getPeer, hpeers, sweep, hunique.find_filter, Option.filter_eq_some_iff, Bool.or_eq_true,
        decide_eq_true_iff, keep, decide_eq_true_iff]
      constructor
      · rintro ⟨hfound, hkept⟩
        refine .inr ⟨hfound, fun other hother => absurd hother (hnone other), ?_⟩
        intro now' hsweep'
        rw [hsweep] at hsweep'
        cases hsweep'
        rcases hkept with hne | hkept
        · exact absurd rfl hne
        · exact hkept
      · rintro (hinserted | ⟨hfound, hkeeps⟩)
        · exact absurd hinserted (hnone info)
        · refine ⟨hfound, ?_⟩
          by_cases hfp : info.fingerprint = fp
          · subst hfp
            exact .inr (hkeeps.fresh now hsweep)
          · exact .inl hfp
  | none hinserts hsweep hpeers =>
      rw [getPeer, hpeers]
      constructor
      · intro hfound
        refine .inr ⟨hfound, fun other hother => absurd hother (hinserts other), ?_⟩
        intro now heq
        exact absurd heq (hsweep now _)
      · rintro (hinserted | ⟨hfound, -⟩)
        · exact absurd hinserted (hinserts info)
        · exact hfound

theorem advance_unrefused {i : Nat} {call : Adding} (hcall : s.calls[i]? = some call)
    (hunrefused : Adding.Unrefused info call) (hknown : (s.getPeer info.fingerprint).isSome) :
    ∃ call', (s.advance i call).calls[i]? = some call' ∧ Adding.Unrefused info call' := by
  have hset : ∀ call', (s.calls.set i call')[i]? = some call' := by
    intro call'
    exact List.getElem?_set_self (List.getElem?_eq_some_iff.mp hcall).1
  cases call with
  | counting p =>
      cases hunrefused
      rw [advance]
      split
      · exact ⟨_, hset _, rfl⟩
      · exact ⟨_, hset _, rfl⟩
  | looking p =>
      cases hunrefused
      rw [advance, if_pos hknown]
      exact ⟨_, hset _, rfl⟩
  | inserting p => exact ⟨_, hset _, rfl⟩
  | returned result => exact ⟨_, hcall, hunrefused⟩

theorem step_unrefused {i : Nat} (e : PeersEvent)
    (h : ∃ call, s.calls[i]? = some call ∧ Adding.Unrefused info call)
    (hknown : (s.getPeer info.fingerprint).isSome) :
    ∃ call, (step s e).calls[i]? = some call ∧ Adding.Unrefused info call := by
  obtain ⟨call, hcall, hunrefused⟩ := h
  have hi : i < s.calls.length := (List.getElem?_eq_some_iff.mp hcall).1
  cases e with
  | addPeer new =>
      refine ⟨call, ?_, hunrefused⟩
      show (s.calls ++ [Adding.counting new])[i]? = some call
      rw [List.getElem?_append_left hi]
      exact hcall
  | sweep now fp => exact ⟨call, hcall, hunrefused⟩
  | advance j =>
      rw [step]
      split
      · next call' hcall' =>
          by_cases hj : j = i
          · subst hj
            rw [hcall] at hcall'
            cases hcall'
            exact advance_unrefused hcall hunrefused hknown
          · refine ⟨call, ?_, hunrefused⟩
            have hother : ∀ call'', (s.calls.set j call'')[i]? = some call := by
              intro call''
              rw [List.getElem?_set_ne hj]
              exact hcall
            cases call' with
            | counting p =>
                rw [advance]
                split
                · exact hother _
                · exact hother _
            | looking p =>
                rw [advance]
                split
                · exact hother _
                · exact hother _
            | inserting p => exact hother _
            | returned result => exact hcall
      · exact ⟨call, hcall, hunrefused⟩

end

/-- What `get_peer` answers behind any run: the peer inserted last, unless a
cleanup has found it five minutes old since.  And a call for a peer that stays
in the map is not refused, however full that is. -/
theorem getPeer_exact (events : List PeersEvent) :
    (∀ fp info, (Runs.run step events new).getPeer fp = some info ↔
      info.fingerprint = fp ∧ Runs.Since step (Inserts info) (Keeps info) events new) ∧
    ∀ (before after : List PeersEvent) (i : Nat) (info : PeerInfo), before ++ after = events →
      (Runs.run step before new).calls[i]? = some (.counting info) →
      Runs.Always step (fun s => (s.getPeer info.fingerprint).isSome) after
        (Runs.run step before new) →
      ∀ e, (Runs.run step events new).calls[i]? ≠ some (.returned (.error e)) := by
  constructor
  · intro fp info
    have hiff : (Runs.run step events new).getPeer info.fingerprint = some info ↔
        Runs.Since step (Inserts info) (Keeps info) events new :=
      Runs.iff_since (P := fun s => s.getPeer info.fingerprint = some info)
        (Q := fun s : KnownPeers => Table.Unique PeerInfo.fingerprint s.peers) Table.unique_nil
        (fun _ _ h => unique_step h) (by intro h; cases h) (fun _ _ h => getPeer_step h) events
    constructor
    · intro hfound
      have hfp : info.fingerprint = fp := Table.key_of_find hfound
      subst hfp
      exact ⟨rfl, hiff.mp hfound⟩
    · rintro ⟨rfl, hsince⟩
      exact hiff.mpr hsince
  · rintro before after i info rfl hcall hknown e he
    rw [Runs.run_append] at he
    have hguard : Runs.Guarded step (fun s _ => (s.getPeer info.fingerprint).isSome) after
        (Runs.run step before new) := by
      intro middle e' hmiddle
      exact hknown middle ((List.prefix_append middle [e']).trans hmiddle)
    have halways := Runs.always_of_step
      (P := fun s : KnownPeers => ∃ call, s.calls[i]? = some call ∧ Adding.Unrefused info call)
      ⟨_, hcall, rfl⟩ (fun s e h hknown => step_unrefused e h hknown) hguard
    obtain ⟨call, hlast, hunrefused⟩ := halways.last
    rw [he] at hlast
    cases hlast
    cases hunrefused

/-- A peer in the map is called for again while another one comes in. -/
theorem getPeer_exact_again :
    let events : List PeersEvent := [.addPeer (numbered 1), .advance 0, .advance 0,
      .addPeer (numbered 1), .addPeer (numbered 2), .advance 2, .advance 1, .advance 2]
    Runs.Since step (Inserts (numbered 1)) (Keeps (numbered 1)) events new ∧
      ∀ e, (Runs.run step events new).calls[1]? ≠ some (.returned (.error e)) := by
  intro events
  obtain ⟨hfound, hunrefused⟩ := getPeer_exact events
  constructor
  · exact ((hfound (numbered 1).fingerprint (numbered 1)).mp (by decide)).2
  · refine hunrefused (events.take 4) (events.drop 4) 1 (numbered 1) rfl (by decide) ?_
    refine Runs.always_cons.mpr ⟨by decide, Runs.always_cons.mpr ⟨by decide, ?_⟩⟩
    exact Runs.always_cons.mpr ⟨by decide, Runs.always_cons.mpr ⟨by decide,
      Runs.always_nil.mpr (by decide)⟩⟩

end KnownPeers
end Rubix.Networking
