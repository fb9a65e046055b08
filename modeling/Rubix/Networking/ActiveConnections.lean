/-
# `Rubix.Networking.ActiveConnections` — how many entries there are, and whose

The limit of active connections and the check for an existing one are made when
`connect_to_peer` is called.  The entry is made when the handshake completes,
with no check: another task may have made its own in between.

    a handshake that completes             the entries
    with an entry of its peer there        as many, the other task's is replaced
    else                                   one more

So the limit that counts is one on the peers that have an entry or a handshake
in flight: where every call that passes finds room for its peer among those, ten
entries are kept, and nothing else keeps them where handshakes can end in any
order (`capped_iff`).  The check of the call is enough for it as long as no
handshake is in flight then (`reserves_of_quiet`).

And the entry of a task is its own as long as no task of a peer enters its loop
before the one before it has removed its entry (`exclusive_iff`), as it is where
calls wait for that (`exclusive_of_awaits`).
-/
import Mathlib.Data.Finset.Card
import Rubix.Networking.ConnectionManager

namespace Rubix.Networking

open Security (X25519PublicKey)

variable {A C : Type}

/-- The task's handshake is in flight, or still to come. -/
def Spawned.entering (t : Spawned C) : Bool :=
  match t.stage with
  | .connecting info => info.x25519Public.isSome
  | _ => false

namespace ConnectionManager

variable {dial : PeerInfo → Fingerprint → X25519PublicKey → A → NetworkResult C}

theorem step_completes {s : ConnectionManager C} {e : ManagerEvent A} {k : Nat} {fp : Fingerprint}
    {conn : C} (h : Completes dial s e k fp conn) :
    step dial s e =
      { s with
        active := Table.put ConnectionHandle.fingerprint s.active ⟨fp, k⟩
        tasks := s.tasks.set k ⟨fp, .looping conn⟩ } := by
  obtain ⟨a, info, rx, rfl, hbefore, hkey, hdial⟩ := h
  rw [step, hbefore]
  dsimp only
  rw [establish, hkey]
  dsimp only
  rw [hdial]

/-! ## The number of entries -/

def Capped (s : ConnectionManager C) : Prop := s.activeConnectionCount ≤ maxActiveConnections

/-- The peers that have an entry, or a handshake that may make one. -/
def claimed (s : ConnectionManager C) : Finset Fingerprint :=
  (s.active.map ConnectionHandle.fingerprint ++
    (s.tasks.filter Spawned.entering).map Spawned.fingerprint).toFinset

/-- A call that passes the limit finds room for its peer, beside all that have an
entry or may get one. -/
def Call.FindsRoom (s : ConnectionManager C) : Call → Prop
  | .limiting fp info => info.x25519Public.isSome → s.activeConnectionCount < maxActiveConnections →
      (insert fp s.claimed).card ≤ maxActiveConnections
  | _ => True

/-- A call goes on, and if that is past the limit it finds room. -/
def Reserves (s : ConnectionManager C) : ManagerEvent A → Prop
  | .advance i => ∀ call ∈ s.calls[i]?, Call.FindsRoom s call
  | _ => True

instance (s : ConnectionManager C) : (call : Call) → Decidable (Call.FindsRoom s call)
  | .limiting _ _ => inferInstanceAs (Decidable (_ → _ → _))
  | .checking _ | .looking _ | .trusting _ _ | .returned _ => inferInstanceAs (Decidable True)

instance (s : ConnectionManager C) : (e : ManagerEvent A) → Decidable (Reserves s e)
  | .advance i => inferInstanceAs (Decidable (∀ call ∈ s.calls[i]?, Call.FindsRoom s call))
  | .addPeer _ | .trustPeer _ | .loadTrusted _ | .cleanupStale _ | .connectToPeer _ | .dialed _ _
  | .leave _ | .finish _ | .disconnect _ => inferInstanceAs (Decidable True)

/-- A handshake ends, whatever comes of it. -/
def settle (dial : PeerInfo → Fingerprint → X25519PublicKey → A → NetworkResult C)
    (s : ConnectionManager C) (p : Nat × A) : ConnectionManager C :=
  step dial s (.dialed p.1 p.2)

/-- There are ten entries at most, also when handshakes that are in flight end in
whatever order. -/
def CappedWhatever (dial : PeerInfo → Fingerprint → X25519PublicKey → A → NetworkResult C)
    (s : ConnectionManager C) : Prop :=
  ∀ attempts : List (Nat × A), Capped (Runs.run (settle dial) attempts s)

section
variable {s s' : ConnectionManager C} {e : ManagerEvent A} {fp : Fingerprint}

theorem mem_claimed :
    fp ∈ s.claimed ↔ (∃ h ∈ s.active, h.fingerprint = fp) ∨
      ∃ t ∈ s.tasks, t.entering = true ∧ t.fingerprint = fp := by
  simp [claimed, and_assoc]

/-- Tasks are spawned by calls that pass the limit. -/
theorem step_spawns {info : PeerInfo}
    (h : (step dial s e).tasks = s.tasks ++ [⟨fp, .connecting info⟩]) :
    ∃ i, e = .advance i ∧ s.calls[i]? = some (.limiting fp info) := by
  have hsame : ∀ tasks : List (Spawned C), tasks.length = s.tasks.length →
      tasks ≠ s.tasks ++ [⟨fp, .connecting info⟩] := by
    intro tasks hlength htasks
    rw [htasks, List.length_append, List.length_singleton] at hlength
    exact Nat.succ_ne_self _ hlength
  cases e with
  | advance i =>
      rw [step] at h
      split at h
      · next call hcall =>
          cases call with
          | limiting fp' info' =>
              rw [check] at h
              split at h
              · exact absurd h (hsame _ rfl)
              · cases List.append_cancel_left h
                exact ⟨i, rfl, hcall⟩
          | returned result => exact absurd h (hsame _ rfl)
          | _ =>
              rw [check] at h
              split at h
              · exact absurd h (hsame _ rfl)
              · exact absurd h (hsame _ rfl)
      · exact absurd h (hsame _ rfl)
  | addPeer info' =>
      rw [step, addPeer] at h
      split at h
      · exact absurd h (hsame _ rfl)
      · exact absurd h (hsame _ rfl)
  | loadTrusted list => exact absurd h (hsame _ (congrArg List.length (foldl_trustPeer list s).2.1))
  | dialed k a =>
      rw [step] at h
      split at h
      · rw [establish] at h
        split at h
        · exact absurd h (hsame _ List.length_set)
        · split at h
          · exact absurd h (hsame _ List.length_set)
          · exact absurd h (hsame _ List.length_set)
      · exact absurd h (hsame _ rfl)
  | leave k =>
      rw [step] at h
      split at h
      · exact absurd h (hsame _ List.length_set)
      · exact absurd h (hsame _ rfl)
  | finish k =>
      rw [step] at h
      split at h
      · exact absurd h (hsame _ List.length_set)
      · exact absurd h (hsame _ rfl)
  | _ => exact absurd h (hsame _ rfl)

/-- A task that goes on claims nothing that it did not claim before, unless the
entry it has just made. -/
theorem claimed_subset (hactive : ∀ h ∈ s'.active, h.fingerprint ∈ s.claimed)
    (htasks : ∀ t ∈ s'.tasks, t.entering = true → t ∈ s.tasks) : s'.claimed ⊆ s.claimed := by
  intro fp hfp
  rcases mem_claimed.mp hfp with ⟨h, hmem, rfl⟩ | ⟨t, hmem, hentering, rfl⟩
  · exact hactive h hmem
  · exact mem_claimed.mpr (.inr ⟨t, htasks t hmem hentering, hentering, rfl⟩)

theorem mem_claimed_of_active {h : ConnectionHandle} (hmem : h ∈ s.active) :
    h.fingerprint ∈ s.claimed :=
  mem_claimed.mpr (.inl ⟨h, hmem, rfl⟩)

/-- What claims an entry behind a step did so before, but for a peer whose call
passes the limit. -/
theorem claimed_step (dial : PeerInfo → Fingerprint → X25519PublicKey → A → NetworkResult C)
    (s : ConnectionManager C) (e : ManagerEvent A) :
    (step dial s e).claimed ⊆ s.claimed ∨
      ∃ i fp info, e = .advance i ∧ s.calls[i]? = some (.limiting fp info) ∧
        s.activeConnectionCount < maxActiveConnections ∧ info.x25519Public.isSome ∧
        (step dial s e).claimed ⊆ insert fp s.claimed := by
  have hset : ∀ {k : Nat} {t : Spawned C}, t.entering = false → ∀ t' ∈ s.tasks.set k t,
      t'.entering = true → t' ∈ s.tasks := by
    intro k t ht t' hmem hentering
    rcases List.mem_or_eq_of_mem_set hmem with hold | rfl
    · exact hold
    · exact absurd (hentering.symm.trans ht) Bool.false_ne_true.symm
  have hchanges : Changes dial s e (step dial s e) := step_changes s e
  cases hchanges with
  | none hactive htasks =>
      refine .inl (claimed_subset ?_ ?_)
      · exact fun h hmem => mem_claimed_of_active (hactive ▸ hmem)
      · exact fun t hmem _ => htasks ▸ hmem
  | spawned fp info hcall hroom hactive htasks =>
      obtain ⟨i, he, hcalls⟩ := step_spawns htasks
      have hkept : ∀ h ∈ (step dial s e).active, h.fingerprint ∈ s.claimed := by
        rw [hactive]
        exact fun h hmem => mem_claimed_of_active hmem
      cases hkey : info.x25519Public with
      | none =>
          refine .inl (claimed_subset hkept ?_)
          intro t hmem hentering
          rw [htasks] at hmem
          rcases List.mem_append.mp hmem with hold | hnew
          · exact hold
          · have hkeyed : info.x25519Public.isSome = true := by
              rw [List.mem_singleton.mp hnew] at hentering
              exact hentering
            rw [hkey] at hkeyed
            cases hkeyed
      | some rx =>
          refine .inr ⟨i, fp, info, he, hcalls, hroom, Option.isSome_of_eq_some hkey, ?_⟩
          intro p hp
          rcases mem_claimed.mp hp with ⟨h, hmem, rfl⟩ | ⟨t, hmem, hentering, rfl⟩
          · exact Finset.mem_insert_of_mem (hkept h hmem)
          · rw [htasks] at hmem
            rcases List.mem_append.mp hmem with hold | hnew
            · exact Finset.mem_insert_of_mem (mem_claimed.mpr (.inr ⟨t, hold, hentering, rfl⟩))
            · rw [List.mem_singleton.mp hnew]
              exact Finset.mem_insert_self fp _
  | completed k fp conn hcompletes hactive htasks =>
      obtain ⟨a, info, rx, -, hbefore, hkey, -⟩ := hcompletes
      refine .inl (claimed_subset ?_ (htasks ▸ hset rfl))
      intro h hmem
      rw [hactive] at hmem
      rcases Table.mem_put.mp hmem with ⟨hold, -⟩ | rfl
      · exact mem_claimed_of_active hold
      · have hentering : info.x25519Public.isSome = true := Option.isSome_of_eq_some hkey
        exact mem_claimed.mpr (.inr ⟨_, List.mem_of_getElem? hbefore, hentering, rfl⟩)
  | failed k fp info hbefore hactive htasks =>
      refine .inl (claimed_subset ?_ (htasks ▸ hset rfl))
      exact fun h hmem => mem_claimed_of_active (hactive ▸ hmem)
  | left k fp conn hbefore hactive htasks =>
      refine .inl (claimed_subset ?_ (htasks ▸ hset rfl))
      exact fun h hmem => mem_claimed_of_active (hactive ▸ hmem)
  | finished k fp conn hbefore hactive htasks =>
      refine .inl (claimed_subset ?_ (htasks ▸ hset rfl))
      intro h hmem
      rw [hactive] at hmem
      exact mem_claimed_of_active (Table.mem_erase.mp hmem).1
  | disconnected fp hactive htasks =>
      refine .inl (claimed_subset ?_ ?_)
      · intro h hmem
        rw [hactive] at hmem
        exact mem_claimed_of_active (Table.mem_erase.mp hmem).1
      · exact fun t hmem _ => htasks ▸ hmem

theorem reserved_step (h : s.claimed.card ≤ maxActiveConnections) (hreserves : Reserves s e) :
    (step dial s e).claimed.card ≤ maxActiveConnections := by
  rcases claimed_step dial s e with hsame | ⟨i, fp, info, rfl, hcall, hroom, hkey, hmore⟩
  · exact Nat.le_trans (Finset.card_le_card hsame) h
  · exact Nat.le_trans (Finset.card_le_card hmore) (hreserves _ hcall hkey hroom)

theorem step_unique (h : Table.Unique ConnectionHandle.fingerprint s.active) :
    Table.Unique ConnectionHandle.fingerprint (step dial s e).active := by
  have hchanges : Changes dial s e (step dial s e) := step_changes s e
  cases hchanges with
  | completed k fp conn _ hactive _ =>
      rw [hactive]
      exact h.put _
  | finished k fp conn _ hactive _ =>
      rw [hactive]
      exact h.erase fp
  | disconnected fp hactive _ =>
      rw [hactive]
      exact h.erase fp
  | none hactive _ => exact hactive ▸ h
  | spawned fp info _ _ hactive _ => exact hactive ▸ h
  | failed k fp info _ hactive _ => exact hactive ▸ h
  | left k fp conn _ hactive _ => exact hactive ▸ h

/-- Every entry claims its peer. -/
theorem count_le_claimed (h : Table.Unique ConnectionHandle.fingerprint s.active) :
    s.activeConnectionCount ≤ s.claimed.card := by
  have hkeys : (s.active.map ConnectionHandle.fingerprint).toFinset ⊆ s.claimed := by
    rw [claimed, List.toFinset_append]
    exact Finset.subset_union_left
  have hcard := Finset.card_le_card hkeys
  rw [List.toFinset_card_of_nodup h, List.length_map] at hcard
  exact hcard

/-- Entries, and claims on them, within the limit. -/
structure Bounded (s : ConnectionManager C) : Prop where
  unique : Table.Unique ConnectionHandle.fingerprint s.active
  claims : s.claimed.card ≤ maxActiveConnections

theorem Bounded.capped (h : Bounded s) : Capped s :=
  Nat.le_trans (count_le_claimed h.unique) h.claims

theorem bounded_new : Bounded (new : ConnectionManager C) := ⟨Table.unique_nil, Nat.zero_le _⟩

theorem bounded_step (h : Bounded s) (hreserves : Reserves s e) : Bounded (step dial s e) :=
  ⟨step_unique h.unique, reserved_step h.claims hreserves⟩

/-- A process in which no handshake is in flight when a call passes the limit
keeps it: the check of the call is enough then. -/
theorem reserves_of_quiet (hquiet : ∀ t ∈ s.tasks, t.entering = false) : Reserves s e := by
  have hentries : s.claimed = (s.active.map ConnectionHandle.fingerprint).toFinset := by
    have hnone : s.tasks.filter Spawned.entering = [] := by
      refine List.filter_eq_nil_iff.mpr fun t ht => ?_
      rw [hquiet t ht]
      exact Bool.false_ne_true
    rw [claimed, hnone, List.map_nil, List.append_nil]
  cases e with
  | advance i =>
      intro call _
      cases call with
      | limiting fp info =>
          intro _ hroom
          have hcard : s.claimed.card ≤ s.activeConnectionCount := by
            rw [hentries, activeConnectionCount, ← List.length_map ConnectionHandle.fingerprint]
            exact List.toFinset_card_le _
          exact Nat.le_trans (Finset.card_insert_le _ _) (Nat.lt_of_le_of_lt hcard hroom)
      | _ => trivial
  | _ => trivial

/-- The call that passes the limit claims an entry for its peer. -/
theorem claimed_of_limiting
    (dial : PeerInfo → Fingerprint → X25519PublicKey → A → NetworkResult C) {i : Nat}
    {info : PeerInfo}
    (hcall : s.calls[i]? = some (.limiting fp info)) (hkey : info.x25519Public.isSome)
    (hroom : s.activeConnectionCount < maxActiveConnections) :
    insert fp s.claimed ⊆ (step dial s (.advance i)).claimed := by
  have hstep : step dial s (.advance i) =
      { s with
        calls := s.calls.set i (.returned (.ok s.tasks.length))
        tasks := s.tasks ++ [⟨fp, .connecting info⟩] } := by
    rw [step, hcall]
    dsimp only
    rw [check, if_neg (Nat.not_le.mpr hroom)]
  rw [hstep]
  refine Finset.insert_subset ?_ ?_
  · exact mem_claimed.mpr (.inr ⟨_, List.mem_append_right _ List.mem_cons_self, hkey, rfl⟩)
  · intro p hp
    rcases mem_claimed.mp hp with ⟨h, hmem, rfl⟩ | ⟨t, hmem, hentering, rfl⟩
    · exact mem_claimed.mpr (.inl ⟨h, hmem, rfl⟩)
    · exact mem_claimed.mpr (.inr ⟨t, List.mem_append_left _ hmem, hentering, rfl⟩)

/-! ## Handshakes that complete -/

theorem bounded_settle {p : Nat × A} (h : Bounded s) : Bounded (settle dial s p) :=
  bounded_step h trivial

/-- A handshake completes in this step. -/
def SomeCompletes (dial : PeerInfo → Fingerprint → X25519PublicKey → A → NetworkResult C)
    (s : ConnectionManager C) (p : Nat × A) : Prop :=
  ∃ fp conn, Completes dial s (.dialed p.1 p.2) p.1 fp conn

/-- A task that made its entry claims its peer as before, and it is one task
less. -/
theorem completes_claimed {k : Nat} {a : A} {conn : C}
    (h : Completes dial s (.dialed k a) k fp conn) :
    s.claimed ⊆ (step dial s (.dialed k a)).claimed ∧
      (step dial s (.dialed k a)).tasks.countP Spawned.entering
        < s.tasks.countP Spawned.entering := by
  have hafter := step_completes h
  obtain ⟨a', info, rx, -, hbefore, hkey, -⟩ := h
  have hentering : (⟨fp, .connecting info⟩ : Spawned C).entering = true :=
    Option.isSome_of_eq_some hkey
  obtain ⟨hk, hget⟩ := List.getElem?_eq_some_iff.mp hbefore
  rw [hafter]
  constructor
  · intro p hp
    refine mem_claimed.mpr ?_
    dsimp only
    by_cases hp' : fp = p
    · exact .inl ⟨⟨fp, k⟩, Table.mem_put.mpr (.inr rfl), hp'⟩
    · rcases mem_claimed.mp hp with ⟨h, hmem, rfl⟩ | ⟨t, hmem, ht, rfl⟩
      · exact .inl ⟨h, Table.mem_put.mpr (.inl ⟨hmem, Ne.symm hp'⟩), rfl⟩
      · obtain ⟨j, hj⟩ := List.getElem?_of_mem hmem
        have hne : k ≠ j := by
          rintro rfl
          rw [hbefore] at hj
          cases hj
          exact hp' rfl
        refine .inr ⟨t, ?_, ht, rfl⟩
        exact List.mem_of_getElem? ((List.getElem?_set_ne hne).trans hj)
  · have hpos : 0 < s.tasks.countP Spawned.entering :=
      List.countP_pos_iff.mpr ⟨_, List.mem_of_getElem? hbefore, hentering⟩
    rw [List.countP_set hk, hget, if_pos hentering]
    exact Nat.sub_lt hpos Nat.one_pos

/-- Where every handshake can complete, all that are in flight can do so one
after the other, and all that claim an entry then have one. -/
theorem exists_all_claimed (s : ConnectionManager C)
    (hdial : ∀ info fp rx, ∃ a conn, dial info fp rx a = .ok conn) :
    ∃ attempts, s.claimed.card ≤ (Runs.run (settle dial) attempts s).activeConnectionCount := by
  have hkeep : ∀ (s' : ConnectionManager C) (p : Nat × A), s.claimed ⊆ s'.claimed →
      SomeCompletes dial s' p → s.claimed ⊆ (settle dial s' p).claimed := by
    rintro s' p hkept ⟨fp, conn, hcompletes⟩
    exact hkept.trans (completes_claimed hcompletes).1
  have hless : ∀ (s' : ConnectionManager C) (p : Nat × A), s.claimed ⊆ s'.claimed →
      SomeCompletes dial s' p →
        (settle dial s' p).tasks.countP Spawned.entering < s'.tasks.countP Spawned.entering := by
    rintro s' p - ⟨fp, conn, hcompletes⟩
    exact (completes_claimed hcompletes).2
  obtain ⟨attempts, -, hkept, hend⟩ := Runs.exists_exhausted
    (P := fun s' : ConnectionManager C => s.claimed ⊆ s'.claimed)
    (m := fun s' : ConnectionManager C => s'.tasks.countP Spawned.entering)
    (Finset.Subset.refl _) hkeep hless
  refine ⟨attempts, Nat.le_trans (Finset.card_le_card (t := ((Runs.run (settle dial) attempts
    s).active.map ConnectionHandle.fingerprint).toFinset) ?_) ?_⟩
  · intro fp hfp
    rcases mem_claimed.mp (hkept hfp) with ⟨h, hmem, rfl⟩ | ⟨t, hmem, hentering, rfl⟩
    · exact List.mem_toFinset.mpr (List.mem_map_of_mem hmem)
    · -- a handshake that is still in flight could complete
      obtain ⟨k, hk⟩ := List.getElem?_of_mem hmem
      obtain ⟨fp, stage⟩ := t
      cases stage with
      | connecting info =>
          obtain ⟨rx, hrx⟩ := Option.isSome_iff_exists.mp hentering
          obtain ⟨a, conn, hconn⟩ := hdial info fp rx
          exact absurd ⟨fp, conn, a, info, rx, rfl, hk, hrx, hconn⟩ (hend (k, a))
      | _ => cases hentering
  · rw [activeConnectionCount, ← List.length_map ConnectionHandle.fingerprint]
    exact List.toFinset_card_le _

end

/-- There are never more than ten entries in a run whose calls find room when
they pass the limit.  And where every handshake can complete, there is no other
way to keep the entries to ten in whatever order the handshakes end. -/
theorem capped_iff (dial : PeerInfo → Fingerprint → X25519PublicKey → A → NetworkResult C)
    (events : List (ManagerEvent A)) :
    (Runs.Guarded (step dial) Reserves events new → Runs.Always (step dial) Capped events new) ∧
      ((∀ info fp rx, ∃ a conn, dial info fp rx a = .ok conn) →
        (Runs.Always (step dial) (CappedWhatever dial) events new ↔
          Runs.Guarded (step dial) Reserves events new)) := by
  have hwhatever : Runs.Guarded (step dial) Reserves events new →
      Runs.Always (step dial) (CappedWhatever dial) events new := by
    intro hreserves
    have hbound : Runs.Always (step dial) Bounded events new :=
      Runs.always_of_step bounded_new (fun _ _ => bounded_step) hreserves
    refine hbound.imp fun s hs attempts => ?_
    have hsettled : Bounded (Runs.run (settle dial) attempts s) :=
      (Runs.always_of_invariant hs (fun _ _ h => bounded_settle h) attempts).last
    exact hsettled.capped
  refine ⟨fun hreserves => (hwhatever hreserves).imp fun s hs => hs [], fun hdial => ?_⟩
  refine ⟨fun hcapped before e hbefore => ?_, hwhatever⟩
  cases e with
  | advance i =>
      intro call hcall
      cases call with
      | limiting fp info =>
          intro hkey hroom
          obtain ⟨attempts, hall⟩ := exists_all_claimed
            (step dial (Runs.run (step dial) before new) (.advance i)) hdial
          have hten := hcapped (before ++ [.advance i]) hbefore attempts
          rw [Runs.run_concat] at hten
          have hclaimed := Finset.card_le_card (claimed_of_limiting dial hcall hkey hroom)
          exact Nat.le_trans hclaimed (Nat.le_trans hall hten)
      | _ => trivial
  | _ => trivial

/-! ## Whose entries they are -/

/-- At most one task of a peer is in its loop. -/
def OneLoop (s : ConnectionManager C) : Prop :=
  ∀ (fp : Fingerprint) (j k : Nat) (conn conn' : C), s.tasks[j]? = some ⟨fp, .looping conn⟩ →
    s.tasks[k]? = some ⟨fp, .looping conn'⟩ → j = k

/-- A task that exits in this step removes no entry but its own. -/
def OwnExit (dial : PeerInfo → Fingerprint → X25519PublicKey → A → NetworkResult C)
    (s : ConnectionManager C) (e : ManagerEvent A) : Prop :=
  ∀ k, e = .finish k → ∀ handle ∈ s.active, handle ∉ (step dial s e).active → handle.outgoing = k

/-- A run in which handles are owned: one loop a peer in each of its states, and
every exit in it removes no entry but its own. -/
structure Exclusive (dial : PeerInfo → Fingerprint → X25519PublicKey → A → NetworkResult C)
    (events : List (ManagerEvent A)) : Prop where
  oneLoop : Runs.Always (step dial) OneLoop events new
  ownExit : Runs.Guarded (step dial) (OwnExit dial) events new

/-- No handshake completes while another task of the same peer is live. -/
def Alone (dial : PeerInfo → Fingerprint → X25519PublicKey → A → NetworkResult C)
    (s : ConnectionManager C) (e : ManagerEvent A) : Prop :=
  ∀ k fp conn, Completes dial s e k fp conn → ∀ j conn', ¬ Live s j fp conn'

/-- At most one task of a peer is live. -/
def Lone (s : ConnectionManager C) : Prop :=
  ∀ fp j k conn conn', Live s j fp conn → Live s k fp conn' → j = k

section
variable {s : ConnectionManager C} {e : ManagerEvent A}

theorem lone_step (h : Lone s) (halone : Alone dial s e) : Lone (step dial s e) := by
  intro fp j k conn conn' hj hk
  rcases live_of_step hj with hj | hj
  · rcases live_of_step hk with hk | hk
    · exact h fp j k conn conn' hj hk
    · exact absurd hj (halone k fp conn' hk j conn)
  · rcases live_of_step hk with hk | hk
    · exact absurd hk (halone j fp conn hj k conn')
    · -- one event completes one task's handshake
      obtain ⟨a, info, rx, he, -⟩ := hj
      obtain ⟨a', info', rx', he', -⟩ := hk
      rw [he] at he'
      cases he'
      rfl

theorem step_finish {k : Nat} {fp : Fingerprint} {conn : C}
    (h : s.tasks[k]? = some ⟨fp, .closing conn⟩) :
    (step dial s (.finish k)).active = Table.erase ConnectionHandle.fingerprint s.active fp := by
  rw [step, h]
  rfl

theorem oneLoop_of_lone (hlone : Lone s) : OneLoop s := by
  intro fp j k conn conn' hj hk
  exact hlone fp j k conn conn' ⟨_, hj, rfl⟩ ⟨_, hk, rfl⟩

theorem ownExit_of_lone (hlone : Lone s) (howned : Owned s) (e : ManagerEvent A) :
    OwnExit dial s e := by
  rintro k rfl handle hmem hremoved
  rw [step] at hremoved
  split at hremoved
  · next fp conn hk =>
      have hfp : handle.fingerprint = fp := by
        by_contra hne
        exact hremoved (Table.mem_erase.mpr ⟨hmem, hne⟩)
      obtain ⟨conn', hlive⟩ := howned handle hmem
      rw [hfp] at hlive
      exact hlone fp _ k conn' conn hlive ⟨_, hk, rfl⟩
  · exact absurd hmem hremoved

/-- A handshake that completes beside another task of its peer, and the exit of
that task. -/
theorem alone_of_exits (hloop : OneLoop (step dial s e))
    (hexits : ∀ k, OwnExit dial (step dial s e) (.finish k)) : Alone dial s e := by
  intro k fp conn hcompletes j conn' hlive
  have hafter := step_completes hcompletes
  obtain ⟨a, info, rx, -, hbefore, -⟩ := hcompletes
  have hlt : k < s.tasks.length := (List.getElem?_eq_some_iff.mp hbefore).1
  have hne : j ≠ k := by
    rintro rfl
    exact nomatch (hlive.stage hbefore).2
  have hj : (step dial s e).tasks[j]? = s.tasks[j]? := by
    rw [hafter]
    exact List.getElem?_set_ne hne.symm
  have hk : (step dial s e).tasks[k]? = some ⟨fp, .looping conn⟩ := by
    rw [hafter]
    exact List.getElem?_set_self hlt
  obtain ⟨stage, hstage, hconn⟩ := hlive
  rw [← hj] at hstage
  cases stage with
  | connecting info => exact nomatch hconn
  | ended => exact nomatch hconn
  | looping conn' => exact hne (hloop fp j k _ _ hstage hk)
  | closing conn' =>
      -- the entry that was just made would go when the other task ends
      have hmade : ⟨fp, k⟩ ∈ (step dial s e).active := by
        rw [hafter]
        exact Table.mem_put.mpr (.inr rfl)
      refine hne (hexits j j rfl ⟨fp, k⟩ hmade ?_).symm
      rw [step_finish hstage, Table.mem_erase]
      exact fun hkept => hkept.2 rfl

theorem alone_finish (k : Nat) : Alone dial s (.finish k) := by
  rintro k' fp conn ⟨a, info, rx, he, -⟩
  cases he

end

theorem exclusive_of_alone {events : List (ManagerEvent A)}
    (h : Runs.Guarded (step dial) (Alone dial) events new) : Exclusive dial events := by
  have hnone : ∀ k fp (conn : C), ¬ Live new k fp conn :=
    fun k fp conn ⟨_, hstage, _⟩ => nomatch hstage
  have hnew : Lone (new : ConnectionManager C) ∧ Owned (new : ConnectionManager C) :=
    ⟨fun fp j k conn conn' hj _ => absurd hj (hnone j fp conn), fun _ hmem => nomatch hmem⟩
  have hlone : Runs.Always (step dial) (fun s => Lone s ∧ Owned s) events new :=
    Runs.always_of_step hnew
      (fun s e ⟨hlone, howned⟩ halone => ⟨lone_step hlone halone, step_owned howned⟩) h
  constructor
  · exact hlone.imp fun s hs => oneLoop_of_lone hs.1
  · intro before e hbefore
    obtain ⟨hfront, howned⟩ := hlone before ((List.prefix_append _ _).trans hbefore)
    exact ownExit_of_lone hfront howned e

/-- Handles are owned in a run, and in the runs that leave it at any point for
some exits, if and only if no handshake completes in it while another task of the
same peer is live. -/
theorem exclusive_iff (dial : PeerInfo → Fingerprint → X25519PublicKey → A → NetworkResult C)
    (events : List (ManagerEvent A)) :
    (∀ before (exits : List Nat), before <+: events →
        Exclusive dial (before ++ exits.map .finish)) ↔
      Runs.Guarded (step dial) (Alone dial) events new := by
  constructor
  · intro hexclusive before e hbefore
    have hloop := (hexclusive (before ++ [e]) [] hbefore).oneLoop.last
    rw [List.map_nil, List.append_nil, Runs.run_concat] at hloop
    refine alone_of_exits hloop fun k => ?_
    have hexit := (hexclusive (before ++ [e]) [k] hbefore).ownExit _ _ List.prefix_rfl
    rw [Runs.run_concat] at hexit
    exact hexit
  · intro halone before exits hbefore
    refine exclusive_of_alone ((halone.front hbefore).append ?_)
    intro front e hfront
    have hmem : e ∈ exits.map ManagerEvent.finish :=
      hfront.subset (List.mem_append_right _ List.mem_cons_self)
    obtain ⟨k, -, rfl⟩ := List.mem_map.mp hmem
    exact alone_finish k

/-! ## Calls that wait for the task before -/

/-- The task is there, and has not ended. -/
def Remains (s : ConnectionManager C) (k : Nat) (fp : Fingerprint) : Prop :=
  ∃ stage, s.tasks[k]? = some ⟨fp, stage⟩ ∧ stage ≠ .ended

/-- A call passes the limit for a peer of whom no task remains. -/
def Awaits (s : ConnectionManager C) (e : ManagerEvent A) : Prop :=
  ∀ i fp info, e = .advance i → s.calls[i]? = some (.limiting fp info) → ∀ k, ¬ Remains s k fp

section
variable {s s' : ConnectionManager C} {e : ManagerEvent A} {k : Nat} {fp : Fingerprint}

theorem remains_of_set {k' : Nat} {fp' : Fingerprint} {before after : Stage C}
    (hbefore : s.tasks[k']? = some ⟨fp', before⟩) (hstage : before ≠ .ended)
    (htasks : s'.tasks = s.tasks.set k' ⟨fp', after⟩) (h : Remains s' k fp) : Remains s k fp := by
  obtain ⟨stage, hget, hremains⟩ := h
  rw [htasks] at hget
  by_cases hk : k' = k
  · subst hk
    rw [List.getElem?_set_self (List.getElem?_eq_some_iff.mp hbefore).1] at hget
    cases hget
    exact ⟨before, hbefore, hstage⟩
  · rw [List.getElem?_set_ne hk] at hget
    exact ⟨stage, hget, hremains⟩

theorem remains_of_step (h : Remains (step dial s e) k fp) :
    Remains s k fp ∨
      (k = s.tasks.length ∧ ∃ i info, e = .advance i ∧ s.calls[i]? = some (.limiting fp info)) := by
  have hchanges : Changes dial s e (step dial s e) := step_changes s e
  cases hchanges with
  | none _ htasks =>
      rw [Remains, htasks] at h
      exact .inl h
  | disconnected _ _ htasks =>
      rw [Remains, htasks] at h
      exact .inl h
  | completed k' fp' conn hcompletes _ htasks =>
      obtain ⟨a, info, rx, -, hbefore, -⟩ := hcompletes
      exact .inl (remains_of_set hbefore (by simp) htasks h)
  | failed k' fp' info hbefore _ htasks => exact .inl (remains_of_set hbefore (by simp) htasks h)
  | left k' fp' conn hbefore _ htasks => exact .inl (remains_of_set hbefore (by simp) htasks h)
  | finished k' fp' conn hbefore _ htasks => exact .inl (remains_of_set hbefore (by simp) htasks h)
  | spawned fp' info _ _ _ htasks =>
      obtain ⟨i, he, hcall⟩ := step_spawns htasks
      obtain ⟨stage, hget, hremains⟩ := h
      rw [htasks, List.getElem?_append] at hget
      split at hget
      · exact .inl ⟨stage, hget, hremains⟩
      · next hk =>
          have hlast : k - s.tasks.length < 1 := (List.getElem?_eq_some_iff.mp hget).1
          have hnew := List.mem_singleton.mp (List.mem_of_getElem? hget)
          cases hnew
          exact .inr ⟨by omega, i, info, he, hcall⟩

/-- Of each peer one task remains at most. -/
def Solitary (s : ConnectionManager C) : Prop :=
  ∀ fp j k, Remains s j fp → Remains s k fp → j = k

theorem solitary_step (h : Solitary s) (hawaits : Awaits s e) : Solitary (step dial s e) := by
  intro fp j k hj hk
  rcases remains_of_step hj with hj | ⟨rfl, i, info, he, hcall⟩
  · rcases remains_of_step hk with hk | ⟨-, i, info, he, hcall⟩
    · exact h fp j k hj hk
    · exact absurd hj (hawaits i fp info he hcall j)
  · rcases remains_of_step hk with hk | ⟨rfl, -⟩
    · exact absurd hk (hawaits i fp info he hcall k)
    · rfl

theorem alone_of_solitary (h : Solitary s) : Alone dial s e := by
  intro k fp conn hcompletes j conn' hlive
  obtain ⟨a, info, rx, -, hbefore, -⟩ := hcompletes
  obtain ⟨stage, hstage, hconn⟩ := id hlive
  have hj : Remains s j fp := by
    refine ⟨stage, hstage, ?_⟩
    rintro rfl
    cases hconn
  have hk : Remains s k fp := ⟨_, hbefore, by simp⟩
  obtain rfl := h fp j k hj hk
  exact nomatch (hlive.stage hbefore).2

end

/-- Handles are owned where every call that passes the limit has waited for its
peer's last task to end. -/
theorem exclusive_of_awaits {events : List (ManagerEvent A)}
    (h : Runs.Guarded (step dial) Awaits events new) : Exclusive dial events := by
  have hnew : Solitary (new : ConnectionManager C) := by
    rintro fp j k ⟨stage, hstage, -⟩ -
    cases hstage
  have hsolitary : Runs.Always (step dial) Solitary events new :=
    Runs.always_of_step hnew (fun _ _ => solitary_step) h
  refine exclusive_of_alone fun before e hbefore => ?_
  exact alone_of_solitary (hsolitary before ((List.prefix_append _ _).trans hbefore))

/-! ## Runs that go wrong -/

/-- A peer that is known and trusted. -/
def introduced (n : UInt8) : List (ManagerEvent (NetworkResult Unit)) :=
  let fp : Fingerprint := ⟨Vector.replicate 20 n⟩
  [.addPeer ⟨fp, "peer", "10.0.0.1", 4000, some (Vector.replicate 32 n), 0⟩, .trustPeer fp]

/-- The `call`-th call of `connect_to_peer`, through all its checks. -/
def connecting (call : Nat) (n : UInt8) : List (ManagerEvent (NetworkResult Unit)) :=
  .connectToPeer ⟨Vector.replicate 20 n⟩ :: List.replicate 4 (.advance call)

/-- A manager whose attempts are what comes of them. -/
def stepWith :
    ConnectionManager Unit → ManagerEvent (NetworkResult Unit) → ConnectionManager Unit :=
  step fun _ _ _ result => result

/-- Eleven connects pass the limit before the first handshake completes. -/
def elevenConnects : List (ManagerEvent (NetworkResult Unit)) :=
  (List.range 11).flatMap (fun n => introduced (UInt8.ofNat n) ++ connecting n (UInt8.ofNat n)) ++
    (List.range 11).map (fun n => .dialed n (.ok ()))

/-- One connect finds room, and the cap holds whatever comes of its handshake. -/
theorem capped_iff_oneConnect :
    Runs.Always stepWith (CappedWhatever fun _ _ _ result => result)
        (introduced 1 ++ connecting 0 1) new ∧
      Runs.Always stepWith Capped (introduced 1 ++ connecting 0 1) new := by
  obtain ⟨hcapped, hiff⟩ := capped_iff (fun _ _ _ result => result) (introduced 1 ++ connecting 0 1)
  have hdial : ∀ (_ : PeerInfo) (_ : Fingerprint) (_ : X25519PublicKey),
      ∃ a conn, (a : NetworkResult Unit) = .ok conn := fun _ _ _ => ⟨.ok (), (), rfl⟩
  have hreserves : Runs.Guarded stepWith Reserves (introduced 1 ++ connecting 0 1) new := by
    simp only [introduced, connecting, List.replicate, List.cons_append, List.nil_append,
      Runs.guarded_cons, Runs.guarded_nil, and_true]
    decide +kernel
  exact ⟨(hiff hdial).mpr hreserves, hcapped hreserves⟩

theorem elevenConnects_exceed : ¬ Runs.Always stepWith Capped elevenConnects new := by
  intro hcapped
  have heleven : (Runs.run stepWith elevenConnects new).activeConnectionCount = 11 := by
    decide +kernel
  have hten := hcapped.last
  rw [Capped, heleven] at hten
  exact absurd hten (by decide)

/-- Two connects to one peer pass the check for an existing connection, and both
handshakes complete. -/
def overlappingConnects : List (ManagerEvent (NetworkResult Unit)) :=
  introduced 1 ++ connecting 0 1 ++ connecting 1 1 ++ [.dialed 0 (.ok ()), .dialed 1 (.ok ())]

/-- A disconnect and another connect; the first task leaves its loop late, when
the entry is the second one's. -/
def lateExit : List (ManagerEvent (NetworkResult Unit)) :=
  introduced 1 ++ connecting 0 1 ++ [.dialed 0 (.ok ()), .disconnect ⟨Vector.replicate 20 1⟩] ++
    connecting 1 1 ++ [.leave 0, .dialed 1 (.ok ())]

theorem overlaps_not_exclusive :
    ¬ Exclusive (fun _ _ _ result => result) overlappingConnects ∧
      ¬ Exclusive (fun _ _ _ result => result) (lateExit ++ [.finish 0]) := by
  constructor
  · intro hexclusive
    have hfirst : (Runs.run stepWith overlappingConnects new).tasks[0]?
        = some ⟨⟨Vector.replicate 20 1⟩, .looping ()⟩ := by decide +kernel
    have hsecond : (Runs.run stepWith overlappingConnects new).tasks[1]?
        = some ⟨⟨Vector.replicate 20 1⟩, .looping ()⟩ := by decide +kernel
    exact absurd (hexclusive.oneLoop.last _ 0 1 () () hfirst hsecond) (by decide)
  · intro hexclusive
    have hentry : ⟨⟨Vector.replicate 20 1⟩, 1⟩ ∈ (Runs.run stepWith lateExit new).active := by
      decide +kernel
    have hremoved : ⟨⟨Vector.replicate 20 1⟩, 1⟩ ∉
        (stepWith (Runs.run stepWith lateExit new) (.finish 0)).active := by decide +kernel
    have hexit := hexclusive.ownExit lateExit _ List.prefix_rfl 0 rfl _ hentry hremoved
    exact absurd hexit (by decide)

end ConnectionManager
end Rubix.Networking
