/-
# `Rubix.Networking.ConnectionManager` — the peers, and the tasks that connect to them

`connect_to_peer` checks four things one after the other and then spawns a task
that connects on its own; other calls and other tasks run between any two of
these steps.  The entry in `active_connections` is made by the task, when its
handshake completes, and is the task's to remove when it leaves its loop:

    connect_to_peer    checking → looking → trusting → limiting → returned
    its task           connecting → looping → closing → ended

Entries are keyed by the fingerprint alone.  What a step does to the entries
and the tasks is said once (`step_changes`), and every invariant follows from
it:

    each entry is of a task that is looping or closing        `step_owned`
    at most ten entries, if each call that passes the limit
      finds room beside the handshakes in flight              `capped_iff`
    one loop a peer and no entry of another removed, if and
      only if no two tasks of a peer overlap                  `exclusive_iff`
    each entry is of a trusted peer                           `step_vetted`
-/
import Mathlib.Data.Finset.Insert
import Rubix.Domain.Fingerprint
import Rubix.Lib.Runs
import Rubix.Lib.Table
import Rubix.Networking.Codec
import Rubix.Security.Keys

namespace Rubix.Networking

open Security (X25519PublicKey)

variable {A C : Type}

/-- Maximum number of tracked peers (discovered + connected). -/
def maxPeers : Nat := 200

/-- Maximum number of active encrypted connections. -/
def maxActiveConnections : Nat := 10

/-- Information about a known peer. -/
structure PeerInfo where
  fingerprint : Fingerprint
  displayName : String
  /-- the address, as it is displayed -/
  ipAddress : String
  tcpPort : Nat
  x25519Public : Option X25519PublicKey
  lastSeen : DateTime
  deriving DecidableEq

/-- Handle to an active connection. -/
structure ConnectionHandle where
  fingerprint : Fingerprint
  /-- the task at the other end of the channel -/
  outgoing : Nat
  deriving DecidableEq

/-- A call of `connect_to_peer`, by what it checks next. -/
inductive Call where
  | checking (fp : Fingerprint)
  | looking (fp : Fingerprint)
  | trusting (fp : Fingerprint) (info : PeerInfo)
  | limiting (fp : Fingerprint) (info : PeerInfo)
  /-- with the receiving end of a task's channel, or an error -/
  | returned (result : NetworkResult Nat)
  deriving DecidableEq

/-- Where a spawned task is. -/
inductive Stage (C : Type) where
  | connecting (info : PeerInfo)
  | looping (conn : C)
  /-- out of its loop, with its entry still to be removed -/
  | closing (conn : C)
  | ended
  deriving DecidableEq

/-- The connection of a task that has entered its loop and not yet ended. -/
def Stage.conn? : Stage C → Option C
  | .connecting _ => none
  | .looping conn => some conn
  | .closing conn => some conn
  | .ended => none

structure Spawned (C : Type) where
  fingerprint : Fingerprint
  stage : Stage C
  deriving DecidableEq

structure ConnectionManager (C : Type) where
  peers : List PeerInfo
  active : List ConnectionHandle
  trusted : Finset Fingerprint
  calls : List Call
  tasks : List (Spawned C)

/-- What happens to a manager, with attempts to connect in `A`. -/
inductive ManagerEvent (A : Type) where
  | addPeer (info : PeerInfo)
  | trustPeer (fp : Fingerprint)
  /-- The list of the trust store arrives. -/
  | loadTrusted (list : List Fingerprint)
  | cleanupStale (now : DateTime)
  | connectToPeer (fp : Fingerprint)
  /-- A call goes on by one check. -/
  | advance (call : Nat)
  /-- The connection of a task is there, or is not. -/
  | dialed (task : Nat) (attempt : A)
  /-- A task leaves its loop. -/
  | leave (task : Nat)
  /-- A task removes the entry. -/
  | finish (task : Nat)
  | disconnect (fp : Fingerprint)

namespace ConnectionManager

/-- `ConnectionManager::new` -/
def new : ConnectionManager C := ⟨[], [], ∅, [], []⟩

/-- `add_peer` -/
def addPeer (s : ConnectionManager C) (info : PeerInfo) :
    NetworkResult Unit × ConnectionManager C :=
  if maxPeers ≤ s.peers.length ∧
      (Table.find PeerInfo.fingerprint s.peers info.fingerprint).isSome = false then
    (.error (.peerLimitExceeded maxPeers), s)
  else (.ok (), { s with peers := Table.put PeerInfo.fingerprint s.peers info })

/-- `trust_peer` -/
def trustPeer (s : ConnectionManager C) (fp : Fingerprint) : ConnectionManager C :=
  { s with trusted := insert fp s.trusted }

/-- `is_trusted` -/
def isTrusted (s : ConnectionManager C) (fp : Fingerprint) : Bool := decide (fp ∈ s.trusted)

/-- `get_peer` -/
def getPeer (s : ConnectionManager C) (fp : Fingerprint) : Option PeerInfo :=
  Table.find PeerInfo.fingerprint s.peers fp

/-- `active_connection_count` -/
def activeConnectionCount (s : ConnectionManager C) : Nat := s.active.length

/-- `cleanup_stale`: peers not seen in 5 minutes are removed. -/
def cleanupStale (s : ConnectionManager C) (now : DateTime) : ConnectionManager C :=
  { s with peers := s.peers.filter fun info => decide (now - info.lastSeen < seconds 300) }

/-- `disconnect` -/
def disconnect (s : ConnectionManager C) (fp : Fingerprint) : ConnectionManager C :=
  { s with active := Table.erase ConnectionHandle.fingerprint s.active fp }

def setCall (s : ConnectionManager C) (i : Nat) (call : Call) : ConnectionManager C :=
  { s with calls := s.calls.set i call }

def setStage (s : ConnectionManager C) (k : Nat) (fp : Fingerprint) (stage : Stage C) :
    ConnectionManager C :=
  { s with tasks := s.tasks.set k ⟨fp, stage⟩ }

/-- The checks of `connect_to_peer`. -/
def check (s : ConnectionManager C) (i : Nat) : Call → ConnectionManager C
  | .checking fp =>
      if (Table.find ConnectionHandle.fingerprint s.active fp).isSome then
        s.setCall i (.returned (.error (.alreadyConnected fp.toFormattedString)))
      else s.setCall i (.looking fp)
  | .looking fp =>
      match s.getPeer fp with
      | none => s.setCall i (.returned (.error (.peerNotFound fp.toFormattedString)))
      | some info => s.setCall i (.trusting fp info)
  | .trusting fp info =>
      if s.isTrusted fp then s.setCall i (.limiting fp info)
      else s.setCall i (.returned (.error (.peerNotTrusted fp.toFormattedString)))
  | .limiting fp info =>
      if maxActiveConnections ≤ s.activeConnectionCount then
        s.setCall i (.returned (.error (.connectionLimitExceeded maxActiveConnections)))
      else
        { s with
          calls := s.calls.set i (.returned (.ok s.tasks.length))
          tasks := s.tasks ++ [⟨fp, .connecting info⟩] }
  | .returned _ => s

/-- The spawned task, up to its loop. -/
def establish (dial : PeerInfo → Fingerprint → X25519PublicKey → A → NetworkResult C)
    (s : ConnectionManager C) (k : Nat) (fp : Fingerprint) (info : PeerInfo) (a : A) :
    ConnectionManager C :=
  match info.x25519Public with
  | none => s.setStage k fp .ended
  | some rx =>
      match dial info fp rx a with
      | .error _ => s.setStage k fp .ended
      | .ok conn =>
          { s with
            active := Table.put ConnectionHandle.fingerprint s.active ⟨fp, k⟩
            tasks := s.tasks.set k ⟨fp, .looping conn⟩ }

def step (dial : PeerInfo → Fingerprint → X25519PublicKey → A → NetworkResult C)
    (s : ConnectionManager C) : ManagerEvent A → ConnectionManager C
  | .addPeer info => (s.addPeer info).2
  | .trustPeer fp => s.trustPeer fp
  | .loadTrusted list => list.foldl trustPeer s
  | .cleanupStale now => s.cleanupStale now
  | .connectToPeer fp => { s with calls := s.calls ++ [.checking fp] }
  | .advance i =>
      match s.calls[i]? with
      | some call => s.check i call
      | none => s
  | .dialed k a =>
      match s.tasks[k]? with
      | some ⟨fp, .connecting info⟩ => establish dial s k fp info a
      | _ => s
  | .leave k =>
      match s.tasks[k]? with
      | some ⟨fp, .looping conn⟩ => s.setStage k fp (.closing conn)
      | _ => s
  | .finish k =>
      match s.tasks[k]? with
      | some ⟨fp, .closing _⟩ => (s.disconnect fp).setStage k fp .ended
      | _ => s
  | .disconnect fp => s.disconnect fp

/-! ## What a step can do -/

section
variable {dial : PeerInfo → Fingerprint → X25519PublicKey → A → NetworkResult C}

/-- A task's handshake completes in this step. -/
def Completes (dial : PeerInfo → Fingerprint → X25519PublicKey → A → NetworkResult C)
    (s : ConnectionManager C) (e : ManagerEvent A) (k : Nat) (fp : Fingerprint) (conn : C) : Prop :=
  ∃ a info rx, e = .dialed k a ∧ s.tasks[k]? = some ⟨fp, .connecting info⟩ ∧
    info.x25519Public = some rx ∧ dial info fp rx a = .ok conn

/-- The entries and the tasks before and after a step. -/
inductive Changes (dial : PeerInfo → Fingerprint → X25519PublicKey → A → NetworkResult C)
    (s : ConnectionManager C) (e : ManagerEvent A) (s' : ConnectionManager C) : Prop where
  | none (hactive : s'.active = s.active) (htasks : s'.tasks = s.tasks)
  | spawned (fp : Fingerprint) (info : PeerInfo) (hcall : .limiting fp info ∈ s.calls)
      (hroom : s.active.length < maxActiveConnections) (hactive : s'.active = s.active)
      (htasks : s'.tasks = s.tasks ++ [⟨fp, .connecting info⟩])
  | completed (k : Nat) (fp : Fingerprint) (conn : C) (hcompletes : Completes dial s e k fp conn)
      (hactive : s'.active = Table.put ConnectionHandle.fingerprint s.active ⟨fp, k⟩)
      (htasks : s'.tasks = s.tasks.set k ⟨fp, .looping conn⟩)
  | failed (k : Nat) (fp : Fingerprint) (info : PeerInfo)
      (hbefore : s.tasks[k]? = some ⟨fp, .connecting info⟩) (hactive : s'.active = s.active)
      (htasks : s'.tasks = s.tasks.set k ⟨fp, .ended⟩)
  | left (k : Nat) (fp : Fingerprint) (conn : C)
      (hbefore : s.tasks[k]? = some ⟨fp, .looping conn⟩) (hactive : s'.active = s.active)
      (htasks : s'.tasks = s.tasks.set k ⟨fp, .closing conn⟩)
  | finished (k : Nat) (fp : Fingerprint) (conn : C)
      (hbefore : s.tasks[k]? = some ⟨fp, .closing conn⟩)
      (hactive : s'.active = Table.erase ConnectionHandle.fingerprint s.active fp)
      (htasks : s'.tasks = s.tasks.set k ⟨fp, .ended⟩)
  | disconnected (fp : Fingerprint)
      (hactive : s'.active = Table.erase ConnectionHandle.fingerprint s.active fp)
      (htasks : s'.tasks = s.tasks)

/-- A task is in its loop, or not yet through with it. -/
def Live (s : ConnectionManager C) (k : Nat) (fp : Fingerprint) (conn : C) : Prop :=
  ∃ stage, s.tasks[k]? = some ⟨fp, stage⟩ ∧ stage.conn? = some conn

/-- Each entry is of a task that is live. -/
def Owned (s : ConnectionManager C) : Prop :=
  ∀ h ∈ s.active, ∃ conn, Live s h.outgoing h.fingerprint conn

theorem check_changes (s : ConnectionManager C) (e : ManagerEvent A) {i : Nat} {call : Call}
    (hcall : s.calls[i]? = some call) : Changes dial s e (s.check i call) := by
  cases call with
  | checking fp =>
      rw [check]
      split
      · exact .none rfl rfl
      · exact .none rfl rfl
  | looking fp =>
      rw [check]
      split
      · exact .none rfl rfl
      · exact .none rfl rfl
  | trusting fp info =>
      rw [check]
      split
      · exact .none rfl rfl
      · exact .none rfl rfl
  | limiting fp info =>
      rw [check]
      split
      · exact .none rfl rfl
      · next hroom =>
          exact .spawned fp info (List.mem_of_getElem? hcall) (Nat.not_le.mp hroom) rfl rfl
  | returned result => exact .none rfl rfl

theorem establish_changes {s : ConnectionManager C} {k : Nat} {fp : Fingerprint} {info : PeerInfo}
    (hbefore : s.tasks[k]? = some ⟨fp, .connecting info⟩) (a : A) :
    Changes dial s (.dialed k a) (establish dial s k fp info a) := by
  rw [establish]
  split
  · exact .failed k fp info hbefore rfl rfl
  · next rx hkey =>
      split
      · exact .failed k fp info hbefore rfl rfl
      · next conn hdial =>
          exact .completed k fp conn ⟨a, info, rx, rfl, hbefore, hkey, hdial⟩ rfl rfl

/-- Trusting more peers touches nothing else. -/
theorem foldl_trustPeer (list : List Fingerprint) (s : ConnectionManager C) :
    (list.foldl trustPeer s).active = s.active ∧ (list.foldl trustPeer s).tasks = s.tasks ∧
      (list.foldl trustPeer s).calls = s.calls ∧ s.trusted ⊆ (list.foldl trustPeer s).trusted := by
  induction list generalizing s with
  | nil => exact ⟨rfl, rfl, rfl, fun _ h => h⟩
  | cons fp list ih =>
      obtain ⟨hactive, htasks, hcalls, htrusted⟩ := ih (s.trustPeer fp)
      exact ⟨hactive, htasks, hcalls, (Finset.subset_insert fp s.trusted).trans htrusted⟩

theorem step_changes (s : ConnectionManager C) (e : ManagerEvent A) :
    Changes dial s e (step dial s e) := by
  cases e with
  | addPeer info =>
      rw [step, addPeer]
      split
      · exact .none rfl rfl
      · exact .none rfl rfl
  | trustPeer fp => exact .none rfl rfl
  | loadTrusted list =>
      obtain ⟨hactive, htasks, -⟩ := foldl_trustPeer list s
      exact .none hactive htasks
  | cleanupStale now => exact .none rfl rfl
  | connectToPeer fp => exact .none rfl rfl
  | advance i =>
      rw [step]
      split
      · next hcall => exact check_changes s _ hcall
      · exact .none rfl rfl
  | dialed k a =>
      rw [step]
      split
      · next hbefore => exact establish_changes hbefore a
      · exact .none rfl rfl
  | leave k =>
      rw [step]
      split
      · next fp conn hbefore => exact .left k fp conn hbefore rfl rfl
      · exact .none rfl rfl
  | finish k =>
      rw [step]
      split
      · next fp conn hbefore => exact .finished k fp conn hbefore rfl rfl
      · exact .none rfl rfl
  | disconnect fp => exact .disconnected fp rfl rfl

/-! ## Live tasks -/

section
variable {s s' : ConnectionManager C} {e : ManagerEvent A} {k : Nat} {fp : Fingerprint}

theorem Live.stage {conn : C} {fp' : Fingerprint} {stage : Stage C} (h : Live s k fp conn)
    (hk : s.tasks[k]? = some ⟨fp', stage⟩) : fp' = fp ∧ stage.conn? = some conn := by
  obtain ⟨stage', hstage, hconn⟩ := h
  rw [hk] at hstage
  cases hstage
  exact ⟨rfl, hconn⟩

/-- Which tasks are live when one of them has gone on. -/
theorem live_set {before after : Stage C} (hbefore : s.tasks[k]? = some ⟨fp, before⟩)
    (htasks : s'.tasks = s.tasks.set k ⟨fp, after⟩) (j : Nat) (fp' : Fingerprint) (conn : C) :
    Live s' j fp' conn ↔
      (j = k ∧ fp' = fp ∧ after.conn? = some conn) ∨ (j ≠ k ∧ Live s j fp' conn) := by
  have hk : k < s.tasks.length := (List.getElem?_eq_some_iff.mp hbefore).1
  rw [Live, htasks]
  by_cases hj : j = k
  · subst hj
    rw [List.getElem?_set_self hk]
    constructor
    · rintro ⟨stage, hstage, hconn⟩
      cases hstage
      exact .inl ⟨rfl, rfl, hconn⟩
    · rintro (⟨-, rfl, hconn⟩ | ⟨hne, -⟩)
      · exact ⟨after, rfl, hconn⟩
      · exact absurd rfl hne
  · rw [List.getElem?_set_ne (Ne.symm hj)]
    constructor
    · exact fun h => .inr ⟨hj, h⟩
    · rintro (⟨heq, -⟩ | ⟨-, h⟩)
      · exact absurd heq hj
      · exact h

/-- A spawned task is not live yet. -/
theorem live_append {info : PeerInfo} (htasks : s'.tasks = s.tasks ++ [⟨fp, .connecting info⟩])
    (j : Nat) (fp' : Fingerprint) (conn : C) : Live s' j fp' conn ↔ Live s j fp' conn := by
  rw [Live, htasks, List.getElem?_append]
  split
  · exact Iff.rfl
  · next hj =>
      have hnone : s.tasks[j]? = none := List.getElem?_eq_none (Nat.not_lt.mp hj)
      constructor
      · rintro ⟨stage, hstage, hconn⟩
        have hmem := List.mem_of_getElem? hstage
        cases List.mem_singleton.mp hmem
        exact nomatch hconn
      · rintro ⟨stage, hstage, -⟩
        rw [hnone] at hstage
        exact nomatch hstage

theorem live_congr (htasks : s'.tasks = s.tasks) (j : Nat) (fp' : Fingerprint) (conn : C) :
    Live s' j fp' conn ↔ Live s j fp' conn := by
  rw [Live, htasks, Live]

/-- A task becomes live only by completing its handshake. -/
theorem live_of_step {conn : C} (h : Live (step dial s e) k fp conn) :
    Live s k fp conn ∨ Completes dial s e k fp conn := by
  have hchanges : Changes dial s e (step dial s e) := step_changes s e
  cases hchanges with
  | none _ htasks => exact .inl ((live_congr htasks _ _ _).mp h)
  | disconnected _ _ htasks => exact .inl ((live_congr htasks _ _ _).mp h)
  | spawned fp' info _ _ _ htasks => exact .inl ((live_append htasks _ _ _).mp h)
  | completed k' fp' conn' hcompletes _ htasks =>
      obtain ⟨a, info, rx, -, hbefore, -⟩ := id hcompletes
      rcases (live_set hbefore htasks _ _ _).mp h with ⟨rfl, rfl, hconn⟩ | ⟨-, hlive⟩
      · cases hconn
        exact .inr hcompletes
      · exact .inl hlive
  | failed k' fp' info hbefore _ htasks =>
      rcases (live_set hbefore htasks _ _ _).mp h with ⟨-, -, hconn⟩ | ⟨-, hlive⟩
      · exact nomatch hconn
      · exact .inl hlive
  | left k' fp' conn' hbefore _ htasks =>
      rcases (live_set hbefore htasks _ _ _).mp h with ⟨rfl, rfl, hconn⟩ | ⟨-, hlive⟩
      · exact .inl ⟨_, hbefore, hconn⟩
      · exact .inl hlive
  | finished k' fp' conn' hbefore _ htasks =>
      rcases (live_set hbefore htasks _ _ _).mp h with ⟨-, -, hconn⟩ | ⟨-, hlive⟩
      · exact nomatch hconn
      · exact .inl hlive

/-- Every entry is of a live task, whatever happens. -/
theorem step_owned (h : Owned s) : Owned (step dial s e) := by
  have hchanges : Changes dial s e (step dial s e) := step_changes s e
  intro handle hmem
  cases hchanges with
  | none hactive htasks =>
      obtain ⟨conn, hlive⟩ := h handle (hactive ▸ hmem)
      exact ⟨conn, (live_congr htasks _ _ _).mpr hlive⟩
  | disconnected fp hactive htasks =>
      rw [hactive, Table.mem_erase] at hmem
      obtain ⟨conn, hlive⟩ := h handle hmem.1
      exact ⟨conn, (live_congr htasks _ _ _).mpr hlive⟩
  | spawned fp info _ _ hactive htasks =>
      obtain ⟨conn, hlive⟩ := h handle (hactive ▸ hmem)
      exact ⟨conn, (live_append htasks _ _ _).mpr hlive⟩
  | completed k fp conn hcompletes hactive htasks =>
      obtain ⟨a, info, rx, -, hbefore, -⟩ := hcompletes
      rw [hactive, Table.mem_put] at hmem
      rcases hmem with ⟨hold, -⟩ | rfl
      · obtain ⟨conn', hlive⟩ := h handle hold
        refine ⟨conn', (live_set hbefore htasks _ _ _).mpr (.inr ⟨?_, hlive⟩)⟩
        -- the task that completes was not live before
        rintro rfl
        exact nomatch (hlive.stage hbefore).2
      · exact ⟨conn, (live_set hbefore htasks _ _ _).mpr (.inl ⟨rfl, rfl, rfl⟩)⟩
  | failed k fp info hbefore hactive htasks =>
      obtain ⟨conn, hlive⟩ := h handle (hactive ▸ hmem)
      refine ⟨conn, (live_set hbefore htasks _ _ _).mpr (.inr ⟨?_, hlive⟩)⟩
      rintro rfl
      exact nomatch (hlive.stage hbefore).2
  | left k fp conn hbefore hactive htasks =>
      obtain ⟨conn', hlive⟩ := h handle (hactive ▸ hmem)
      refine ⟨conn', (live_set hbefore htasks _ _ _).mpr ?_⟩
      by_cases hk : handle.outgoing = k
      · obtain ⟨hfp, hconn⟩ := hlive.stage (hk ▸ hbefore)
        exact .inl ⟨hk, hfp.symm, hconn⟩
      · exact .inr ⟨hk, hlive⟩
  | finished k fp conn hbefore hactive htasks =>
      rw [hactive, Table.mem_erase] at hmem
      obtain ⟨conn', hlive⟩ := h handle hmem.1
      refine ⟨conn', (live_set hbefore htasks _ _ _).mpr (.inr ⟨?_, hlive⟩)⟩
      rintro rfl
      exact hmem.2 (hlive.stage hbefore).1.symm

end

end

end ConnectionManager

end Rubix.Networking
