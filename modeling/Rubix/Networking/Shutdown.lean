/-
# `Rubix.Networking.Shutdown` — the manager's tasks once its token is cancelled

`shutdown` cancels the one token that the manager has given to all its tasks,
and waits for none of them.  What they do about it:

    client.connect         the handshake is interrupted, before or as it runs
    active.insert          the token is not looked at
    the select             its first branch: out of the loop
    conn.send              the token is not looked at
    incoming_tx.send       nor here
    cleanup                its select ends the task

So a task that is in a send has it ended first, and is out of the loop at its
next select.  But to make its entry or to remove it, a task has to wait for the
callers of `send_to` that wait for room in an outgoing channel, each with a guard
on a part of the map; and from a task that is told to stop no room comes.

Nothing behind a shutdown connects (`Closed.step`), every poll that changes
anything brings a task nearer its end or gives a caller its slot, and where none
does every task has ended and the map is empty if and only if there was room for
all who sent; else a task and its callers wait for each other (`winds_down`).

The manager's own steps are those of `Rubix.Networking.ConnectionManager`, the
callers' those of `Rubix.Networking.Backpressure` (`step_moves`).
-/
import Mathlib.Algebra.Order.BigOperators.Group.Finset
import Mathlib.Logic.Function.Basic
import Rubix.Lib.Channel
import Rubix.Networking.Admission
import Rubix.Networking.Disconnect

namespace Rubix.Networking

variable {W S T : Type}

/-- Where a task is in its loop. -/
inductive Turn where
  /-- in the select -/
  | selecting
  /-- in `conn.send` -/
  | sending
  /-- in `incoming_tx.send` -/
  | handing
  deriving DecidableEq

/-- What a poll of the select comes to, behind the branch of the token. -/
inductive Ready where
  | nothing
  | outgoing
  | received
  | failed

/-- An attempt to connect under a token that is cancelled. -/
def Attempt.cancel (a : Attempt W) : Attempt W := { a with interrupt := some .cancelled }

/-- The manager with its tasks' places in their loops, and its token. -/
structure Managing (W T : Type) where
  manager : ConnectionManager (EncryptedConnection W T)
  turns : Nat → Turn
  /-- The tasks that are connected, with their entries still to be made. -/
  inserting : Nat → Option (Attempt W)
  /-- The outgoing channels, with the callers that wait and hold a guard. -/
  outgoing : Nat → Channel (List UInt8) outgoingBufferSize
  cancelled : Bool

inductive ManagingEvent (W : Type) where
  /-- A call of the manager, or a step of its tasks outside their loops. -/
  | manages (e : ManagerEvent (Attempt W))
  /-- A task that is connected makes its entry. -/
  | inserted (task : Nat)
  /-- A task is polled in its select. -/
  | turn (task : Nat) (ready : Ready)
  /-- `conn.send` returns. -/
  | sent (task : Nat) (ok : Bool)
  /-- `incoming_tx.send` returns. -/
  | handed (task : Nat) (ok : Bool)
  /-- `send_to`, up to where it waits for room -/
  | sendTo (fp : Fingerprint) (message : List UInt8)
  /-- The first caller that waits for room is polled. -/
  | wake (task : Nat)
  /-- `shutdown` -/
  | shutdown

/-! ## What the manager itself keeps -/

namespace ConnectionManager

section
variable {A C : Type}
  {dial : PeerInfo → Fingerprint → Security.X25519PublicKey → A → NetworkResult C}
  {s : ConnectionManager C} {e : ManagerEvent A}

/-- An entry is made where a handshake completes, and nowhere else. -/
theorem active_of_step {handle : ConnectionHandle} (h : handle ∈ (step dial s e).active) :
    handle ∈ s.active ∨ ∃ fp conn, Completes dial s e handle.outgoing fp conn := by
  have hchanges : Changes dial s e (step dial s e) := step_changes s e
  cases hchanges with
  | none hactive _ => exact .inl (hactive ▸ h)
  | spawned fp info _ _ hactive _ => exact .inl (hactive ▸ h)
  | failed k fp info _ hactive _ => exact .inl (hactive ▸ h)
  | left k fp conn _ hactive _ => exact .inl (hactive ▸ h)
  | completed k fp conn hcompletes hactive _ =>
      rw [hactive] at h
      rcases Table.mem_put.mp h with ⟨hold, -⟩ | rfl
      · exact .inl hold
      · exact .inr ⟨fp, conn, hcompletes⟩
  | finished k fp conn _ hactive _ =>
      rw [hactive] at h
      exact .inl (Table.mem_erase.mp h).1
  | disconnected fp hactive _ =>
      rw [hactive] at h
      exact .inl (Table.mem_erase.mp h).1

theorem check_live {i : Nat} {call : Call} {k : Nat} {fp : Fingerprint} {conn : C}
    (h : Live s k fp conn) : Live (s.check i call) k fp conn := by
  cases call with
  | limiting fp' info =>
      rw [check]
      split
      · exact h
      · exact (live_append rfl _ _ _).mpr h
  | checking fp' => rw [check]; split <;> exact h
  | looking fp' => rw [check]; split <;> exact h
  | trusting fp' info => rw [check]; split <;> exact h
  | returned result => exact h

/-- A task goes from one stage to another, and is live in both if it was in the
first. -/
theorem Live.set {s' : ConnectionManager C} {j k : Nat} {fp fp' : Fingerprint} {conn : C}
    {before after : Stage C} (h : Live s j fp' conn) (hbefore : s.tasks[k]? = some ⟨fp, before⟩)
    (htasks : s'.tasks = s.tasks.set k ⟨fp, after⟩)
    (hkept : before.conn? = some conn → after.conn? = some conn) : Live s' j fp' conn := by
  refine (live_set hbefore htasks j fp' conn).mpr ?_
  by_cases hj : j = k
  · subst hj
    obtain ⟨rfl, hconn⟩ := h.stage hbefore
    exact .inl ⟨rfl, rfl, hkept hconn⟩
  · exact .inr ⟨hj, h⟩

/-- A live task ends where it removes the entry, and nowhere else. -/
theorem live_step {k : Nat} {fp : Fingerprint} {conn : C} (h : Live s k fp conn)
    (hstays : e ≠ .finish k) : Live (step dial s e) k fp conn := by
  cases e with
  | addPeer info =>
      rw [step, addPeer]
      split
      · exact h
      · exact h
  | loadTrusted list => exact (live_congr (foldl_trustPeer list s).2.1 _ _ _).mpr h
  | advance i =>
      rw [step]
      split
      · exact check_live h
      · exact h
  | dialed j a =>
      rw [step]
      split
      · next fp' info hbefore =>
          rw [establish]
          split
          · exact h.set hbefore rfl id
          · split
            · exact h.set hbefore rfl id
            · exact h.set hbefore rfl fun hnone => absurd hnone.symm (Option.some_ne_none conn)
      · exact h
  | leave j =>
      rw [step]
      split
      · next fp' conn' hbefore => exact h.set hbefore rfl id
      · exact h
  | finish j =>
      rw [step]
      split
      · next fp' conn' hbefore =>
          refine (live_set hbefore rfl k fp conn).mpr (.inr ⟨?_, h⟩)
          rintro rfl
          exact hstays rfl
      · exact h
  | _ => exact h

theorem check_peers (s : ConnectionManager C) (i : Nat) (call : Call) :
    (s.check i call).peers = s.peers := by
  cases call <;> rw [check] <;> split <;> rfl

theorem establish_peers (s : ConnectionManager C) (k : Nat) (fp : Fingerprint) (info : PeerInfo)
    (a : A) : (establish dial s k fp info a).peers = s.peers := by
  rw [establish]
  split
  · rfl
  · split
    · rfl
    · rfl

theorem foldl_trustPeer_peers (list : List Fingerprint) (s : ConnectionManager C) :
    (list.foldl trustPeer s).peers = s.peers := by
  induction list generalizing s with
  | nil => rfl
  | cons fp list ih => exact ih (s.trustPeer fp)

/-- Only the cleanup forgets a peer. -/
theorem step_known {fp : Fingerprint} (hclean : ∀ now, e ≠ .cleanupStale now)
    (h : (s.getPeer fp).isSome) : ((step dial s e).getPeer fp).isSome := by
  have hsame : ∀ s' : ConnectionManager C, s'.peers = s.peers → (s'.getPeer fp).isSome := by
    intro s' hpeers
    rw [getPeer, hpeers]
    exact h
  cases e with
  | addPeer info =>
      rw [step, addPeer]
      split
      · exact h
      · show (Table.find PeerInfo.fingerprint (Table.put _ s.peers info) fp).isSome
        rw [Table.find_put]
        split
        · rfl
        · exact h
  | cleanupStale now => exact absurd rfl (hclean now)
  | trustPeer fp' => exact h
  | loadTrusted list => exact hsame _ (foldl_trustPeer_peers list s)
  | connectToPeer fp' => exact h
  | advance i =>
      rw [step]
      split
      · exact hsame _ (check_peers s i _)
      · exact h
  | dialed k a =>
      rw [step]
      split
      · exact hsame _ (establish_peers s k _ _ a)
      · exact h
  | leave k =>
      rw [step]
      split
      · exact h
      · exact h
  | finish k =>
      rw [step]
      split
      · exact h
      · exact h
  | disconnect fp' => exact h

end

end ConnectionManager

namespace Managing

open ConnectionManager (dialer Live Owned)

def new : Managing W T := ⟨.new, fun _ => .selecting, fun _ => none, fun _ => .empty, false⟩

/-- A step of the manager itself. -/
def manages (client : TcpClient S T) (s : Managing W T) (e : ManagerEvent (Attempt W)) :
    Managing W T :=
  { s with manager := s.manager.step (dialer client) e }

def goTo (s : Managing W T) (k : Nat) (turn : Turn) : Managing W T :=
  { s with turns := Function.update s.turns k turn }

def setChannel (s : Managing W T) (k : Nat) (c : Channel (List UInt8) outgoingBufferSize) :
    Managing W T :=
  { s with outgoing := Function.update s.outgoing k c }

/-- The place of a task that is in its loop. -/
def turn? (s : Managing W T) (k : Nat) : Option Turn :=
  match s.manager.tasks[k]? with
  | some ⟨_, .looping _⟩ => some (s.turns k)
  | _ => none

/-- The receiving end of a task's channel is dropped. -/
def closed (s : Managing W T) (k : Nat) : Bool :=
  match s.manager.tasks[k]? with
  | some ⟨_, .ended⟩ => true
  | _ => false

/-! ## The guards -/

section
variable (shard : Fingerprint → Nat)

/-- A caller waits for room in the channel of a task, with a guard on the part
of the map that has `fp`. -/
def holds (s : Managing W T) (fp : Fingerprint) (k : Nat) : Bool :=
  match s.manager.tasks[k]? with
  | some t => !(s.outgoing k).waiting.isEmpty && decide (shard t.fingerprint = shard fp)
  | none => false

/-- The part of the map that has `fp` is not to be written. -/
def locked (s : Managing W T) (fp : Fingerprint) : Bool :=
  (List.range s.manager.tasks.length).any (s.holds shard fp)

/-- `send_to`, with the message in the channel or its caller waiting for room -/
def sendTo (s : Managing W T) (fp : Fingerprint) (message : List UInt8) :
    NetworkResult (Managing W T) :=
  match Table.find ConnectionHandle.fingerprint s.manager.active fp with
  | none => .error (.peerNotConnected fp.toFormattedString)
  | some handle =>
      if s.closed handle.outgoing then .error (.sendFailed "channel closed")
      else .ok (s.setChannel handle.outgoing ((s.outgoing handle.outgoing).offer message))

/-- A caller that waits gets its slot, or learns that there is none to come. -/
def wake (s : Managing W T) (k : Nat) : Managing W T :=
  if s.closed k then s.setChannel k { s.outgoing k with waiting := [] }
  else s.setChannel k (s.outgoing k).resume

/-! ## The tasks -/

variable (client : TcpClient S T)

/-- An attempt of a task comes to a connection. -/
def connects (s : Managing W T) (k : Nat) (a : Attempt W) : Bool :=
  match s.manager.tasks[k]? with
  | some ⟨fp, .connecting info⟩ =>
      match info.x25519Public with
      | some rx => (dialer client info fp rx a).isOk
      | none => false
  | _ => false

/-- `client.connect` returns. -/
def dialed (s : Managing W T) (k : Nat) (a : Attempt W) : Managing W T :=
  if (s.inserting k).isSome then s
  else if s.connects client k a then
    { s with inserting := Function.update s.inserting k (some a) }
  else s.manages client (.dialed k a)

/-- `active.insert` -/
def insert (s : Managing W T) (k : Nat) : Managing W T :=
  match s.manager.tasks[k]?, s.inserting k with
  | some ⟨fp, .connecting _⟩, some a =>
      if s.locked shard fp then s
      else
        { s with
          manager := s.manager.step (dialer client) (.dialed k a)
          inserting := Function.update s.inserting k none
          turns := Function.update s.turns k .selecting }
  | _, _ => s

/-- The branches of the select behind the one of the token. -/
def branch (s : Managing W T) (k : Nat) : Ready → Managing W T
  | .nothing => s
  | .outgoing =>
      match (s.outgoing k).receive with
      | some (_, c) => (s.setChannel k c).goTo k .sending
      | none => s
  | .received => s.goTo k .handing
  | .failed => s.manages client (.leave k)

/-- A poll of the select. -/
def select (s : Managing W T) (k : Nat) (ready : Ready) : Managing W T :=
  if s.cancelled then s.manages client (.leave k) else s.branch client k ready

/-- What is behind a send. -/
def returned (s : Managing W T) (k : Nat) (ok : Bool) : Managing W T :=
  if ok then s.goTo k .selecting else s.manages client (.leave k)

/-- What the manager and its tasks do outside their loops. -/
def manage (s : Managing W T) : ManagerEvent (Attempt W) → Managing W T
  -- a task leaves its loop at its own turns
  | .leave _ => s
  | .dialed k a => s.dialed client k (if s.cancelled then a.cancel else a)
  | .finish k =>
      match s.manager.tasks[k]? with
      | some t => if s.locked shard t.fingerprint then s else s.manages client (.finish k)
      | none => s
  | .disconnect fp => if s.locked shard fp then s else s.manages client (.disconnect fp)
  | .cleanupStale now => if s.cancelled then s else s.manages client (.cleanupStale now)
  | e => s.manages client e

def step (s : Managing W T) : ManagingEvent W → Managing W T
  | .manages e => s.manage shard client e
  | .inserted k => s.insert shard client k
  | .turn k ready => if s.turn? k = some .selecting then s.select client k ready else s
  | .sent k ok => if s.turn? k = some .sending then s.returned client k ok else s
  | .handed k ok => if s.turn? k = some .handing then s.returned client k ok else s
  | .sendTo fp message =>
      match s.sendTo fp message with
      | .ok s' => s'
      | .error _ => s
  | .wake k => s.wake k
  | .shutdown => { s with cancelled := true }

/-- A poll of a task, or of a caller that waits. -/
def IsPoll : ManagingEvent W → Prop
  | .manages (.dialed _ _) | .manages (.finish _) => True
  | .inserted _ | .turn _ _ | .sent _ _ | .handed _ _ | .wake _ => True
  | _ => False

/-- A poll that changes something. -/
def Effective (s : Managing W T) (e : ManagingEvent W) : Prop :=
  IsPoll e ∧ step shard client s e ≠ s

/-- No poll changes anything. -/
def Stuck (s : Managing W T) : Prop := ∀ e, ¬ Effective shard client s e

end

/-! ## What a step does -/

section
variable {shard : Fingerprint → Nat} {client : TcpClient S T} {s : Managing W T}
  {e : ManagingEvent W}

/-- What a manager does under a cancelled token: connections are made only by
the tasks that had theirs. -/
def Permitted (s : Managing W T) : ManagerEvent (Attempt W) → Prop
  | .dialed k a => a.interrupt = some .cancelled ∨ s.inserting k = some a
  | .cleanupStale _ => False
  | _ => True

/-- A task removes its entry only where no guard is in the way. -/
def Unlocked (shard : Fingerprint → Nat) (s : Managing W T) (e : ManagerEvent (Attempt W)) : Prop :=
  ∀ k t, e = .finish k → s.manager.tasks[k]? = some t → s.locked shard t.fingerprint = false

/-- The manager takes one of its own steps, or a channel changes, or neither. -/
inductive Moves (shard : Fingerprint → Nat) (client : TcpClient S T) (s : Managing W T)
    (e : ManagingEvent W) (s' : Managing W T) : Prop where
  | idle (hmanager : s'.manager = s.manager) (hinserting : s'.inserting = s.inserting)
      (houtgoing : s'.outgoing = s.outgoing)
  | connected (hmanager : s'.manager = s.manager) (houtgoing : s'.outgoing = s.outgoing)
      (hopen : s.cancelled = false)
  | manages (e' : ManagerEvent (Attempt W))
      (hmanager : s'.manager = s.manager.step (dialer client) e')
      (hinserting : ∀ k a, s'.inserting k = some a → s.inserting k = some a)
      (houtgoing : s'.outgoing = s.outgoing)
      (hpermitted : s.cancelled = true → Permitted s e') (hunlocked : Unlocked shard s e')
  | offered (fp : Fingerprint) (message : List UInt8) (handle : ConnectionHandle)
      (hevent : e = .sendTo fp message) (hentry : handle ∈ s.manager.active)
      (hmanager : s'.manager = s.manager)
      (hinserting : s'.inserting = s.inserting)
      (houtgoing : s'.outgoing = Function.update s.outgoing handle.outgoing
        ((s.outgoing handle.outgoing).offer message))
  | woken (k : Nat) (c : Channel (List UInt8) outgoingBufferSize)
      (hwoken : c = (s.outgoing k).resume ∨
        s.closed k = true ∧ c = { s.outgoing k with waiting := [] })
      (hmanager : s'.manager = s.manager) (hinserting : s'.inserting = s.inserting)
      (houtgoing : s'.outgoing = Function.update s.outgoing k c)
  | taken (k : Nat) (message : List UInt8) (c : Channel (List UInt8) outgoingBufferSize)
      (hreceive : (s.outgoing k).receive = some (message, c)) (hopen : s.cancelled = false)
      (hmanager : s'.manager = s.manager) (hinserting : s'.inserting = s.inserting)
      (houtgoing : s'.outgoing = Function.update s.outgoing k c)

theorem Moves.same : Moves shard client s e s := .idle rfl rfl rfl

theorem manages_moves {e' : ManagerEvent (Attempt W)}
    (hpermitted : s.cancelled = true → Permitted s e') (hunlocked : Unlocked shard s e') :
    Moves shard client s e (s.manages client e') :=
  .manages e' rfl (fun _ _ h => h) rfl hpermitted hunlocked

theorem leave_moves (k : Nat) : Moves shard client s e (s.manages client (.leave k)) := by
  refine manages_moves (fun _ => trivial) ?_
  intro _ _ hfinish
  cases hfinish

theorem dialed_moves (k : Nat) {a : Attempt W}
    (hcancelled : s.cancelled = true →
      a.interrupt = some .cancelled ∧ s.connects client k a = false) :
    Moves shard client s e (s.dialed client k a) := by
  rw [dialed]
  split
  · exact .same
  · split
    · next hconnects =>
        refine .connected rfl rfl ?_
        by_contra hopen
        rw [(hcancelled (eq_true_of_ne_false hopen)).2] at hconnects
        exact Bool.false_ne_true hconnects
    · refine manages_moves (fun h => .inl (hcancelled h).1) ?_
      intro _ _ hfinish
      cases hfinish

/-- No attempt succeeds under a cancelled token. -/
theorem connect_cancelled (client : TcpClient S T) {a : Attempt W}
    (h : a.interrupt = some .cancelled) (ip : String) (port : Nat) (fp : Fingerprint)
    (rx : Security.X25519PublicKey) :
    ∃ e, client.connect ip port fp rx a = .error e := by
  rw [TcpClient.connect]
  split
  · exact ⟨_, rfl⟩
  · exact ⟨_, rfl⟩
  · split
    · exact ⟨_, rfl⟩
    · split
      · exact ⟨_, rfl⟩
      · rw [h]
        exact ⟨_, rfl⟩

theorem not_connects (client : TcpClient S T) (s : Managing W T) (k : Nat) {a : Attempt W}
    (h : a.interrupt = some .cancelled) : s.connects client k a = false := by
  rw [connects]
  split
  · next fp info _ =>
      split
      · next rx _ =>
          obtain ⟨e, he⟩ := connect_cancelled client h info.ipAddress info.tcpPort fp rx
          rw [dialer, he]
          rfl
      · rfl
  · rfl

theorem insert_moves (k : Nat) : Moves shard client s e (s.insert shard client k) := by
  rw [insert]
  split
  · next fp info a _ hinserting =>
      split
      · exact .same
      · refine .manages (.dialed k a) rfl ?_ rfl (fun _ => .inr hinserting) ?_
        · intro j a' ha'
          dsimp only at ha'
          by_cases hj : j = k
          · subst hj
            rw [Function.update_self] at ha'
            cases ha'
          · rw [Function.update_of_ne hj] at ha'
            exact ha'
        · intro _ _ hfinish
          cases hfinish
  · exact .same

theorem returned_moves (k : Nat) (ok : Bool) : Moves shard client s e (s.returned client k ok) := by
  rw [returned]
  split
  · exact .idle rfl rfl rfl
  · exact leave_moves k

theorem select_moves (k : Nat) (ready : Ready) :
    Moves shard client s e (s.select client k ready) := by
  rw [select]
  split
  · exact leave_moves k
  · next hopen =>
      cases ready with
      | nothing => exact .same
      | outgoing =>
          rw [branch]
          split
          · next message c hreceive =>
              exact .taken k message c hreceive (eq_false_of_ne_true hopen) rfl rfl rfl
          · exact .same
      | received => exact .idle rfl rfl rfl
      | failed => exact leave_moves k

theorem manage_moves (e' : ManagerEvent (Attempt W)) :
    Moves shard client s e (s.manage shard client e') := by
  cases e' with
  | leave k => exact .same
  | dialed k a =>
      refine dialed_moves k ?_
      intro hcancelled
      rw [if_pos hcancelled]
      exact ⟨rfl, not_connects client s k rfl⟩
  | finish k =>
      rw [manage]
      split
      · next t htask =>
          split
          · exact .same
          · next hlocked =>
              refine manages_moves (fun _ => trivial) ?_
              intro j t' hfinish htask'
              cases hfinish
              rw [htask] at htask'
              cases htask'
              exact eq_false_of_ne_true hlocked
      · exact .same
  | cleanupStale now =>
      rw [manage]
      split
      · exact .same
      · next hopen =>
          refine manages_moves (fun hcancelled => absurd hcancelled hopen) ?_
          intro _ _ hfinish
          cases hfinish
  | disconnect fp =>
      rw [manage]
      split
      · exact .same
      · refine manages_moves (fun _ => trivial) ?_
        intro _ _ hfinish
        cases hfinish
  | _ =>
      refine manages_moves (fun _ => trivial) ?_
      intro _ _ hfinish
      cases hfinish

theorem sendTo_moves {fp : Fingerprint} {message : List UInt8} {s' : Managing W T}
    (h : s.sendTo fp message = .ok s') : Moves shard client s (.sendTo fp message) s' := by
  rw [sendTo] at h
  split at h
  · cases h
  · next handle hentry =>
      split at h
      · cases h
      · cases h
        exact .offered fp message handle rfl (List.mem_of_find?_eq_some hentry) rfl rfl rfl

theorem wake_moves (k : Nat) : Moves shard client s e (s.wake k) := by
  rw [wake]
  split
  · next hclosed => exact .woken k _ (.inr ⟨hclosed, rfl⟩) rfl rfl rfl
  · exact .woken k _ (.inl rfl) rfl rfl rfl

theorem step_moves (shard : Fingerprint → Nat) (client : TcpClient S T) (s : Managing W T)
    (e : ManagingEvent W) : Moves shard client s e (step shard client s e) := by
  cases e with
  | manages e => exact manage_moves e
  | inserted k => exact insert_moves k
  | turn k ready =>
      rw [step]
      split
      · exact select_moves k ready
      · exact .same
  | sent k ok =>
      rw [step]
      split
      · exact returned_moves k ok
      · exact .same
  | handed k ok =>
      rw [step]
      split
      · exact returned_moves k ok
      · exact .same
  | sendTo fp message =>
      rw [step]
      split
      · next s' hsent => exact sendTo_moves hsent
      · exact .same
  | wake k => exact wake_moves k
  | shutdown => exact .idle rfl rfl rfl

/-! ## Who has an entry, and who a guard -/

/-- Each entry is of a task that is live, and so is each channel that somebody
waits for. -/
structure Sound (s : Managing W T) : Prop where
  owned : Owned s.manager
  held : ∀ k, (s.outgoing k).waiting ≠ [] → ∃ fp conn, Live s.manager k fp conn

theorem sound_new : Sound (new : Managing W T) := by
  refine ⟨?_, ?_⟩
  · intro handle hmem
    cases hmem
  · intro k hwaiting
    exact absurd rfl hwaiting

theorem locked_of_waiting {k : Nat} {t : Spawned (EncryptedConnection W T)}
    (htask : s.manager.tasks[k]? = some t) (hwaiting : (s.outgoing k).waiting ≠ []) :
    s.locked shard t.fingerprint = true := by
  have hk : k < s.manager.tasks.length := (List.getElem?_eq_some_iff.mp htask).1
  refine List.any_eq_true.mpr ⟨k, List.mem_range.mpr hk, ?_⟩
  rw [holds, htask]
  simp [hwaiting]

theorem not_locked (hwaiting : ∀ k, (s.outgoing k).waiting = []) (fp : Fingerprint) :
    s.locked shard fp = false := by
  refine List.any_eq_false.mpr ?_
  intro k _
  rw [holds]
  split
  · simp [hwaiting k]
  · exact Bool.false_ne_true

theorem Sound.of_outgoing {s' : Managing W T} (h : Sound s) {k : Nat}
    {c : Channel (List UInt8) outgoingBufferSize} (hmanager : s'.manager = s.manager)
    (houtgoing : s'.outgoing = Function.update s.outgoing k c)
    (hheld : c.waiting ≠ [] → ∃ fp conn, Live s.manager k fp conn) : Sound s' := by
  refine ⟨hmanager ▸ h.owned, ?_⟩
  intro j hwaiting
  rw [houtgoing] at hwaiting
  rw [hmanager]
  by_cases hj : j = k
  · subst hj
    rw [Function.update_self] at hwaiting
    exact hheld hwaiting
  · rw [Function.update_of_ne hj] at hwaiting
    exact h.held j hwaiting

theorem Sound.step (h : Sound s) (e : ManagingEvent W) : Sound (step shard client s e) := by
  cases step_moves shard client s e with
  | idle hmanager _ houtgoing => exact ⟨hmanager ▸ h.owned, hmanager ▸ houtgoing ▸ h.held⟩
  | connected hmanager houtgoing _ => exact ⟨hmanager ▸ h.owned, hmanager ▸ houtgoing ▸ h.held⟩
  | manages e' hmanager _ houtgoing _ hunlocked =>
      refine ⟨?_, ?_⟩
      · rw [hmanager]
        exact ConnectionManager.step_owned h.owned
      · intro k hwaiting
        rw [houtgoing] at hwaiting
        rw [hmanager]
        obtain ⟨fp, conn, hlive⟩ := h.held k hwaiting
        refine ⟨fp, conn, ConnectionManager.live_step hlive ?_⟩
        -- the task cannot remove the entry of a handle that is waited with
        rintro rfl
        obtain ⟨stage, htask, -⟩ := hlive
        have hlocked : s.locked shard fp = true := locked_of_waiting htask hwaiting
        rw [hunlocked k _ rfl htask] at hlocked
        exact Bool.false_ne_true hlocked
  | offered fp message handle _ hentry hmanager _ houtgoing =>
      refine h.of_outgoing hmanager houtgoing fun _ => ?_
      obtain ⟨conn, hlive⟩ := h.owned handle hentry
      exact ⟨handle.fingerprint, conn, hlive⟩
  | woken k c hwoken hmanager _ houtgoing =>
      refine h.of_outgoing hmanager houtgoing fun hwaiting => h.held k ?_
      rintro hnone
      rcases hwoken with rfl | ⟨-, rfl⟩
      · have hle := (s.outgoing k).length_waiting_resume_le
        rw [hnone, List.length_nil, Nat.le_zero] at hle
        exact hwaiting (List.length_eq_zero_iff.mp hle)
      · exact hwaiting rfl
  | taken k message c hreceive _ hmanager _ houtgoing =>
      refine h.of_outgoing hmanager houtgoing fun hwaiting => h.held k ?_
      rw [← (Channel.receive_eq_some hreceive).2]
      exact hwaiting

theorem run_sound (shard : Fingerprint → Nat) (client : TcpClient S T)
    (events : List (ManagingEvent W)) : Sound (Runs.run (step shard client) events new) :=
  (Runs.always_of_invariant sound_new (fun _ e h => h.step e) events).last

/-- Nobody waits for a task that has ended. -/
theorem Sound.waiting_of_closed (h : Sound s) {k : Nat} (hclosed : s.closed k = true) :
    (s.outgoing k).waiting = [] := by
  by_contra hwaiting
  obtain ⟨fp, conn, stage, htask, hconn⟩ := h.held k hwaiting
  rw [closed, htask] at hclosed
  cases stage with
  | ended => cases hconn
  | _ => exact Bool.false_ne_true hclosed

/-- To a peer that is listed, `send_to` does not fail. -/
theorem Sound.sendTo_eq (h : Sound s) {fp : Fingerprint} {handle : ConnectionHandle}
    (hentry : Table.find ConnectionHandle.fingerprint s.manager.active fp = some handle)
    (message : List UInt8) :
    s.sendTo fp message =
      .ok (s.setChannel handle.outgoing ((s.outgoing handle.outgoing).offer message)) := by
  obtain ⟨conn, stage, htask, hconn⟩ := h.owned handle (List.mem_of_find?_eq_some hentry)
  have hopen : s.closed handle.outgoing = false := by
    rw [closed, htask]
    cases stage with
    | ended => cases hconn
    | _ => rfl
  rw [sendTo, hentry]
  dsimp only
  rw [hopen]
  rfl

/-! ## Behind the shutdown -/

theorem step_cancelled (h : s.cancelled = true) (e : ManagingEvent W) :
    (step shard client s e).cancelled = true := by
  have hreturned : ∀ k ok, (s.returned client k ok).cancelled = true := by
    intro k ok
    rw [returned]
    split
    · exact h
    · exact h
  cases e with
  | manages e =>
      rw [step]
      cases e with
      | dialed k a =>
          rw [manage, dialed]
          split
          · exact h
          · split
            · exact h
            · exact h
      | finish k =>
          rw [manage]
          split
          · split
            · exact h
            · exact h
          · exact h
      | disconnect fp =>
          rw [manage]
          split
          · exact h
          · exact h
      | cleanupStale now =>
          rw [manage, if_pos h]
          exact h
      | _ => exact h
  | inserted k =>
      rw [step, insert]
      split
      · split
        · exact h
        · exact h
      · exact h
  | turn k ready =>
      rw [step]
      split
      · rw [select, if_pos h]
        exact h
      · exact h
  | sent k ok =>
      rw [step]
      split
      · exact hreturned k ok
      · exact h
  | handed k ok =>
      rw [step]
      split
      · exact hreturned k ok
      · exact h
  | sendTo fp message =>
      rw [step]
      split
      · next s' hsent =>
          rw [sendTo] at hsent
          split at hsent
          · cases hsent
          · split at hsent
            · cases hsent
            · cases hsent
              exact h
      · exact h
  | wake k =>
      rw [step, wake]
      split
      · exact h
      · exact h
  | shutdown => rfl

/-- A task that gets into its loop behind a shutdown was connected. -/
theorem completes_inserting {e : ManagerEvent (Attempt W)} (h : Permitted s e) {k : Nat}
    {fp : Fingerprint} {conn : EncryptedConnection W T}
    (hcompletes : ConnectionManager.Completes (dialer client) s.manager e k fp conn) :
    (s.inserting k).isSome := by
  obtain ⟨a, info, rx, rfl, -, -, hdial⟩ := hcompletes
  rcases h with hinterrupt | hinserting
  · obtain ⟨e, he⟩ := connect_cancelled client hinterrupt info.ipAddress info.tcpPort fp rx
    rw [dialer, he] at hdial
    cases hdial
  · rw [hinserting]
    rfl

/-- What nothing behind a shutdown undoes. -/
structure Closed (before after : Managing W T) : Prop where
  cancelled : after.cancelled = true
  /-- No attempt comes to a connection, -/
  inserting : ∀ k a, after.inserting k = some a → before.inserting k = some a
  /-- no entry is made but by a task that was connected, -/
  active : ∀ h ∈ after.manager.active, h ∈ before.manager.active ∨
    (before.inserting h.outgoing).isSome
  /-- nor does any other get into its loop, -/
  live : ∀ k fp conn, Live after.manager k fp conn → Live before.manager k fp conn ∨
    (before.inserting k).isSome
  /-- and no peer is taken for stale. -/
  known : ∀ fp, (before.manager.getPeer fp).isSome → (after.manager.getPeer fp).isSome

theorem Closed.refl (h : s.cancelled = true) : Closed s s := ⟨h, fun _ _ hmem => hmem,
  fun _ hmem => .inl hmem, fun _ _ _ hlive => .inl hlive, fun _ hknown => hknown⟩

theorem Closed.inserting_isSome {before : Managing W T} (h : Closed before s) {k : Nat}
    (hsome : (s.inserting k).isSome) : (before.inserting k).isSome := by
  obtain ⟨a, ha⟩ := Option.isSome_iff_exists.mp hsome
  rw [h.inserting k a ha]
  rfl

/-- Nothing of the manager itself has changed. -/
theorem Closed.of_manager {before s' : Managing W T} (h : Closed before s)
    (hcancelled : s'.cancelled = true) (hmanager : s'.manager = s.manager)
    (hinserting : s'.inserting = s.inserting) : Closed before s' := by
  refine ⟨hcancelled, ?_, ?_, ?_, ?_⟩
  · rw [hinserting]
    exact h.inserting
  · rw [hmanager]
    exact h.active
  · rw [hmanager]
    exact h.live
  · rw [hmanager]
    exact h.known

theorem Closed.step {before : Managing W T} (h : Closed before s) (e : ManagingEvent W) :
    Closed before (step shard client s e) := by
  have hcancelled : (Managing.step shard client s e).cancelled = true :=
    step_cancelled h.cancelled e
  cases step_moves shard client s e with
  | idle hmanager hinserting _ => exact h.of_manager hcancelled hmanager hinserting
  | connected _ _ hopen =>
      rw [h.cancelled] at hopen
      exact absurd hopen.symm Bool.false_ne_true
  | offered fp message handle _ _ hmanager hinserting _ =>
      exact h.of_manager hcancelled hmanager hinserting
  | woken k c _ hmanager hinserting _ => exact h.of_manager hcancelled hmanager hinserting
  | taken k message c _ _ hmanager hinserting _ =>
      exact h.of_manager hcancelled hmanager hinserting
  | manages e' hmanager hinserting _ hpermitted _ =>
      have hallowed : Permitted s e' := hpermitted h.cancelled
      refine ⟨hcancelled, ?_, ?_, ?_, ?_⟩
      · intro k a ha
        exact h.inserting k a (hinserting k a ha)
      · intro handle hmem
        rw [hmanager] at hmem
        rcases ConnectionManager.active_of_step hmem with hold | ⟨fp, conn, hcompletes⟩
        · exact h.active handle hold
        · exact .inr (h.inserting_isSome (completes_inserting hallowed hcompletes))
      · intro k fp conn hlive
        rw [hmanager] at hlive
        rcases ConnectionManager.live_of_step hlive with hold | hcompletes
        · exact h.live k fp conn hold
        · exact .inr (h.inserting_isSome (completes_inserting hallowed hcompletes))
      · intro fp hknown
        rw [hmanager]
        refine ConnectionManager.step_known ?_ (h.known fp hknown)
        rintro now rfl
        exact hallowed

/-! ## Room -/

/-- Every message that is pending has a slot. -/
def Roomy (s : Managing W T) : Prop := ∀ k, (s.outgoing k).pending ≤ outgoingBufferSize

/-- Who sends finds a slot. -/
def RoomLeft (s : Managing W T) : ManagingEvent W → Prop
  | .sendTo fp _ => ∀ handle,
      Table.find ConnectionHandle.fingerprint s.manager.active fp = some handle →
        (s.outgoing handle.outgoing).pending < outgoingBufferSize
  | _ => True

theorem roomy_congr {s' : Managing W T}
    (h : ∀ k, (s'.outgoing k).pending = (s.outgoing k).pending) : Roomy s' ↔ Roomy s := by
  constructor
  · intro hroomy k
    exact h k ▸ hroomy k
  · intro hroomy k
    exact (h k).symm ▸ hroomy k

theorem pending_update {s' : Managing W T} {k : Nat} {c : Channel (List UInt8) outgoingBufferSize}
    (houtgoing : s'.outgoing = Function.update s.outgoing k c)
    (hpending : c.pending = (s.outgoing k).pending) (j : Nat) :
    (s'.outgoing j).pending = (s.outgoing j).pending := by
  rw [houtgoing]
  by_cases hj : j = k
  · subst hj
    rw [Function.update_self, hpending]
  · rw [Function.update_of_ne hj]

/-- Under a cancelled token no message is taken, and only a `send_to` makes one
more pending. -/
theorem pending_step (hcancelled : s.cancelled = true) (hsound : Sound s)
    (hsend : ∀ fp message, e ≠ .sendTo fp message) (k : Nat) :
    ((step shard client s e).outgoing k).pending = (s.outgoing k).pending := by
  cases step_moves shard client s e with
  | idle _ _ houtgoing => rw [houtgoing]
  | connected _ houtgoing _ => rw [houtgoing]
  | manages e' _ _ houtgoing _ _ => rw [houtgoing]
  | offered fp message handle hevent _ _ _ _ => exact absurd hevent (hsend fp message)
  | taken j message c _ hopen _ _ _ =>
      rw [hcancelled] at hopen
      exact absurd hopen.symm Bool.false_ne_true
  | woken j c hwoken _ _ houtgoing =>
      refine pending_update houtgoing ?_ k
      rcases hwoken with rfl | ⟨hclosed, rfl⟩
      · exact Channel.pending_resume
      · rw [Channel.pending, Channel.pending, hsound.waiting_of_closed hclosed]

theorem roomy_sendTo (hsound : Sound s) (fp : Fingerprint) (message : List UInt8) :
    Roomy (step shard client s (.sendTo fp message)) ↔
      Roomy s ∧ RoomLeft s (.sendTo fp message) := by
  cases hentry : Table.find ConnectionHandle.fingerprint s.manager.active fp with
  | none =>
      have hstep : step shard client s (.sendTo fp message) = s := by
        rw [step, sendTo, hentry]
      have hroom : RoomLeft s (.sendTo fp message) := by
        intro handle hhandle
        rw [hentry] at hhandle
        cases hhandle
      rw [hstep]
      exact ⟨fun h => ⟨h, hroom⟩, fun h => h.1⟩
  | some handle =>
      have hstep : (step shard client s (.sendTo fp message)).outgoing = Function.update s.outgoing
          handle.outgoing ((s.outgoing handle.outgoing).offer message) := by
        rw [step, hsound.sendTo_eq hentry]
        rfl
      have hroom : RoomLeft s (.sendTo fp message) ↔
          (s.outgoing handle.outgoing).pending < outgoingBufferSize := by
        rw [RoomLeft, hentry]
        exact ⟨fun h => h handle rfl, fun h _ heq => Option.some.inj heq ▸ h⟩
      rw [hroom, Roomy, hstep]
      constructor
      · intro h
        have hmore := h handle.outgoing
        rw [Function.update_self, Channel.pending_offer] at hmore
        refine ⟨fun j => ?_, hmore⟩
        by_cases hj : j = handle.outgoing
        · rw [hj]
          exact Nat.le_of_lt hmore
        · have hsame := h j
          rw [Function.update_of_ne hj] at hsame
          exact hsame
      · rintro ⟨hroomy, hmore⟩ j
        by_cases hj : j = handle.outgoing
        · rw [hj, Function.update_self, Channel.pending_offer]
          exact hmore
        · rw [Function.update_of_ne hj]
          exact hroomy j

theorem roomy_step (hcancelled : s.cancelled = true) (hsound : Sound s) (e : ManagingEvent W) :
    Roomy (step shard client s e) ↔ Roomy s ∧ RoomLeft s e := by
  have hother : (∀ fp message, e ≠ .sendTo fp message) → RoomLeft s e →
      (Roomy (step shard client s e) ↔ Roomy s ∧ RoomLeft s e) := by
    intro hsend hroom
    rw [roomy_congr (pending_step hcancelled hsound hsend)]
    exact ⟨fun h => ⟨h, hroom⟩, fun h => h.1⟩
  cases e with
  | sendTo fp message => exact roomy_sendTo hsound fp message
  | _ =>
      refine hother ?_ trivial
      intro _ _ hsend
      cases hsend

/-- There is room at the end of a run if and only if there was, and all who sent
found a slot. -/
theorem roomy_run (hcancelled : s.cancelled = true) (hsound : Sound s)
    (events : List (ManagingEvent W)) :
    Roomy (Runs.run (step shard client) events s) ↔
      Roomy s ∧ Runs.Guarded (step shard client) RoomLeft events s := by
  induction events generalizing s with
  | nil => exact ⟨fun h => ⟨h, Runs.guarded_nil⟩, fun h => h.1⟩
  | cons e events ih =>
      have hnext := ih (s := step shard client s e) (step_cancelled hcancelled e) (hsound.step e)
      rw [roomy_step hcancelled hsound e] at hnext
      rw [Runs.guarded_cons, ← and_assoc]
      exact hnext

/-! ## The way to the end -/

/-- The polls before a task at most, from where it is in its loop. -/
def Turn.left : Turn → Nat
  | .selecting => 2
  | .sending => 3
  | .handing => 3

/-- And from where it is altogether, connected or not. -/
def left (connected : Bool) (turn : Turn) : Stage (EncryptedConnection W T) → Nat
  | .connecting _ => if connected then 3 else 1
  | .looping _ => Turn.left turn
  | .closing _ => 1
  | .ended => 0

/-- The polls before a task, and before those who wait for room in its channel. -/
def leftOf (s : Managing W T) (k : Nat) : Nat :=
  (s.manager.tasks[k]?).elim 0 (fun t => left (s.inserting k).isSome (s.turns k) t.stage) +
    (s.outgoing k).waiting.length

def work (s : Managing W T) : Nat := ∑ k ∈ Finset.range s.manager.tasks.length, s.leftOf k

/-- The callers that wait for room. -/
def waiting (s : Managing W T) : Nat :=
  ∑ k ∈ Finset.range s.manager.tasks.length, (s.outgoing k).waiting.length

theorem leftOf_eq {k : Nat} {t : Spawned (EncryptedConnection W T)}
    (h : s.manager.tasks[k]? = some t) :
    s.leftOf k = left (s.inserting k).isSome (s.turns k) t.stage +
      (s.outgoing k).waiting.length := by
  rw [leftOf, h]
  rfl

theorem turn?_eq_some {k : Nat} {turn : Turn} :
    s.turn? k = some turn ↔
      ∃ fp conn, s.manager.tasks[k]? = some ⟨fp, .looping conn⟩ ∧ s.turns k = turn := by
  rw [turn?]
  split
  · next fp conn htask =>
      constructor
      · intro hturn
        exact ⟨fp, conn, htask, Option.some.inj hturn⟩
      · rintro ⟨-, -, -, hturn⟩
        exact congrArg some hturn
  · next hother =>
      constructor
      · intro hturn
        cases hturn
      · rintro ⟨fp, conn, htask, -⟩
        exact absurd htask (hother fp conn)

/-- One task comes nearer its end, or somebody who waits for it, and the others
are where they were. -/
theorem work_lt {s s' : Managing W T} {k : Nat} (hk : k < s.manager.tasks.length)
    (hlength : s'.manager.tasks.length = s.manager.tasks.length) (hless : s'.leftOf k < s.leftOf k)
    (hothers : ∀ j, j ≠ k → s'.leftOf j = s.leftOf j) : s'.work < s.work := by
  rw [work, work, hlength]
  refine Finset.sum_lt_sum ?_ ⟨k, Finset.mem_range.mpr hk, hless⟩
  intro j _
  by_cases hj : j = k
  · subst hj
    exact Nat.le_of_lt hless
  · exact Nat.le_of_eq (hothers j hj)

/-- A task goes from one stage to another. -/
theorem work_lt_of_set {s s' : Managing W T} {k : Nat} {fp : Fingerprint}
    {before after : Stage (EncryptedConnection W T)}
    (hbefore : s.manager.tasks[k]? = some ⟨fp, before⟩)
    (htasks : s'.manager.tasks = s.manager.tasks.set k ⟨fp, after⟩)
    (hturns : ∀ j, j ≠ k → s'.turns j = s.turns j)
    (hinserting : ∀ j, j ≠ k → s'.inserting j = s.inserting j)
    (houtgoing : s'.outgoing = s.outgoing)
    (hless : left (s'.inserting k).isSome (s'.turns k) after <
      left (s.inserting k).isSome (s.turns k) before) : s'.work < s.work := by
  have hk : k < s.manager.tasks.length := (List.getElem?_eq_some_iff.mp hbefore).1
  have hafter : s'.manager.tasks[k]? = some ⟨fp, after⟩ := by rw [htasks, List.getElem?_set_self hk]
  refine work_lt hk (by rw [htasks, List.length_set]) ?_ ?_
  · rw [leftOf_eq hafter, leftOf_eq hbefore, houtgoing]
    exact Nat.add_lt_add_right hless _
  · intro j hj
    rw [leftOf, leftOf, htasks, List.getElem?_set_ne (Ne.symm hj), hturns j hj, hinserting j hj,
      houtgoing]

/-- A task that leaves its loop. -/
theorem leave_less {k : Nat} {turn : Turn} (hturn : s.turn? k = some turn) :
    (s.manages client (.leave k)).work < s.work := by
  obtain ⟨fp, conn, htask, rfl⟩ := turn?_eq_some.mp hturn
  have hstep : (s.manages client (.leave k)).manager = s.manager.setStage k fp (.closing conn) := by
    rw [manages]
    dsimp only
    rw [ConnectionManager.step, htask]
  refine work_lt_of_set htask (congrArg ConnectionManager.tasks hstep) (fun _ _ => rfl)
    (fun _ _ => rfl) rfl ?_
  show 1 < Turn.left (s.turns k)
  cases s.turns k with
  | selecting => exact Nat.lt_succ_self 1
  | sending => exact Nat.lt_of_sub_eq_succ rfl
  | handing => exact Nat.lt_of_sub_eq_succ rfl

/-- A send that returns leads back to the select, or out of the loop. -/
theorem returned_less {k : Nat} {turn : Turn} (hturn : s.turn? k = some turn)
    (hsend : Turn.left .selecting < Turn.left turn) (ok : Bool) :
    (s.returned client k ok).work < s.work := by
  rw [returned]
  split
  · obtain ⟨fp, conn, htask, rfl⟩ := turn?_eq_some.mp hturn
    have hk : k < s.manager.tasks.length := (List.getElem?_eq_some_iff.mp htask).1
    have hsame : (s.goTo k .selecting).manager.tasks[k]? = some ⟨fp, .looping conn⟩ := htask
    refine work_lt hk rfl ?_ ?_
    · rw [leftOf_eq hsame, leftOf_eq htask, goTo]
      dsimp only
      rw [Function.update_self]
      exact Nat.add_lt_add_right hsend _
    · intro j hj
      rw [leftOf, leftOf, goTo]
      dsimp only
      rw [Function.update_of_ne hj]
  · exact leave_less hturn

theorem dialed_less (hcancelled : s.cancelled = true) {k : Nat} {fp : Fingerprint} {info : PeerInfo}
    (htask : s.manager.tasks[k]? = some ⟨fp, .connecting info⟩) (hnone : s.inserting k = none)
    (a : Attempt W) : (step shard client s (.manages (.dialed k a))).work < s.work := by
  have hstep : step shard client s (.manages (.dialed k a))
      = s.manages client (.dialed k a.cancel) := by
    rw [step, manage, if_pos hcancelled, dialed, hnone, not_connects client s k rfl]
    rfl
  have hmanager : (s.manages client (.dialed k a.cancel)).manager
      = s.manager.setStage k fp .ended := by
    rw [manages]
    dsimp only
    rw [ConnectionManager.step, htask]
    dsimp only
    rw [ConnectionManager.establish]
    split
    · rfl
    · next rx _ =>
        have hinterrupt : a.cancel.interrupt = some .cancelled := rfl
        obtain ⟨e, he⟩ := connect_cancelled client hinterrupt info.ipAddress info.tcpPort fp rx
        rw [dialer, he]
  rw [hstep]
  refine work_lt_of_set htask (congrArg ConnectionManager.tasks hmanager) (fun _ _ => rfl)
    (fun _ _ => rfl) rfl ?_
  show 0 < left (s.inserting k).isSome (s.turns k) (.connecting info)
  rw [hnone]
  exact Nat.zero_lt_one

/-- A task that is connected gets into its loop, or ends. -/
theorem inserted_less {k : Nat} {fp : Fingerprint} {info : PeerInfo} {a : Attempt W}
    (htask : s.manager.tasks[k]? = some ⟨fp, .connecting info⟩) (hsome : s.inserting k = some a)
    (hfree : s.locked shard fp = false) : (step shard client s (.inserted k)).work < s.work := by
  have hstep : step shard client s (.inserted k) =
      { s with
        manager := s.manager.step (dialer client) (.dialed k a)
        inserting := Function.update s.inserting k none
        turns := Function.update s.turns k .selecting } := by
    rw [step, insert, htask, hsome]
    dsimp only
    rw [hfree]
    rfl
  have hset : ∃ after : Stage (EncryptedConnection W T),
      (s.manager.step (dialer client) (.dialed k a)).tasks = s.manager.tasks.set k ⟨fp, after⟩ ∧
        left false .selecting after < 3 := by
    rw [ConnectionManager.step, htask]
    dsimp only
    rw [ConnectionManager.establish]
    split
    · exact ⟨.ended, rfl, Nat.zero_lt_succ 2⟩
    · split
      · exact ⟨.ended, rfl, Nat.zero_lt_succ 2⟩
      · next conn _ => exact ⟨.looping conn, rfl, Nat.lt_succ_self 2⟩
  obtain ⟨after, htasks, hless⟩ := hset
  rw [hstep]
  refine work_lt_of_set htask htasks ?_ ?_ rfl ?_
  · intro j hj
    exact Function.update_of_ne hj _ _
  · intro j hj
    exact Function.update_of_ne hj _ _
  · dsimp only
    rw [Function.update_self, Function.update_self, hsome]
    exact hless

theorem finish_less {k : Nat} {fp : Fingerprint} {conn : EncryptedConnection W T}
    (htask : s.manager.tasks[k]? = some ⟨fp, .closing conn⟩) (hfree : s.locked shard fp = false) :
    (step shard client s (.manages (.finish k))).work < s.work := by
  have hstep : step shard client s (.manages (.finish k)) = s.manages client (.finish k) := by
    rw [step, manage, htask]
    dsimp only
    rw [hfree]
    rfl
  have hmanager : (s.manages client (.finish k)).manager
      = (s.manager.disconnect fp).setStage k fp .ended := by
    rw [manages]
    dsimp only
    rw [ConnectionManager.step, htask]
  rw [hstep]
  exact work_lt_of_set htask (congrArg ConnectionManager.tasks hmanager) (fun _ _ => rfl)
    (fun _ _ => rfl) rfl Nat.zero_lt_one

/-- A caller that gets its slot. -/
theorem wake_less (hsound : Sound s) {k : Nat} (hgoes : (s.outgoing k).resume ≠ s.outgoing k) :
    (step shard client s (.wake k)).work < s.work := by
  have hfewer : (s.outgoing k).resume.waiting.length < (s.outgoing k).waiting.length := by
    rcases (s.outgoing k).resume_cases with hsame | ⟨hless, -⟩
    · exact absurd hsame hgoes
    · omega
  have hwaiting : (s.outgoing k).waiting ≠ [] := by
    intro hnone
    rw [hnone] at hfewer
    exact Nat.not_lt_zero _ hfewer
  have hopen : s.closed k = false := by
    refine eq_false_of_ne_true fun hclosed => hwaiting ?_
    exact hsound.waiting_of_closed hclosed
  have hstep : step shard client s (.wake k) = s.setChannel k (s.outgoing k).resume := by
    rw [step, wake, hopen]
    rfl
  obtain ⟨fp, conn, stage, htask, -⟩ := hsound.held k hwaiting
  have hk : k < s.manager.tasks.length := (List.getElem?_eq_some_iff.mp htask).1
  have hsame : (s.setChannel k (s.outgoing k).resume).manager.tasks[k]? = some ⟨fp, stage⟩ := htask
  rw [hstep]
  refine work_lt hk rfl ?_ ?_
  · rw [leftOf_eq hsame, leftOf_eq htask, setChannel]
    dsimp only
    rw [Function.update_self]
    exact Nat.add_lt_add_left hfewer _
  · intro j hj
    rw [leftOf, leftOf, setChannel]
    dsimp only
    rw [Function.update_of_ne hj]

theorem setChannel_self (s : Managing W T) (k : Nat) : s.setChannel k (s.outgoing k) = s := by
  rw [setChannel, Function.update_eq_self]

/-- A poll changes nothing, or there is one less to come. -/
theorem effective_less (hcancelled : s.cancelled = true) (hsound : Sound s)
    (h : Effective shard client s e) : (step shard client s e).work < s.work := by
  obtain ⟨hpoll, hchanged⟩ := h
  cases e with
  | turn k ready =>
      rw [step] at hchanged ⊢
      split at hchanged
      · next hturn =>
          rw [if_pos hturn, select, if_pos hcancelled]
          exact leave_less hturn
      · exact absurd rfl hchanged
  | sent k ok =>
      rw [step] at hchanged ⊢
      split at hchanged
      · next hturn =>
          rw [if_pos hturn]
          exact returned_less hturn (Nat.lt_succ_self 2) ok
      · exact absurd rfl hchanged
  | handed k ok =>
      rw [step] at hchanged ⊢
      split at hchanged
      · next hturn =>
          rw [if_pos hturn]
          exact returned_less hturn (Nat.lt_succ_self 2) ok
      · exact absurd rfl hchanged
  | wake k =>
      refine wake_less hsound fun hsame => hchanged ?_
      rw [step, wake]
      split
      · next hclosed =>
          have hnone : { s.outgoing k with waiting := [] } = s.outgoing k := by
            rw [← hsound.waiting_of_closed hclosed]
          rw [hnone, setChannel_self]
      · rw [hsame, setChannel_self]
  | inserted k =>
      rw [step, insert] at hchanged
      split at hchanged
      · next fp info a htask hsome =>
          split at hchanged
          · exact absurd rfl hchanged
          · next hlocked => exact inserted_less htask hsome (eq_false_of_ne_true hlocked)
      · exact absurd rfl hchanged
  | sendTo fp message => exact hpoll.elim
  | shutdown => exact hpoll.elim
  | manages e =>
      cases e with
      | dialed k a =>
          cases hnone : s.inserting k with
          | some a' =>
              refine absurd ?_ hchanged
              rw [step, manage, dialed, hnone]
              rfl
          | none =>
              by_cases hconnecting : ∃ fp info, s.manager.tasks[k]? = some ⟨fp, .connecting info⟩
              · obtain ⟨fp, info, htask⟩ := hconnecting
                exact dialed_less hcancelled htask hnone a
              · refine absurd ?_ hchanged
                rw [step, manage, if_pos hcancelled, dialed, hnone, not_connects client s k rfl]
                show s.manages client (.dialed k a.cancel) = s
                rw [manages, ConnectionManager.step]
                split
                · next fp info htask => exact absurd ⟨fp, info, htask⟩ hconnecting
                · rfl
      | finish k =>
          rw [step, manage] at hchanged
          split at hchanged
          · next t htask =>
              split at hchanged
              · exact absurd rfl hchanged
              · next hlocked =>
                  obtain ⟨fp, stage⟩ := t
                  cases stage with
                  | closing conn => exact finish_less htask (eq_false_of_ne_true hlocked)
                  | _ =>
                      refine absurd ?_ hchanged
                      rw [manages, ConnectionManager.step, htask]
          · exact absurd rfl hchanged
      | _ => exact hpoll.elim

theorem work_le (s : Managing W T) : s.work ≤ 3 * s.manager.tasks.length + s.waiting := by
  have heach : ∀ k ∈ Finset.range s.manager.tasks.length,
      s.leftOf k ≤ 3 + (s.outgoing k).waiting.length := by
    intro k hk
    have htask := List.getElem?_eq_getElem (Finset.mem_range.mp hk)
    rw [leftOf_eq htask]
    refine Nat.add_le_add_right ?_ _
    generalize (s.manager.tasks.get ⟨k, Finset.mem_range.mp hk⟩).stage = stage
    cases stage with
    | connecting info =>
        rw [left]
        split
        · exact Nat.le_refl 3
        · exact Nat.succ_le_succ (Nat.zero_le 2)
    | looping conn =>
        show Turn.left (s.turns k) ≤ 3
        cases s.turns k with
        | selecting => exact Nat.le_succ 2
        | sending => exact Nat.le_refl 3
        | handing => exact Nat.le_refl 3
    | closing conn => exact Nat.succ_le_succ (Nat.zero_le 2)
    | ended => exact Nat.zero_le 3
  have hsum := Finset.sum_le_sum heach
  rw [Finset.sum_add_distrib, Finset.sum_const_nat fun _ _ => rfl, Finset.card_range,
    Nat.mul_comm] at hsum
  exact hsum

/-! ## Where no poll gets on -/

/-- Every task has ended, with it its entry, and nobody waits. -/
structure Ended (s : Managing W T) : Prop where
  tasks : ∀ t ∈ s.manager.tasks, t.stage = .ended
  active : s.manager.active = []
  waiting : ∀ k, (s.outgoing k).waiting = []

theorem Ended.roomy (h : Ended s) : Roomy s := by
  intro k
  rw [Channel.pending, h.waiting k]
  exact (s.outgoing k).bounded

/-- A task that a poll would bring nearer its end. -/
theorem Stuck.not_less (h : Stuck shard client s) (hpoll : IsPoll e) :
    ¬ (step shard client s e).work < s.work := by
  intro hless
  refine h e ⟨hpoll, fun hsame => ?_⟩
  rw [hsame] at hless
  exact Nat.lt_irrefl _ hless

/-- Who waits is polled, and there is room. -/
theorem Stuck.waiting (h : Stuck shard client s) (hsound : Sound s) (hroomy : Roomy s) (k : Nat) :
    (s.outgoing k).waiting = [] := by
  by_contra hwaiting
  have hsome := List.length_pos_iff.mpr hwaiting
  have hroom : (s.outgoing k).queue.length < outgoingBufferSize := by
    have hpending := hroomy k
    rw [Channel.pending] at hpending
    omega
  have hgoes : (s.outgoing k).resume ≠ s.outgoing k := fun hsame =>
    hwaiting (Channel.waiting_of_resume hsame hroom)
  exact h.not_less (e := .wake k) trivial (wake_less hsound hgoes)

/-- A task that is in its loop is brought nearer its end. -/
theorem Stuck.not_looping (h : Stuck shard client s) (hcancelled : s.cancelled = true) {k : Nat}
    {fp : Fingerprint} {conn : EncryptedConnection W T} :
    s.manager.tasks[k]? ≠ some ⟨fp, .looping conn⟩ := by
  intro hk
  have hturn : s.turn? k = some (s.turns k) := turn?_eq_some.mpr ⟨fp, conn, hk, rfl⟩
  cases hwhere : s.turns k with
  | selecting =>
      rw [hwhere] at hturn
      refine h.not_less (e := .turn k .nothing) trivial ?_
      rw [step, if_pos hturn, select, if_pos hcancelled]
      exact leave_less hturn
  | sending =>
      rw [hwhere] at hturn
      refine h.not_less (e := .sent k true) trivial ?_
      rw [step, if_pos hturn]
      exact returned_less hturn (Nat.lt_succ_self 2) true
  | handing =>
      rw [hwhere] at hturn
      refine h.not_less (e := .handed k true) trivial ?_
      rw [step, if_pos hturn]
      exact returned_less hturn (Nat.lt_succ_self 2) true

/-- Without a guard in the way, so is every task that has not ended. -/
theorem Stuck.ended (h : Stuck shard client s) (hcancelled : s.cancelled = true)
    (hfree : ∀ fp, s.locked shard fp = false) (a : Attempt W) :
    ∀ t ∈ s.manager.tasks, t.stage = .ended := by
  intro t ht
  obtain ⟨k, hk⟩ := List.getElem?_of_mem ht
  obtain ⟨fp, stage⟩ := t
  cases stage with
  | connecting info =>
      cases hinserting : s.inserting k with
      | none =>
          exact absurd (dialed_less hcancelled hk hinserting a)
            (h.not_less (e := .manages (.dialed k a)) trivial)
      | some a' =>
          exact absurd (inserted_less hk hinserting (hfree fp))
            (h.not_less (e := .inserted k) trivial)
  | looping conn => exact absurd hk (h.not_looping hcancelled)
  | closing conn =>
      exact absurd (finish_less hk (hfree fp)) (h.not_less (e := .manages (.finish k)) trivial)
  | ended => rfl

/-- Where nobody waits, all of it has ended. -/
theorem Stuck.ended_of_waiting (h : Stuck shard client s) (hcancelled : s.cancelled = true)
    (hsound : Sound s) (a : Attempt W) (hwaiting : ∀ k, (s.outgoing k).waiting = []) :
    Ended s := by
  have htasks := h.ended hcancelled (not_locked hwaiting) a
  refine ⟨htasks, List.eq_nil_iff_forall_not_mem.mpr ?_, hwaiting⟩
  intro handle hmem
  obtain ⟨conn, stage, htask, hconn⟩ := hsound.owned handle hmem
  have hstage := htasks _ (List.mem_of_getElem? htask)
  dsimp only at hstage
  rw [hstage] at hconn
  cases hconn

theorem Stuck.ended_iff (h : Stuck shard client s) (hcancelled : s.cancelled = true)
    (hsound : Sound s) (a : Attempt W) : Ended s ↔ Roomy s :=
  ⟨Ended.roomy, fun hroomy => h.ended_of_waiting hcancelled hsound a (h.waiting hsound hroomy)⟩

/-- A task is out of its loop, with its entry still to be removed, and there are
callers that hold the entry until that task takes what they send. -/
def Crossed (s : Managing W T) : Prop :=
  ∃ k fp conn, s.manager.tasks[k]? = some ⟨fp, .closing conn⟩ ∧ (s.outgoing k).waiting ≠ []

/-- Where it has not ended, a task and its callers wait for each other. -/
theorem Stuck.crossed (h : Stuck shard client s) (hcancelled : s.cancelled = true)
    (hsound : Sound s) (a : Attempt W) (hopen : ¬ Ended s) : Crossed s := by
  have hwaits : ∃ k, (s.outgoing k).waiting ≠ [] := by
    by_contra hnone
    refine hopen (h.ended_of_waiting hcancelled hsound a fun k => ?_)
    exact not_not.mp (not_exists.mp hnone k)
  obtain ⟨k, hwaiting⟩ := hwaits
  obtain ⟨fp, conn, stage, htask, hconn⟩ := hsound.held k hwaiting
  cases stage with
  | connecting info => cases hconn
  | looping conn' => exact absurd htask (h.not_looping hcancelled)
  | closing conn' => exact ⟨k, fp, conn', htask, hwaiting⟩
  | ended => cases hconn

end

/-- What follows on a shutdown, whatever else is called: nothing is connected
and nobody forgotten any more; the tasks and the callers there are end after
three polls of each task and one of each caller at most; they can always be
polled so far; and where no poll gets on any more, all of it has ended if and
only if there was room at the shutdown, and left for all who sent behind it.
Else a task and its callers wait for each other. -/
structure WindsDown (shard : Fingerprint → Nat) (client : TcpClient S T) (s : Managing W T) :
    Prop where
  closed : ∀ after, Closed s (Runs.run (step shard client) after s)
  bounded : ∀ polls, Runs.Guarded (step shard client) (Effective shard client) polls s →
    polls.length ≤ 3 * s.manager.tasks.length + s.waiting
  ends : ∃ polls, Runs.Guarded (step shard client) (Effective shard client) polls s ∧
    Stuck shard client (Runs.run (step shard client) polls s)
  finished : ∀ (_ : Attempt W) (after : List (ManagingEvent W)),
    Stuck shard client (Runs.run (step shard client) after s) →
      (Ended (Runs.run (step shard client) after s) ↔
        Roomy s ∧ Runs.Guarded (step shard client) RoomLeft after s)
  crossed : ∀ (_ : Attempt W) (after : List (ManagingEvent W)),
    Stuck shard client (Runs.run (step shard client) after s) →
      ¬ Ended (Runs.run (step shard client) after s) →
        Crossed (Runs.run (step shard client) after s)

/-- A shutdown of a manager winds it down, behind whatever run. -/
theorem winds_down (shard : Fingerprint → Nat) (client : TcpClient S T)
    (events : List (ManagingEvent W)) :
    WindsDown shard client (Runs.run (step shard client) (events ++ [.shutdown]) new) := by
  have hcancelled :
      (Runs.run (step shard client) (events ++ [.shutdown]) new).cancelled = true := by
    rw [Runs.run_concat]
    rfl
  have hsound := run_sound shard client (events ++ [.shutdown])
  have hkeep : ∀ (s : Managing W T) e, s.cancelled = true ∧ Sound s → Effective shard client s e →
      (step shard client s e).cancelled = true ∧ Sound (step shard client s e) :=
    fun _ e h _ => ⟨step_cancelled h.1 e, h.2.step e⟩
  have hless : ∀ (s : Managing W T) e, s.cancelled = true ∧ Sound s → Effective shard client s e →
      (step shard client s e).work < s.work := fun _ _ h he => effective_less h.1 h.2 he
  have hclosed : ∀ after, Closed _ (Runs.run (step shard client) after _) := fun after =>
    (Runs.always_of_invariant (Closed.refl hcancelled) (fun _ e h => h.step e) after).last
  have hend : ∀ after, Sound (Runs.run (step shard client) after
      (Runs.run (step shard client) (events ++ [.shutdown]) new)) := by
    intro after
    rw [← Runs.run_append]
    exact run_sound shard client _
  refine ⟨hclosed, ?_, ?_, ?_, ?_⟩
  · intro polls hpolls
    have hlength := Runs.length_le_of_guarded ⟨hcancelled, hsound⟩ hkeep hless hpolls
    exact Nat.le_trans hlength (work_le _)
  · obtain ⟨polls, hpolls, -, hstuck⟩ :=
      Runs.exists_exhausted ⟨hcancelled, hsound⟩ hkeep hless
    exact ⟨polls, hpolls, hstuck⟩
  · intro a after hstuck
    rw [hstuck.ended_iff (hclosed after).cancelled (hend after) a]
    exact roomy_run hcancelled hsound after
  · intro a after hstuck
    exact hstuck.crossed (hclosed after).cancelled (hend after) a

/-! ## Alice and Bob -/

section
open Security.Idealized

def aliceClient : TcpClient Session Unit := ⟨crypto, snow, alice⟩

/-- Alice is connected to Bob. -/
def connectedToBob : List (ManagingEvent (List UInt8)) :=
  let attempt : Attempt (List UInt8) :=
    { tcp := some (.ok ())
      tryClone := .ok ()
      interrupt := none
      stream := env.stream
      clock := env.clock
      fillBytes := env.fillBytes
      world := (wire bob alice.x25519.pub (payloadOf bob 0)).toOption.getD [] }
  let bobInfo : PeerInfo := ⟨fingerprintOf bob, "bob", "10.0.0.2", 4000, some bob.x25519.pub, 0⟩
  let calls : List (ManagerEvent (Attempt (List UInt8))) :=
    [.addPeer bobInfo, .trustPeer (fingerprintOf bob), .connectToPeer (fingerprintOf bob)] ++
      List.replicate 4 (.advance 0) ++ [.dialed 0 attempt]
  calls.map .manages ++ [.inserted 0]

/-- Alice shuts down in the middle of a send to Bob: the send goes on, and what
Bob has sent since is not taken up any more. -/
example :
    let shut := Runs.run (step (fun _ => 0) aliceClient)
      (connectedToBob ++ [.sendTo (fingerprintOf bob) [1], .turn 0 .outgoing, .shutdown]) new
    shut.manager.active = [⟨fingerprintOf bob, 0⟩] ∧
      (Runs.run (step (fun _ => 0) aliceClient)
        [.sent 0 true, .turn 0 .received, .manages (.finish 0)] shut).manager.active = [] := by
  decide +kernel

/-- A message is being written to Bob when 65 others come, and the write fails. -/
def brokenSend : List (ManagingEvent (List UInt8)) :=
  connectedToBob ++ [.sendTo (fingerprintOf bob) [0], .turn 0 .outgoing] ++
    List.replicate (outgoingBufferSize + 1) (.sendTo (fingerprintOf bob) [1]) ++ [.sent 0 false]

/-- After four polls at most no other gets on: Bob's task and its caller wait for
each other. -/
theorem winds_down_brokenSend :
    ∃ polls, polls.length ≤ 4 ∧
      Stuck (fun _ => 0) aliceClient (Runs.run (step (fun _ => 0) aliceClient)
        (brokenSend ++ [.shutdown] ++ polls) new) ∧
      Crossed (Runs.run (step (fun _ => 0) aliceClient)
        (brokenSend ++ [.shutdown] ++ polls) new) := by
  have hdown := winds_down (fun _ => 0) aliceClient brokenSend
  obtain ⟨polls, hpolls, hstuck⟩ := hdown.ends
  have hbound := hdown.bounded polls hpolls
  have hfour : 3 * (Runs.run (step (fun _ => 0) aliceClient) (brokenSend ++ [.shutdown])
      new).manager.tasks.length + (Runs.run (step (fun _ => 0) aliceClient)
        (brokenSend ++ [.shutdown]) new).waiting = 4 := by
    decide +kernel
  have hfull : ¬ ((Runs.run (step (fun _ => 0) aliceClient) (brokenSend ++ [.shutdown])
      new).outgoing 0).pending ≤ outgoingBufferSize := by
    decide +kernel
  have hattempt : Attempt (List UInt8) :=
    ⟨none, .ok (), none, env.stream, env.clock, env.fillBytes, []⟩
  refine ⟨polls, hfour ▸ hbound, ?_, ?_⟩
  · rw [Runs.run_append]
    exact hstuck
  · rw [Runs.run_append]
    refine hdown.crossed hattempt polls hstuck fun hended => ?_
    exact hfull (((hdown.finished hattempt polls hstuck).mp hended).1 0)

end

end Managing
end Rubix.Networking
