/-
# `Rubix.Networking.Server` — the accept loop and its handshakes

`TcpServer::run` accepts connections until it is cancelled or `accept` fails.
Each gets a task of its own, which takes one of ten permits, performs the
responder's handshake, and asks the validator:

    spawned → entered → ended        `sem.acquire`, `handle_connection`

Cancelling ends the loop at its next turn, and every handshake at its next
poll; it does not wake those who wait for a permit.

At most ten handshakes are under way, nobody waits while a permit is free,
nobody is overtaken, and what is accepted has proved its identity and passed
the validator (`serving_limited`).  The tasks that are left end by themselves
(`shuts_down`), and none waits for longer than those in front of it take
(`enters_within`).
-/
import Rubix.Lib.Runs
import Rubix.Lib.Semaphore
import Rubix.Networking.Client

namespace Rubix.Networking

open Effect (Prog)
open Security (Clock Crypto Env IdentityKeys Interrupt Node NoiseHandshake Snow Stream
  VerifiedIdentity X25519PublicKey)

variable {W S T : Type}

/-- The errors of the server, beside those it shares with the client. -/
inductive ServerError where
  | acceptFailed (reason : String)
  | peerRejected (peer : String)
  | network (e : NetworkError)
  deriving DecidableEq

/-- TCP server that accepts encrypted peer connections. -/
structure TcpServer (S T : Type) where
  crypto : Crypto
  snow : Snow S T
  ourIdentity : IdentityKeys
  peerValidator : Option (VerifiedIdentity → Bool)

/-- A connection that comes in, and what its task meets.  The call of
`new_responder` names the server's keys only: the peer it is to expect and that
peer's key, which the constructor takes too, come with the connection. -/
structure Arrival (W : Type) where
  stream : Stream W
  remoteFingerprint : Fingerprint
  remoteX25519 : X25519PublicKey
  tryClone : Except String Unit
  clock : Clock W
  fillBytes : W → Vector UInt8 12 × W
  world : W

/-! ## One connection -/

namespace TcpServer

/-- What the handshake of a connection runs on. -/
def responderEnv (server : TcpServer S T) (a : Arrival W) : Env W S T where
  crypto := server.crypto
  snow := server.snow
  clock := a.clock
  stream := a.stream
  fillBytes := a.fillBytes

/-- A handshake that `new_responder` makes has a nonce cache of its own. -/
def node (a : Arrival W) : Node W := ⟨.new 10000, a.world⟩

/-- `handle_connection` -/
def handleConnection (server : TcpServer S T) (interrupt : Option Interrupt) (a : Arrival W) :
    Except ServerError (EncryptedConnection W T) :=
  match NoiseHandshake.newResponderWithCache server.snow server.ourIdentity a.remoteFingerprint
      a.remoteX25519 with
  | .error e => .error (.network (.handshakeFailed ("responder setup: " ++ e.toString)))
  | .ok h =>
      match a.tryClone with
      | .error e => .error (.network (.internal ("stream clone: " ++ e)))
      | .ok () =>
          match (Security.runResponderHandshake interrupt (server.responderEnv a) h
            (node a)).outcome with
          | .err e => .error (.network (.handshakeFailed e.toString))
          | .ok (transport, verified) =>
              if server.peerValidator.all fun validator => validator verified then
                .ok ⟨a.stream, transport, verified.fingerprint⟩
              else .error (.peerRejected verified.fingerprint.toFormattedString)

end TcpServer

/-- The connection is the one that came in, and has its transport from a
responder handshake on that stream; the payload that this handshake delivered is
signed by the identity the connection is named after, which passed the
validator. -/
structure Admitted (server : TcpServer S T) (a : Arrival W) (conn : EncryptedConnection W T) :
    Prop where
  stream : conn.stream = a.stream
  verified : ∃ v : VerifiedIdentity, conn.peerFingerprint = v.fingerprint ∧
    (Security.handshake .responder (server.responderEnv a) server.ourIdentity a.remoteFingerprint
      a.remoteX25519 (TcpServer.node a)).outcome = .ok (conn.transport, v) ∧
    (∃ d, (Security.deliver .responder (server.responderEnv a) server.ourIdentity
        a.remoteFingerprint a.remoteX25519 (TcpServer.node a)).outcome = .ok d ∧
      Security.Signed server.crypto d.1 v) ∧
    ∀ validator, server.peerValidator = some validator → validator v = true

theorem TcpServer.handleConnection_ok {server : TcpServer S T} {interrupt : Option Interrupt}
    {a : Arrival W} {conn : EncryptedConnection W T}
    (h : server.handleConnection interrupt a = .ok conn) :
    interrupt = none ∧ Admitted server a conn := by
  rw [handleConnection] at h
  split at h
  · cases h
  · next hs hconstruct =>
      split at h
      · cases h
      · split at h
        · cases h
        · next transport v hrun =>
            split at h
            · next hpasses =>
                cases h
                cases interrupt with
                | some i => cases hrun
                | none =>
                    have hhandshake : (Security.handshake .responder (server.responderEnv a)
                        server.ourIdentity a.remoteFingerprint a.remoteX25519 (node a)).outcome
                          = .ok (transport, v) := by
                      have hconstructed : Security.construct .responder (server.responderEnv a).snow
                          server.ourIdentity a.remoteFingerprint a.remoteX25519 = .ok hs :=
                        hconstruct
                      rw [Security.handshake, hconstructed, Effect.Prog.orFail_ok]
                      exact hrun
                    obtain ⟨-, hsigned⟩ := Security.handshake_authentic hhandshake
                    refine ⟨rfl, rfl, v, rfl, hhandshake, hsigned, ?_⟩
                    intro validator hvalidator
                    rw [hvalidator] at hpasses
                    exact hpasses
            · cases h

/-! ## The loop and its tasks -/

inductive Handling (W T : Type) where
  | spawned
  | entered
  | ended (result : Except ServerError (EncryptedConnection W T))

/-- The server: what the loop has returned, and a task a connection. -/
structure Serving (W T : Type) where
  cancelled : Bool
  returned : Option (Except ServerError Unit)
  tasks : List (Arrival W × Handling W T)
  handshakes : Semaphore Nat 10

inductive ServerEvent (W : Type) where
  | cancel
  /-- A turn of the accept loop. -/
  | turn (incoming : Option (Except String (Arrival W)))
  /-- The first poll of a task. -/
  | enter (i : Nat)
  /-- A poll of a task with a permit that finds the handshake through, or its
  time over. -/
  | settle (i : Nat) (timeout : Bool)

/-- A poll of a task. -/
def ServerEvent.IsPoll : ServerEvent W → Prop
  | .cancel | .turn _ => False
  | .enter _ | .settle _ _ => True

/-- The polls that a task has left. -/
def Handling.left : Handling W T → Nat
  | .spawned => 2
  | .entered => 1
  | .ended _ => 0

namespace Serving

/-- A server that has bound its address. -/
def listening : Serving W T := ⟨false, none, [], .new⟩

/-- What a handshake that is polled finds. -/
def interrupt (s : Serving W T) (timeout : Bool) : Option Interrupt :=
  if s.cancelled then some .cancelled else if timeout then some .timeout else none

/-- An event, at a reading of the clock. -/
def step (server : TcpServer S T) (s : Serving W T) (e : Nat × ServerEvent W) :
    Serving W T :=
  match e.2 with
  | .cancel => { s with cancelled := true }
  | .turn incoming =>
      if s.returned.isSome then s
      else if s.cancelled then { s with returned := some (.ok ()) }
      else
        match incoming with
        | none => s
        | some (.error reason) => { s with returned := some (.error (.acceptFailed reason)) }
        | some (.ok a) => { s with tasks := s.tasks ++ [(a, .spawned)] }
  | .enter i =>
      match s.tasks[i]? with
      | some (a, .spawned) =>
          { s with
            tasks := s.tasks.set i (a, .entered)
            handshakes := s.handshakes.acquire i e.1 }
      | _ => s
  | .settle i timeout =>
      match s.tasks[i]? with
      | some (a, .entered) =>
          if s.handshakes.Holds i then
            { s with
              tasks := s.tasks.set i (a, .ended (server.handleConnection (s.interrupt timeout) a))
              handshakes := s.handshakes.release i e.1 }
          else s
      | _ => s

/-- What a step does to the tasks. -/
inductive Moves (server : TcpServer S T) (s s' : Serving W T) (now : Nat) : Prop
  | idle : s'.tasks = s.tasks → s'.handshakes = s.handshakes → Moves server s s' now
  | spawns (a : Arrival W) : s.returned = none → s.cancelled = false →
      s'.tasks = s.tasks ++ [(a, .spawned)] → s'.handshakes = s.handshakes → Moves server s s' now
  | enters (i : Nat) (a : Arrival W) : s.tasks[i]? = some (a, .spawned) →
      s'.tasks = s.tasks.set i (a, .entered) → s'.handshakes = s.handshakes.acquire i now →
      Moves server s s' now
  | settles (i : Nat) (a : Arrival W) (timeout : Bool) : s.tasks[i]? = some (a, .entered) →
      s.handshakes.Holds i →
      s'.tasks = s.tasks.set i (a, .ended (server.handleConnection (s.interrupt timeout) a)) →
      s'.handshakes = s.handshakes.release i now → Moves server s s' now

theorem step_moves (server : TcpServer S T) (s : Serving W T) (e : Nat × ServerEvent W) :
    Moves server s (step server s e) e.1 := by
  obtain ⟨now, e⟩ := e
  cases e with
  | cancel => exact .idle rfl rfl
  | turn incoming =>
      simp only [step]
      split
      · exact .idle rfl rfl
      · next hloop =>
          split
          · exact .idle rfl rfl
          · next hcancelled =>
              split
              · exact .idle rfl rfl
              · exact .idle rfl rfl
              · exact .spawns _ (by simpa using hloop) (by simpa using hcancelled) rfl rfl
  | enter i =>
      simp only [step]
      split
      · next a htask => exact .enters i a htask rfl rfl
      · exact .idle rfl rfl
  | settle i timeout =>
      simp only [step]
      split
      · next a htask =>
          split
          · next hholds => exact .settles i a timeout htask hholds rfl rfl
          · exact .idle rfl rfl
      · exact .idle rfl rfl

/-! ## Permits and tasks -/

/-- The tasks that have polled `acquire` and have not ended are those at the
semaphore, and each has polled it once. -/
structure Sound (server : TcpServer S T) (s : Serving W T) : Prop where
  distinct : s.handshakes.present.Nodup
  entered : ∀ i, i ∈ s.handshakes.present ↔ ∃ a, s.tasks[i]? = some (a, Handling.entered)
  once : s.handshakes.line.Nodup
  asked : ∀ i ∈ s.handshakes.line, ∃ p, s.tasks[i]? = some p ∧ ∀ a, p ≠ (a, Handling.spawned)
  ended : ∀ (i : Nat) a r, s.tasks[i]? = some (a, Handling.ended r) →
    ∃ interrupt, r = server.handleConnection interrupt a

section
variable {server : TcpServer S T} {s s' : Serving W T} {now : Nat}

theorem sound_listening : Sound server (listening : Serving W T) where
  distinct := List.nodup_nil
  entered i := by
    show i ∈ ([] : List Nat) ↔
      ∃ a, ([] : List (Arrival W × Handling W T))[i]? = some (a, .entered)
    simp
  once := List.nodup_nil
  asked i h := absurd h List.not_mem_nil
  ended i a r h := by cases h

/-- The task that moves, and the others. -/
theorem task_set {i : Nat} {p q : Arrival W × Handling W T} (h : s.tasks[i]? = some p) (j : Nat) :
    (s.tasks.set i q)[j]? = if j = i then some q else s.tasks[j]? := by
  obtain ⟨hlt, -⟩ := List.getElem?_eq_some_iff.mp h
  rw [List.getElem?_set]
  by_cases hj : i = j
  · subst hj
    rw [if_pos rfl, if_pos rfl, if_pos hlt]
  · rw [if_neg hj, if_neg (Ne.symm hj)]

theorem Sound.spawn (h : Sound server s) {a : Arrival W}
    (htasks : s'.tasks = s.tasks ++ [(a, .spawned)]) (hsem : s'.handshakes = s.handshakes) :
    Sound server s' := by
  have hold : ∀ (i : Nat) p, s'.tasks[i]? = some p → s.tasks[i]? = some p ∨ p = (a, .spawned) := by
    intro i p hp
    rw [htasks] at hp
    rcases Nat.lt_trichotomy i s.tasks.length with hlt | rfl | hgt
    · rw [List.getElem?_append_left hlt] at hp
      exact .inl hp
    · rw [List.getElem?_concat_length] at hp
      cases hp
      exact .inr rfl
    · rw [List.getElem?_eq_none (by rw [List.length_append]; exact hgt)] at hp
      cases hp
  have hkeep : ∀ (i : Nat) p, s.tasks[i]? = some p → s'.tasks[i]? = some p := by
    intro i p hp
    rw [htasks, List.getElem?_append_left (List.getElem?_eq_some_iff.mp hp).1]
    exact hp
  refine ⟨hsem ▸ h.distinct, fun i => ?_, hsem ▸ h.once, fun i hi => ?_, fun i a' r hr => ?_⟩
  · rw [hsem, h.entered i]
    constructor
    · rintro ⟨a', ha'⟩
      exact ⟨a', hkeep i _ ha'⟩
    · rintro ⟨a', ha'⟩
      exact ⟨a', (hold i _ ha').resolve_right fun heq => nomatch heq⟩
  · rw [hsem] at hi
    obtain ⟨p, hp, hasked⟩ := h.asked i hi
    exact ⟨p, hkeep i p hp, hasked⟩
  · exact h.ended i a' r ((hold i _ hr).resolve_right fun heq => nomatch heq)

theorem Sound.enter (h : Sound server s) {i : Nat} {a : Arrival W}
    (htask : s.tasks[i]? = some (a, .spawned)) (htasks : s'.tasks = s.tasks.set i (a, .entered))
    (hsem : s'.handshakes = s.handshakes.acquire i now) : Sound server s' := by
  have hpresent := s.handshakes.present_acquire i now
  have hline := s.handshakes.line_acquire i now
  have hnew : i ∉ s.handshakes.present := by
    intro hi
    obtain ⟨a', ha'⟩ := (h.entered i).mp hi
    rw [htask] at ha'
    cases ha'
  have hnew' : i ∉ s.handshakes.line := by
    intro hi
    obtain ⟨p, hp, hasked⟩ := h.asked i hi
    rw [htask] at hp
    cases hp
    exact hasked a rfl
  rw [← hsem] at hpresent hline
  refine ⟨?_, fun j => ?_, ?_, fun j hj => ?_, fun j a' r hr => ?_⟩
  · rw [hpresent.nodup_iff]
    exact List.nodup_cons.mpr ⟨hnew, h.distinct⟩
  · rw [hpresent.mem_iff, List.mem_cons, h.entered j, htasks, task_set htask]
    by_cases hj : j = i
    · rw [if_pos hj]
      exact iff_of_true (.inl hj) ⟨a, rfl⟩
    · rw [if_neg hj]
      exact or_iff_right hj
  · rw [hline]
    refine List.nodup_append'.mpr ⟨h.once, List.nodup_singleton i, ?_⟩
    exact List.disjoint_singleton.mpr hnew'
  · rw [hline] at hj
    rw [htasks, task_set htask]
    by_cases hji : j = i
    · rw [if_pos hji]
      exact ⟨_, rfl, fun _ heq => nomatch heq⟩
    · rw [if_neg hji]
      refine h.asked j ((List.mem_append.mp hj).resolve_right fun hj' => ?_)
      exact hji (List.mem_singleton.mp hj')
  · rw [htasks, task_set htask] at hr
    split at hr
    · cases hr
    · exact h.ended j a' r hr

theorem Sound.settle (h : Sound server s) {i : Nat} {a : Arrival W} {timeout : Bool}
    (htask : s.tasks[i]? = some (a, .entered)) (hholds : s.handshakes.Holds i)
    (htasks : s'.tasks =
      s.tasks.set i (a, .ended (server.handleConnection (s.interrupt timeout) a)))
    (hsem : s'.handshakes = s.handshakes.release i now) : Sound server s' := by
  have hpresent := Semaphore.present_release hholds now
  have hline := s.handshakes.line_release i now
  rw [← hsem] at hpresent hline
  have hdistinct := hpresent.nodup_iff.mp h.distinct
  refine ⟨(List.nodup_cons.mp hdistinct).2, fun j => ?_, hline ▸ h.once, fun j hj => ?_,
    fun j a' r hr => ?_⟩
  · rw [htasks, task_set htask]
    by_cases hj : j = i
    · rw [if_pos hj, hj]
      refine iff_of_false (List.nodup_cons.mp hdistinct).1 ?_
      rintro ⟨a', ha'⟩
      cases ha'
    · rw [if_neg hj, ← h.entered j, hpresent.mem_iff, List.mem_cons]
      exact (or_iff_right hj).symm
  · rw [hline] at hj
    rw [htasks, task_set htask]
    by_cases hji : j = i
    · rw [if_pos hji]
      exact ⟨_, rfl, fun _ heq => nomatch heq⟩
    · rw [if_neg hji]
      exact h.asked j hj
  · rw [htasks, task_set htask] at hr
    split at hr
    · cases hr
      exact ⟨_, rfl⟩
    · exact h.ended j a' r hr

theorem step_sound (h : Sound server s) (e : Nat × ServerEvent W) :
    Sound server (step server s e) := by
  cases step_moves server s e with
  | idle htasks hsem =>
      refine ⟨hsem ▸ h.distinct, fun i => ?_, hsem ▸ h.once, fun i hi => ?_, fun i a r hr => ?_⟩
      · rw [hsem, htasks]
        exact h.entered i
      · rw [htasks]
        exact h.asked i (hsem ▸ hi)
      · exact h.ended i a r (htasks ▸ hr)
  | spawns a _ _ htasks hsem => exact h.spawn htasks hsem
  | enters i a htask htasks hsem => exact h.enter htask htasks hsem
  | settles i a timeout htask hholds htasks hsem => exact h.settle htask hholds htasks hsem

theorem run_sound (server : TcpServer S T) (events : List (Nat × ServerEvent W)) :
    Sound server (Runs.run (step server) events listening) :=
  (Runs.always_of_invariant sound_listening (fun _ e h => step_sound h e) events).last

/-! ## At most ten at a time -/

/-- A task whose handshake is under way. -/
def Handshaking (s : Serving W T) (i : Nat) : Prop := s.handshakes.Holds i

/-- A task that has asked for a permit, and has none. -/
def Waits (s : Serving W T) (i : Nat) : Prop := i ∈ s.handshakes.waiting

instance (s : Serving W T) (i : Nat) : Decidable (s.Waits i) :=
  inferInstanceAs (Decidable (i ∈ s.handshakes.waiting))

/-- The limit on handshakes is kept and used, and nothing is accepted past the
checks. -/
structure Limited (server : TcpServer S T) (s : Serving W T) : Prop where
  limit : ∃ ids : List Nat, ids.Nodup ∧ ids.length ≤ 10 ∧ (∀ i, i ∈ ids ↔ s.Handshaking i) ∧
    ((∃ i, s.Waits i) → ids.length = 10)
  entered : ∀ i, (s.Handshaking i ∨ s.Waits i) ↔ ∃ a, s.tasks[i]? = some (a, Handling.entered)
  admitted : ∀ (i : Nat) a conn, s.tasks[i]? = some (a, Handling.ended (.ok conn)) →
    Admitted server a conn

theorem Sound.limited (h : Sound server s) : Limited server s where
  limit := by
    refine ⟨s.handshakes.holding.map Prod.fst, (List.nodup_append'.mp h.distinct).1, ?_,
      fun i => Iff.rfl, ?_⟩
    · rw [List.length_map]
      exact s.handshakes.bounded
    · rintro ⟨i, hi⟩
      rw [List.length_map]
      exact s.handshakes.busy (List.ne_nil_of_mem hi)
  entered i := by
    rw [← h.entered i, Semaphore.present, List.mem_append]
    exact Iff.rfl
  admitted i a conn hconn := by
    obtain ⟨interrupt, hr⟩ := h.ended i a _ hconn
    exact (TcpServer.handleConnection_ok hr.symm).2

theorem step_line (server : TcpServer S T) (s : Serving W T) (e : Nat × ServerEvent W) :
    s.handshakes.line <+: (step server s e).handshakes.line := by
  cases step_moves server s e with
  | idle _ hsem => exact ⟨[], by rw [List.append_nil, hsem]⟩
  | spawns a _ _ _ hsem => exact ⟨[], by rw [List.append_nil, hsem]⟩
  | enters i a _ _ hsem =>
      rw [hsem, Semaphore.line_acquire]
      exact List.prefix_append _ _
  | settles i a timeout _ _ _ hsem =>
      exact ⟨[], by rw [List.append_nil, hsem, Semaphore.line_release]⟩

theorem run_line (server : TcpServer S T) (events : List (Nat × ServerEvent W))
    (s : Serving W T) :
    s.handshakes.line <+: (Runs.run (step server) events s).handshakes.line := by
  induction events generalizing s with
  | nil => exact List.prefix_rfl
  | cons e events ih => exact (step_line server s e).trans (ih _)

/-- In every run at most ten handshakes are under way, nobody waits while there
are fewer, who has asked for a permit keeps its place in the line, and what is
accepted is verified. -/
theorem serving_limited (server : TcpServer S T) (events : List (Nat × ServerEvent W)) :
    ∀ before, before <+: events →
      Limited server (Runs.run (step server) before listening) ∧
        (Runs.run (step server) before listening).handshakes.line <+:
          (Runs.run (step server) events listening).handshakes.line := by
  rintro before ⟨after, rfl⟩
  refine ⟨(run_sound server before).limited, ?_⟩
  rw [Runs.run_append]
  exact run_line server after _

/-! ## Winding down -/

/-- A poll that changes something. -/
def Effective (server : TcpServer S T) (s : Serving W T) (e : Nat × ServerEvent W) : Prop :=
  e.2.IsPoll ∧ step server s e ≠ s

def work (s : Serving W T) : Nat := (s.tasks.map fun p => p.2.left).sum

theorem sum_set {α : Type} (f : α → Nat) {l : List α} {i : Nat} {p : α} (h : l[i]? = some p)
    (q : α) :
    ((l.set i q).map f).sum + f p = (l.map f).sum + f q := by
  induction l generalizing i with
  | nil => cases h
  | cons a l ih =>
      cases i with
      | zero =>
          cases h
          simp only [List.set_cons_zero, List.map_cons, List.sum_cons]
          omega
      | succ i =>
          have hrest := ih (i := i) h
          simp only [List.set_cons_succ, List.map_cons, List.sum_cons]
          omega

/-- A poll changes nothing, or there is one less to come. -/
theorem step_work (server : TcpServer S T) {s : Serving W T} {e : Nat × ServerEvent W}
    (h : Effective server s e) : (step server s e).work + 1 = s.work := by
  obtain ⟨now, e⟩ := e
  obtain ⟨hpoll, hchanged⟩ := h
  cases e with
  | cancel => exact hpoll.elim
  | turn incoming => exact hpoll.elim
  | enter i =>
      simp only [step] at hchanged ⊢
      split at hchanged
      · next a htask =>
          have hsum : (List.map (fun p => p.2.left) (s.tasks.set i (a, .entered))).sum + 2
              = s.work + 1 := sum_set (fun p => p.2.left) htask _
          simp only [work] at hsum ⊢
          omega
      · exact absurd rfl hchanged
  | settle i timeout =>
      simp only [step] at hchanged ⊢
      split at hchanged
      · next a htask =>
          split at hchanged
          · next hholds =>
              have hsum : (List.map (fun p => p.2.left) (s.tasks.set i
                  (a, .ended (server.handleConnection (s.interrupt timeout) a)))).sum + 1
                  = s.work + 0 := sum_set (fun p => p.2.left) htask _
              simp only [work, if_pos hholds] at hsum ⊢
              omega
          · exact absurd rfl hchanged
      · exact absurd rfl hchanged

theorem polls_le_work (server : TcpServer S T) {polls : List (Nat × ServerEvent W)}
    {s : Serving W T} (h : Runs.Guarded (step server) (Effective server) polls s) :
    polls.length ≤ s.work := by
  have hless : ∀ (s : Serving W T) e, True → Effective server s e →
      (step server s e).work < s.work := by
    intro s e _ he
    exact Nat.le_of_eq (step_work server he)
  exact Runs.length_le_of_guarded trivial (fun _ _ _ _ => trivial) hless h

theorem work_le (s : Serving W T) : s.work ≤ 2 * s.tasks.length := by
  have heach : ∀ n ∈ s.tasks.map fun p => p.2.left, n ≤ 2 := by
    intro n hn
    obtain ⟨p, -, rfl⟩ := List.mem_map.mp hn
    cases p.2 with
    | spawned => exact Nat.le_refl 2
    | entered => exact Nat.le_succ 1
    | ended r => exact Nat.zero_le 2
  have hsum := List.sum_le_card_nsmul _ _ heach
  rw [List.length_map, Nat.mul_comm] at *
  exact hsum

/-- Where no poll changes anything, every task has ended. -/
theorem Sound.finished (h : Sound server s) (hstuck : ∀ e, ¬ Effective server s e) :
    (∀ p ∈ s.tasks, ∃ r, p.2 = .ended r) ∧ s.handshakes.present = [] := by
  have hnobody : s.handshakes.present = [] := by
    apply Decidable.byContradiction
    intro hsomebody
    obtain ⟨i, hi⟩ := Semaphore.exists_holds (by decide) hsomebody
    obtain ⟨a, ha⟩ := (h.entered i).mp (Semaphore.holds_present hi)
    refine hstuck (0, .settle i false) ⟨trivial, fun heq => ?_⟩
    simp only [step, ha, if_pos hi] at heq
    have hsame := congrArg (fun s : Serving W T => s.tasks[i]?) heq
    rw [ha] at hsame
    simp only [task_set ha, if_pos] at hsame
    cases hsame
  refine ⟨fun p hp => ?_, hnobody⟩
  obtain ⟨i, hi⟩ := List.mem_iff_getElem?.mp hp
  obtain ⟨a, stage⟩ := p
  cases stage with
  | ended r => exact ⟨r, rfl⟩
  | entered =>
      have hpresent := (h.entered i).mpr ⟨a, hi⟩
      rw [hnobody] at hpresent
      cases hpresent
  | spawned =>
      refine absurd ⟨trivial, fun heq => ?_⟩ (hstuck (0, .enter i))
      simp only [step, hi] at heq
      have hsame := congrArg (fun s : Serving W T => s.tasks[i]?) heq
      rw [hi] at hsame
      simp only [task_set hi, if_pos] at hsame
      cases hsame

/-- A cancelled server takes nothing up any more. -/
structure Closed (s s' : Serving W T) : Prop where
  cancelled : s'.cancelled = true
  tasks : s'.tasks.length = s.tasks.length
  admitted : ∀ (i : Nat) a conn, s'.tasks[i]? = some (a, Handling.ended (.ok conn)) →
    s.tasks[i]? = some (a, Handling.ended (.ok conn))

theorem step_cancelled (server : TcpServer S T) {s : Serving W T} (h : s.cancelled = true)
    (e : Nat × ServerEvent W) : (step server s e).cancelled = true := by
  obtain ⟨now, e⟩ := e
  cases e <;> simp only [step] <;> repeat' split
  all_goals exact h

theorem Closed.step {s₀ : Serving W T} (h : Closed s₀ s) (e : Nat × ServerEvent W) :
    Closed s₀ (step server s e) := by
  refine ⟨step_cancelled server h.cancelled e, ?_, fun i a conn hconn => ?_⟩
  · cases step_moves server s e with
    | idle htasks _ => rw [htasks, h.tasks]
    | spawns a _ hopen => exact absurd h.cancelled (by rw [hopen]; nofun)
    | enters i a _ htasks _ => rw [htasks, List.length_set, h.tasks]
    | settles i a timeout _ _ htasks _ => rw [htasks, List.length_set, h.tasks]
  · refine h.admitted i a conn ?_
    cases step_moves server s e with
    | idle htasks _ => exact htasks ▸ hconn
    | spawns a _ hopen => exact absurd h.cancelled (by rw [hopen]; nofun)
    | enters j a' htask htasks _ =>
        rw [htasks, task_set htask] at hconn
        split at hconn
        · cases hconn
        · exact hconn
    | settles j a' timeout htask _ htasks _ =>
        rw [htasks, task_set htask] at hconn
        split at hconn
        · have hok := (Handling.ended.inj (Prod.mk.inj (Option.some.inj hconn)).2)
          have hnone := (TcpServer.handleConnection_ok hok).1
          rw [interrupt, if_pos h.cancelled] at hnone
          cases hnone
        · exact hconn

end

/-- The server takes up and admits nothing more, returns at the next turn of its
loop, and its tasks end after two polls each at most: as long as one has not
ended, some poll gets on, and where none does every permit is back. -/
structure ShutsDown (server : TcpServer S T) (s : Serving W T) : Prop where
  closed : ∀ after, Closed s (Runs.run (step server) after s)
  returns : ∀ now incoming, (step server s (now, .turn incoming)).returned.isSome = true
  bounded : ∀ polls, Runs.Guarded (step server) (Effective server) polls s →
    polls.length ≤ 2 * s.tasks.length
  finished : ∀ after, (∀ e, ¬ Effective server (Runs.run (step server) after s) e) →
    (∀ p ∈ (Runs.run (step server) after s).tasks, ∃ r, p.2 = .ended r) ∧
      (Runs.run (step server) after s).handshakes.present = []

/-- Cancelling shuts a server down, whatever it has taken up. -/
theorem shuts_down (server : TcpServer S T) (events : List (Nat × ServerEvent W))
    (hcancelled : (Runs.run (step server) events listening).cancelled = true) :
    ShutsDown server (Runs.run (step server) events listening) where
  closed after := by
    have hnow : Closed (Runs.run (step server) events listening)
        (Runs.run (step server) events listening) := ⟨hcancelled, rfl, fun _ _ _ h => h⟩
    exact (Runs.always_of_invariant hnow (fun _ e h => Closed.step h e) after).last
  returns now incoming := by
    simp only [step]
    split
    · next hreturned => exact hreturned
    · rfl
  bounded polls h := Nat.le_trans (polls_le_work server h) (work_le _)
  finished after hstuck := by
    rw [← Runs.run_append] at hstuck ⊢
    exact (run_sound server _).finished hstuck

/-! ## How long a connection waits -/

section
variable {server : TcpServer S T} {s : Serving W T} {hold deadline i : Nat}

theorem step_past {e : Nat × ServerEvent W} (h : s.handshakes.Past e.1) :
    (step server s e).handshakes.Past e.1 := by
  cases step_moves server s e with
  | idle _ hsem => exact hsem ▸ h
  | spawns a _ _ _ hsem => exact hsem ▸ h
  | enters j a _ _ hsem => exact hsem ▸ Semaphore.past_acquire h j
  | settles j a timeout _ _ _ hsem => exact hsem ▸ Semaphore.past_release h j

/-- What is owed to a task that waits stays owed, until it has its permit. -/
theorem step_reaches (hhold : 0 < hold) {e : Nat × ServerEvent W}
    (h : s.handshakes.Reaches hold deadline i ∨ i ∈ s.handshakes.granted)
    (hpunctual : s.handshakes.Punctual hold e.1) :
    (step server s e).handshakes.Reaches hold deadline i ∨
      i ∈ (step server s e).handshakes.granted := by
  cases step_moves server s e with
  | idle _ hsem => exact hsem ▸ h
  | spawns a _ _ _ hsem => exact hsem ▸ h
  | enters j a _ _ hsem =>
      rw [hsem]
      rcases h with howed | hgranted
      · exact .inl (Semaphore.reaches_acquire howed j e.1)
      · exact .inr ((Semaphore.granted_acquire _ j e.1).subset hgranted)
  | settles j a timeout _ _ _ hsem =>
      rw [hsem]
      rcases h with howed | hgranted
      · exact Semaphore.reaches_release hhold howed hpunctual j
      · exact .inr ((Semaphore.granted_release _ j e.1).subset hgranted)

end

/-- If no connection keeps its permit for longer than `hold`, then one that has
asked for a permit with `w` in front of it has it within
`hold * (w / 10 + 1)`. -/
theorem enters_within (server : TcpServer S T) {hold : Nat} (hhold : 0 < hold)
    (before after : List (Nat × ServerEvent W)) {now i : Nat} {e : Nat × ServerEvent W}
    (hclock : ((before ++ (now, .enter i) :: after ++ [e]).map Prod.fst).Pairwise (· ≤ ·))
    (hpunctual : Runs.Guarded (step server) (fun s e => s.handshakes.Punctual hold e.1)
      (before ++ (now, .enter i) :: after ++ [e]) listening)
    (hspawned : ∃ a, (Runs.run (step server) before listening).tasks[i]? = some (a, .spawned))
    (hwaits : (Runs.run (step server) (before ++ (now, .enter i) :: after) listening).Waits i) :
    e.1 ≤ now + hold *
      ((Runs.run (step server) before listening).handshakes.waiting.length / 10 + 1) := by
  obtain ⟨a, ha⟩ := hspawned
  obtain ⟨hguarded, hlast⟩ := Runs.guarded_concat.mp hpunctual
  have hafter := (Runs.guarded_cons.mp hguarded.behind).2
  -- no permit was handed out later than now
  have hpast : (Runs.run (step server) before listening).handshakes.Past now := by
    obtain ⟨t, ht⟩ := Runs.exists_before hclock
    have hclocked : Runs.Clocked (step server) Prod.fst
        fun t (s : Serving W T) => s.handshakes.Past t :=
      ⟨fun h hle => h.later hle, fun h => step_past h⟩
    have hguard := hclocked.guarded (s := listening) (t := t) (fun p hp => nomatch hp) ht
    refine hguard before (now, .enter i) ⟨after ++ [e], ?_⟩
    simp
  have henter : (step server (Runs.run (step server) before listening) (now, .enter i)).handshakes
      = (Runs.run (step server) before listening).handshakes.acquire i now := by
    simp only [step, ha]
  have hstart : (step server (Runs.run (step server) before listening)
        (now, .enter i)).handshakes.Reaches hold (now + hold *
          ((Runs.run (step server) before listening).handshakes.waiting.length / 10 + 1)) i ∨
      i ∈ (step server (Runs.run (step server) before listening)
        (now, .enter i)).handshakes.granted := by
    rw [henter]
    by_cases hfree : (Runs.run (step server) before listening).handshakes.holding.length < 10
    · rw [Semaphore.acquire, dif_pos hfree]
      exact .inr (List.mem_append_right _ (List.mem_singleton_self i))
    · exact .inl (Semaphore.reaches_of_acquire hhold hfree hpast (by decide) i)
  have hend := (Runs.always_of_step (P := fun s : Serving W T => s.handshakes.Reaches hold _ i ∨
    i ∈ s.handshakes.granted) hstart (fun _ _ => step_reaches hhold) hafter).last
  rw [← Runs.run_cons, ← Runs.run_append] at hend
  rcases hend with howed | hgranted
  · exact howed.le hhold hlast
  · -- who was given a permit does not wait
    have honce := (run_sound server (before ++ (now, .enter i) :: after)).once
    have hdisjoint := (List.nodup_append'.mp honce).2.2
    exact absurd hwaits (hdisjoint hgranted)

/-! ## Eleven connections -/

section
open Security.Idealized

/-- Bob connects to Alice. -/
def fromBob : Arrival (List UInt8) where
  stream := env.stream
  remoteFingerprint := fingerprintOf bob
  remoteX25519 := bob.x25519.pub
  tryClone := .ok ()
  clock := env.clock
  fillBytes := env.fillBytes
  world := (wire bob alice.x25519.pub (payloadOf bob 0)).toOption.getD []

def aliceServer : TcpServer Session Unit := ⟨crypto, snow, alice, none⟩

/-- He is accepted. -/
example : (aliceServer.handleConnection none fromBob).toOption.map (·.peerFingerprint)
    = some (fingerprintOf bob) := by
  decide +kernel

/-- Eleven connections at second 0, of which ten ask for a permit. -/
def crowded : List (Nat × ServerEvent (List UInt8)) :=
  List.replicate 11 (0, .turn (some (.ok fromBob))) ++ (List.range 10).map fun i => (0, .enter i)

/-- The eleventh asks at second 3; it waits when the first handshake has run out
of time at second 10. -/
theorem enters_within_crowded : 10 ≤ 3 + 10 *
    ((Runs.run (step aliceServer) crowded listening).handshakes.waiting.length / 10 + 1) :=
  enters_within aliceServer (by decide : 0 < 10) crowded [] (i := 10) (e := (10, .settle 0 true))
    (by decide +kernel) (by decide +kernel) ⟨fromBob, rfl⟩ (by decide +kernel)

theorem serving_limited_crowded :
    Limited aliceServer (Runs.run (step aliceServer) (crowded.take 12) listening) ∧
      (Runs.run (step aliceServer) (crowded.take 12) listening).handshakes.line <+:
        (Runs.run (step aliceServer) crowded listening).handshakes.line :=
  serving_limited aliceServer crowded (crowded.take 12) (List.take_prefix _ _)

theorem shuts_down_crowded :
    ShutsDown aliceServer (Runs.run (step aliceServer) (crowded ++ [(1, .cancel)]) listening) :=
  shuts_down aliceServer _ rfl

end

end Serving

end Rubix.Networking
