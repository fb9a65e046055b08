/-
# `Rubix.Networking.Admission` — who gets to be active

An entry in `active_connections` has gone a long way: a call found its peer
trusted, a task that the call spawned connected, whoever was at the other end,
and the task made the entry when its handshake was through.

    limiting fp     `fp` was trusted, and trust is never taken back
    connecting      spawned by such a call
    looping         with a connection that `TcpClient::connect` returned
    entry           of a live task, under the task's fingerprint

So, in every state, the peer of an entry is trusted, and its connection came
from a handshake that verified the peer's identity (`vetted`).  What is known of
the peer's address or key plays no part in it.
-/
import Rubix.Networking.Client
import Rubix.Networking.ConnectionManager

namespace Rubix.Networking.ConnectionManager

open Security (X25519PublicKey)

variable {W S T A C : Type}

/-- How a task connects. -/
def dialer (client : TcpClient S T) (info : PeerInfo) (fp : Fingerprint) (rx : X25519PublicKey)
    (a : Attempt W) : NetworkResult (EncryptedConnection W T) :=
  client.connect info.ipAddress info.tcpPort fp rx a

/-- Each entry is of a trusted peer, and its connection is authenticated. -/
def Vetted (client : TcpClient S T) (s : ConnectionManager (EncryptedConnection W T)) : Prop :=
  ∀ h ∈ s.active, h.fingerprint ∈ s.trusted ∧
    ∃ conn, Live s h.outgoing h.fingerprint conn ∧ Authenticated client h.fingerprint conn

/-! ## Trust is never taken back -/

section
variable {dial : PeerInfo → Fingerprint → X25519PublicKey → A → NetworkResult C}
  {s : ConnectionManager C} {e : ManagerEvent A}

theorem check_trusted (s : ConnectionManager C) (i : Nat) (call : Call) :
    (s.check i call).trusted = s.trusted := by
  cases call <;> rw [check] <;> split <;> rfl

theorem establish_trusted (s : ConnectionManager C) (k : Nat) (fp : Fingerprint) (info : PeerInfo)
    (a : A) : (establish dial s k fp info a).trusted = s.trusted := by
  rw [establish]
  split
  · rfl
  · split
    · rfl
    · rfl

theorem establish_calls (s : ConnectionManager C) (k : Nat) (fp : Fingerprint) (info : PeerInfo)
    (a : A) : (establish dial s k fp info a).calls = s.calls := by
  rw [establish]
  split
  · rfl
  · split
    · rfl
    · rfl

theorem step_trusted (s : ConnectionManager C) (e : ManagerEvent A) :
    s.trusted ⊆ (step dial s e).trusted := by
  cases e with
  | trustPeer fp => exact Finset.subset_insert fp s.trusted
  | loadTrusted list => exact (foldl_trustPeer list s).2.2.2
  | addPeer info =>
      rw [step, addPeer]
      split
      · exact Finset.Subset.refl _
      · exact Finset.Subset.refl _
  | cleanupStale now => exact Finset.Subset.refl _
  | connectToPeer fp => exact Finset.Subset.refl _
  | disconnect fp => exact Finset.Subset.refl _
  | advance i =>
      rw [step]
      split
      · rw [check_trusted]
      · exact Finset.Subset.refl _
  | dialed k a =>
      rw [step]
      split
      · rw [establish_trusted]
      · exact Finset.Subset.refl _
  | leave k =>
      rw [step]
      split
      · exact Finset.Subset.refl _
      · exact Finset.Subset.refl _
  | finish k =>
      rw [step]
      split
      · exact Finset.Subset.refl _
      · exact Finset.Subset.refl _

theorem limiting_of_set {i : Nat} {call : Call} {fp : Fingerprint} {info : PeerInfo}
    (hcall : ∀ fp info, call ≠ .limiting fp info) (h : .limiting fp info ∈ s.calls.set i call) :
    .limiting fp info ∈ s.calls :=
  (List.mem_or_eq_of_mem_set h).resolve_right fun heq => hcall fp info heq.symm

/-- A check leads past the check of trust only where it finds trust. -/
theorem limiting_of_check {i : Nat} {call : Call} {fp : Fingerprint} {info : PeerInfo}
    (h : .limiting fp info ∈ (s.check i call).calls) :
    .limiting fp info ∈ s.calls ∨ fp ∈ s.trusted := by
  cases call with
  | checking fp' =>
      rw [check] at h
      split at h
      · exact .inl (limiting_of_set (by simp) h)
      · exact .inl (limiting_of_set (by simp) h)
  | looking fp' =>
      rw [check] at h
      split at h
      · exact .inl (limiting_of_set (by simp) h)
      · exact .inl (limiting_of_set (by simp) h)
  | trusting fp' info' =>
      rw [check] at h
      split at h
      · next htrusted =>
          rcases List.mem_or_eq_of_mem_set h with hold | heq
          · exact .inl hold
          · cases heq
            exact .inr (of_decide_eq_true htrusted)
      · exact .inl (limiting_of_set (by simp) h)
  | limiting fp' info' =>
      rw [check] at h
      split at h
      · exact .inl (limiting_of_set (by simp) h)
      · exact .inl (limiting_of_set (by simp) h)
  | returned result => exact .inl h

/-- A call that is past the check of trust found its peer trusted. -/
theorem limiting_of_step {fp : Fingerprint} {info : PeerInfo}
    (h : .limiting fp info ∈ (step dial s e).calls) :
    .limiting fp info ∈ s.calls ∨ fp ∈ s.trusted := by
  cases e with
  | advance i =>
      rw [step] at h
      split at h
      · exact limiting_of_check h
      · exact .inl h
  | connectToPeer fp' =>
      refine .inl ((List.mem_append.mp h).resolve_right fun hnew => ?_)
      cases List.mem_singleton.mp hnew
  | loadTrusted list =>
      rw [step, (foldl_trustPeer list s).2.2.1] at h
      exact .inl h
  | addPeer info' =>
      rw [step, addPeer] at h
      split at h
      · exact .inl h
      · exact .inl h
  | trustPeer fp' => exact .inl h
  | cleanupStale now => exact .inl h
  | disconnect fp' => exact .inl h
  | dialed k a =>
      rw [step] at h
      split at h
      · rw [establish_calls] at h
        exact .inl h
      · exact .inl h
  | leave k =>
      rw [step] at h
      split at h
      · exact .inl h
      · exact .inl h
  | finish k =>
      rw [step] at h
      split at h
      · exact .inl h
      · exact .inl h

/-- The tasks of a step are those before it, or of a peer a call found trusted. -/
theorem task_of_step {t : Spawned C} (h : t ∈ (step dial s e).tasks) :
    (∃ t' ∈ s.tasks, t'.fingerprint = t.fingerprint) ∨
      ∃ info, .limiting t.fingerprint info ∈ s.calls := by
  have hchanges : Changes dial s e (step dial s e) := step_changes s e
  have hset : ∀ k fp before after, s.tasks[k]? = some ⟨fp, before⟩ →
      (step dial s e).tasks = s.tasks.set k ⟨fp, after⟩ →
        ∃ t' ∈ s.tasks, t'.fingerprint = t.fingerprint := by
    intro k fp before after hbefore htasks
    rw [htasks] at h
    rcases List.mem_or_eq_of_mem_set h with hold | rfl
    · exact ⟨t, hold, rfl⟩
    · exact ⟨_, List.mem_of_getElem? hbefore, rfl⟩
  cases hchanges with
  | none _ htasks => exact .inl ⟨t, htasks ▸ h, rfl⟩
  | disconnected _ _ htasks => exact .inl ⟨t, htasks ▸ h, rfl⟩
  | spawned fp info hcall _ _ htasks =>
      rw [htasks] at h
      rcases List.mem_append.mp h with hold | hnew
      · exact .inl ⟨t, hold, rfl⟩
      · rw [List.mem_singleton.mp hnew]
        exact .inr ⟨info, hcall⟩
  | completed k fp conn hcompletes _ htasks =>
      obtain ⟨a, info, rx, -, hbefore, -⟩ := hcompletes
      exact .inl (hset k fp _ _ hbefore htasks)
  | failed k fp info hbefore _ htasks => exact .inl (hset k fp _ _ hbefore htasks)
  | left k fp conn hbefore _ htasks => exact .inl (hset k fp _ _ hbefore htasks)
  | finished k fp conn hbefore _ htasks => exact .inl (hset k fp _ _ hbefore htasks)

end

/-- Whatever leads to an entry is of a trusted peer, and the connections are
authenticated. -/
structure Admits (client : TcpClient S T) (s : ConnectionManager (EncryptedConnection W T)) :
    Prop where
  calls : ∀ fp info, .limiting fp info ∈ s.calls → fp ∈ s.trusted
  tasks : ∀ t ∈ s.tasks, t.fingerprint ∈ s.trusted
  live : ∀ k fp conn, Live s k fp conn → Authenticated client fp conn
  owned : Owned s

section
variable {client : TcpClient S T} {s : ConnectionManager (EncryptedConnection W T)}
  {e : ManagerEvent (Attempt W)}

theorem admits_step (h : Admits client s) : Admits client (step (dialer client) s e) := by
  have htrusted : s.trusted ⊆ (step (dialer client) s e).trusted := step_trusted s e
  constructor
  · intro fp info hcall
    rcases limiting_of_step hcall with hold | hfp
    · exact htrusted (h.calls fp info hold)
    · exact htrusted hfp
  · intro t ht
    rcases task_of_step ht with ⟨t', hold, heq⟩ | ⟨info, hcall⟩
    · exact htrusted (heq ▸ h.tasks t' hold)
    · exact htrusted (h.calls _ info hcall)
  · intro k fp conn hlive
    rcases live_of_step hlive with hold | ⟨a, info, rx, -, -, -, hdial⟩
    · exact h.live k fp conn hold
    · exact connect_authenticated hdial
  · exact step_owned h.owned

theorem vetted_of_admits (h : Admits client s) : Vetted client s := by
  intro handle hmem
  obtain ⟨conn, hlive⟩ := h.owned handle hmem
  have hauthenticated := h.live _ _ conn hlive
  obtain ⟨stage, hstage, -⟩ := id hlive
  have htrusted := h.tasks _ (List.mem_of_getElem? hstage)
  exact ⟨htrusted, conn, hlive, hauthenticated⟩

end

/-- In every state of every run, against whatever peers, the entries are of
trusted peers and their connections are authenticated. -/
theorem vetted (client : TcpClient S T) (events : List (ManagerEvent (Attempt W))) :
    Runs.Always (step (dialer client)) (Vetted client) events new := by
  have hnew : Admits client (new : ConnectionManager (EncryptedConnection W T)) :=
    ⟨fun _ _ h => (nomatch h), fun _ h => (nomatch h), fun _ _ _ ⟨_, h, _⟩ => (nomatch h),
      fun _ h => (nomatch h)⟩
  have hadmits : Runs.Always (step (dialer client)) (Admits client) events new :=
    Runs.always_of_invariant hnew (fun _ _ => admits_step) events
  exact hadmits.imp fun _ => vetted_of_admits

open Security.Idealized in
/-- Alice has Bob among her active connections once his answer has arrived. -/
example :
    let client : TcpClient Session Unit := ⟨crypto, snow, alice⟩
    let attempt : Attempt (List UInt8) :=
      { tcp := some (.ok ())
        tryClone := .ok ()
        interrupt := none
        stream := env.stream
        clock := env.clock
        fillBytes := env.fillBytes
        world := (wire bob alice.x25519.pub (payloadOf bob 0)).toOption.getD [] }
    let bobInfo : PeerInfo := ⟨fingerprintOf bob, "bob", "10.0.0.2", 4000, some bob.x25519.pub, 0⟩
    (Runs.run (step (dialer client))
      ([.addPeer bobInfo, .trustPeer (fingerprintOf bob), .connectToPeer (fingerprintOf bob)] ++
        List.replicate 4 (.advance 0) ++ [.dialed 0 attempt]) new).active =
      [⟨fingerprintOf bob, 0⟩] := by
  decide +kernel

end Rubix.Networking.ConnectionManager
