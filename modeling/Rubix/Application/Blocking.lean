/-
# `Rubix.Application.Blocking` — what becomes of a block

`Blocked` is set by the local user and "overrides all other status
considerations".  Three use cases and `refresh_status` write a stored peer's
status:

    discover    sets Offline on every stored peer it reaches an advertisement for
    connect     sets Online on the stored peer it connected to
    receive     never gets to its status update
    refresh     leaves Blocked alone

The first two do not look at the status they replace.  A block therefore
survives a sequence of steps as long as no discovery reaches an advertisement
of the blocked fingerprint and no connection ends up at it
(`block_survives`); either one lifts it.
-/
import Rubix.Application.PeerTable

namespace Rubix

variable {W : Type}

open Effect (Prog)

namespace Blocking

variable (P : StoringPorts W) (fp : Fingerprint)

/-- The stored status of `fp` is `Blocked`. -/
def Blocked (s : App W) : Prop := ∃ p, P.stored s.env fp = some p ∧ p.status = .blocked

/-- What decides whether a block is kept is what was written. -/
theorem Blocked.of_stored {P : StoringPorts W} {fp : Fingerprint} {s s' : App W}
    (h : Blocked P fp s) (hst : P.stored s'.env fp = P.stored s.env fp) : Blocked P fp s' := by
  obtain ⟨p, hp, hb⟩ := h
  exact ⟨p, by rw [hst]; exact hp, hb⟩

/-! ## Refreshing -/

/-- `Peer::refresh_status` on the stored peer. -/
def refreshStored (ports : Ports W) (fp : Fingerprint) : UseCase W Unit := do
  let found ← ports.loadPeer fp
  let existing? ← orPersistence found
  match existing? with
  | some existing => do
      let now ← draw ports.utcNow
      let saved ← ports.savePeer (existing.refreshStatus now)
      orPersistence saved
  | none => pure ()

section UseCases
variable {P fp}

/-- A refresh writes nothing, or the record with its status refreshed at a
reading of the clock. -/
theorem refresh_cases (fp' : Fingerprint) (s : App W) :
    let r := refreshStored P.toPorts fp' s
    Unwritten P s r ∨ ∃ existing now, P.stored s.env fp' = some existing ∧
      Wrote P s r (existing.refreshStatus now) := by
  have hquiet : Quietly P s.env (P.persistence.loadPeer fp' s.env).2 :=
    Quietly.refl.reads (.loadPeer _ _)
  have hfront : ∀ found, Saveless [.loadPeer fp' found] := by
    intro found q
    simp
  rw [refreshStored, Ports.loadPeer, ask, Prog.call_bind]
  dsimp only
  cases hload : (P.persistence.loadPeer fp' s.env).1 with
  | error e => exact .inl ⟨hquiet.stored, hfront _, hquiet.later⟩
  | ok found =>
      have hfound : found = P.stored s.env fp' := P.loadPeer_ok hload
      rw [← hfound]
      cases found with
      | none => exact .inl ⟨hquiet.stored, hfront _, hquiet.later⟩
      | some existing =>
          rcases saveOnly_cases P (existing.refreshStatus
            (P.utcNow (P.persistence.loadPeer fp' s.env).2).1) { s with env :=
              (P.utcNow (P.persistence.loadPeer fp' s.env).2).2 } with ⟨e, -, hun⟩ | ⟨-, hwrote⟩
          · exact .inl (hun.front (hquiet.reads (.utcNow _)) (hfront _))
          · exact .inr ⟨existing, _, rfl, hwrote.front (hquiet.reads (.utcNow _)) (hfront _)⟩

/-- A refresh keeps every block. -/
theorem refresh_keeps (fp' : Fingerprint) :
    Prog.Keeps (Blocked P fp) (refreshStored P.toPorts fp') := by
  intro s h
  rcases refresh_cases (P := P) fp' s with hun | ⟨existing, now, hexisting, hwrote⟩
  · exact h.of_stored (congrFun hun.stored fp)
  · by_cases hfp : fp = existing.fingerprint
    · obtain ⟨p, hp, hb⟩ := h
      have hfp' : existing.fingerprint = fp' := P.stored_fingerprint hexisting
      rw [hfp, hfp', hexisting] at hp
      cases hp
      refine ⟨existing.refreshStatus now, ?_, ?_⟩
      · rw [hwrote.stored, hfp]
        exact PeerTable.put_self _ (existing.refreshStatus now)
      · rw [Peer.refreshStatus, hb, PeerStatus.refresh_blocked]
    · refine h.of_stored ?_
      rw [hwrote.stored]
      exact PeerTable.put_of_ne _ hfp

/-! ## The use cases -/

variable [Chrono]

/-- A connection keeps the block unless it ends up at the blocked peer. -/
theorem connect_keeps {s : App W} {request : ConnectPeerRequest} (h : Blocked P fp s)
    (hne : ∀ p, ConnectPeer.connectsTo P.toPorts s request = some p → p.fingerprint ≠ fp) :
    Blocked P fp (ConnectPeer.execute P.toPorts request s).world := by
  rcases ConnectPeer.execute_cases P request s with ⟨e, -, hun⟩ | ⟨connected, hconnects, hstores⟩
  · exact h.of_stored (congrFun hun.stored fp)
  · obtain ⟨p, hp, hwrote⟩ := hstores.record P
    refine h.of_stored ?_
    rw [hwrote.stored]
    refine PeerTable.put_of_ne _ ?_
    rw [hp]
    exact (hne connected hconnects).symm

/-- A discovery keeps the block unless it reaches an advertisement of the
blocked fingerprint. -/
theorem discover_keeps {s : App W} {request : DiscoverPeerRequest} (h : Blocked P fp s)
    (hne : ∀ l, (P.network.discoverPeers (seconds request.timeoutSecs) s.env).1 = .ok l →
      ∀ dp ∈ DiscoverPeer.reached request l, dp.fingerprint ≠ fp) :
    Blocked P fp (DiscoverPeer.execute P.toPorts request s).world := by
  rcases DiscoverPeer.execute_cases P request s with ⟨e, -, hun⟩ | ⟨l, hl, peers, hsweep, -, -, -⟩
  · exact h.of_stored (congrFun hun.stored fp)
  · refine h.of_stored (hsweep.of_ne (P.keyed _) ?_)
    intro p hp hfp
    obtain ⟨dp, hdp, hdpfp⟩ := hsweep.reached p hp
    exact hne l hl dp hdp (hdpfp.trans hfp)

/-- The receiver keeps every block: it never writes a peer. -/
theorem receive_keeps (incoming : IncomingMessage) :
    Prog.Keeps (Blocked P fp) (ReceiveMessage.process P.toPorts incoming) :=
  ReceiveMessage.process_keeps (fun _ _ hread hs =>
    hs.of_stored (congrFun (P.stored_of_reads hread) fp)) incoming

/-! ## Sequences of steps -/

/-- What can write a stored peer's status. -/
inductive Step where
  | discover (request : DiscoverPeerRequest)
  | connect (now : Instant) (request : ConnectPeerRequest)
  | receive (incoming : IncomingMessage)
  | refresh (fp : Fingerprint)

/-- The program of a step; what it returns does not matter here. -/
def Step.run (ports : Ports W) : Step → UseCase W Unit
  | .discover request => do let _ ← DiscoverPeer.execute ports request
  | .connect now request => do let _ ← startedAt now (ConnectPeer.execute ports request)
  | .receive incoming => ReceiveMessage.process ports incoming
  | .refresh fp => refreshStored ports fp

/-- The step is about to write over the stored status of `fp`: a discovery
that reaches an advertisement of `fp`, or a connection that ends up at it. -/
def Step.lifts (ports : Ports W) (fp : Fingerprint) (s : App W) : Step → Bool
  | .discover request =>
      match (ports.network.discoverPeers (seconds request.timeoutSecs) s.env).1 with
      | .ok l => (DiscoverPeer.reached request l).any (·.fingerprint = fp)
      | .error _ => false
  | .connect now request =>
      (ConnectPeer.connectsTo ports { s with now := now } request).any (·.fingerprint = fp)
  | .receive _ => false
  | .refresh _ => false

theorem step_keeps {s : App W} (h : Blocked P fp s) :
    ∀ {step : Step}, Step.lifts P.toPorts fp s step = false →
      Blocked P fp (step.run P.toPorts s).world
  | .discover request, hno => by
      have hkept : Blocked P fp (DiscoverPeer.execute P.toPorts request s).world := by
        refine discover_keeps h ?_
        intro l hl dp hdp hfp
        simp only [Step.lifts, hl, List.any_eq_false, decide_eq_true_eq] at hno
        exact hno dp hdp hfp
      exact Prog.bind_world hkept fun _ _ => hkept
  | .connect now request, hno => by
      have hkept : Blocked P fp
          (ConnectPeer.execute P.toPorts request { s with now := now }).world := by
        refine connect_keeps h ?_
        intro p hp hfp
        simp [Step.lifts, hp, hfp] at hno
      exact Prog.bind_world (x := startedAt now _) hkept fun _ _ => hkept
  | .receive incoming, _ => receive_keeps incoming s h
  | .refresh fp', _ => refresh_keeps fp' s h

end UseCases

/-- A block survives every sequence of steps none of which writes over it. -/
theorem block_survives [Chrono] {s : App W} (h : Blocked P fp s) (steps : List Step)
    (hno : ∀ e ∈ Prog.serve (Step.run P.toPorts) steps s,
      Step.lifts P.toPorts fp e.before e.request = false) :
    ∀ e ∈ Prog.serve (Step.run P.toPorts) steps s,
      Blocked P fp e.before ∧ Blocked P fp e.run.world :=
  Prog.serve_keeps (C := fun step s => Step.lifts P.toPorts fp s step = false)
    (fun _ _ hs hno => step_keeps hs hno) h hno

end Blocking

/-! ## In memory -/

open Memory in
/-- The ports held in memory store what they are given. -/
def Memory.storing : StoringPorts Memory where
  toPorts := Memory.ports
  stored := find
  stored_fingerprint h := by simpa using List.find?_some h
  loadPeer_ok h := (Except.ok.inj h).symm
  loadPeer_stored _ _ := rfl
  savePeer_ok {p w} _ := by
    funext fp
    show (w.put p).find fp = _
    by_cases hfp : fp = p.fingerprint
    · rw [if_pos hfp, hfp, find_put_self]
    · rw [if_neg hfp, find_put_of_ne w (Ne.symm hfp)]
  savePeer_error h := nomatch h
  updatePeerStatus_ok {fp s w} _ := by
    funext fp'
    show (w.putStatus fp s).find fp' = _
    rw [find_putStatus]
    by_cases hfp : fp' = fp
    · subst hfp
      simp only [if_true]
    · simp only [if_neg hfp, Option.map_id']
  updatePeerStatus_error h := nomatch h
  saveMessage_stored _ _ := rfl
  connect_stored _ _ _ := rfl
  discoverPeers_stored _ _ := rfl
  decryptFromPeer_stored _ _ _ := rfl
  isTrusted_stored _ _ := rfl
  notify_stored _ _ _ := rfl
  utcNow_stored _ := rfl
  newUuid_stored _ := rfl

namespace Blocking
open Memory

/-- The advertisement of a peer. -/
def advertise (p : Peer) : DiscoveredPeer :=
  ⟨p.fingerprint, p.displayName, p.addresses, p.ed25519Public, p.x25519Public⟩

def stranger : Peer := { peer with fingerprint := ⟨Vector.replicate 20 0xCC⟩ }

/-- The example peer, blocked, on a network where `p` advertises. -/
def blocking (p : Peer) : App Memory :=
  app { peers := [{ peer with status := .blocked }], discovered := [advertise p] }

/-- A stranger is discovered, a connection is refused, a message comes in and
the stored peer is refreshed. -/
def quietSteps : List Step :=
  [.discover {}, .connect 0 ConnectPeer.request, .receive ⟨peer.fingerprint, [header], 0⟩,
    .refresh peer.fingerprint]

/-- After the last of them the block is still there. -/
theorem block_survives_stranger :
    Blocked Memory.storing peer.fingerprint
      ((Prog.serve (Step.run Memory.ports) quietSteps (blocking stranger)).get
        ⟨3, by decide⟩).run.world :=
  (block_survives Memory.storing peer.fingerprint ⟨_, rfl, rfl⟩ quietSteps (by decide +kernel)
    _ (List.get_mem _ _)).2

/-- One advertisement of the blocked peer lifts its block. -/
theorem advertisement_lifts_block :
    Blocked Memory.storing peer.fingerprint (blocking peer) ∧
      ¬ Blocked Memory.storing peer.fingerprint
        (Step.run Memory.ports (.discover {}) (blocking peer)).world := by
  refine ⟨⟨_, rfl, rfl⟩, ?_⟩
  rintro ⟨p, hp, hblocked⟩
  have hstatus : (((Step.run Memory.ports (.discover {}) (blocking peer)).world.env.find
      peer.fingerprint).map Peer.status) = some (.offline none) := by decide +kernel
  have hp' : (Step.run Memory.ports (.discover {}) (blocking peer)).world.env.find
      peer.fingerprint = some p := hp
  rw [hp', Option.map_some, hblocked] at hstatus
  exact absurd (Option.some.inj hstatus) (by decide)

end Blocking
end Rubix
