/-
# `Rubix.Application.PeerHistory` — a stored peer over many runs

Two columns of a peer's record are meant to follow what happens to the peer.

**Verified.**  A connection that the trust port answers with `Ok(true)` sets
the flag, and no other step does; but a connection that it answers otherwise
leaves the flag as it was.  The flag tracks the last connection exactly if no
such connection finds it set (`verified_tracks_iff`).

**Last seen.**  A connection moves it to now and a refresh carries it over; a
discovery that stores the peer clears it.  It never goes back exactly if no
discovery stores the peer once it has been seen (`lastSeen_kept_iff`).
-/
import Rubix.Application.Blocking
import Rubix.Lib.Runs

namespace Rubix

variable {W : Type}

open Effect (Prog)
open Runs
open Blocking (Step)

namespace PeerHistory

section History
variable [Chrono] (P : StoringPorts W) (fp : Fingerprint)

/-- The world a step leaves. -/
def next (s : App W) (step : Step) : App W := (step.run P.toPorts s).world

/-- The peer a step's connection ends up at, if it is one and gets that far. -/
def connected (s : App W) : Step → Option Peer
  | .connect now request => ConnectPeer.connectsTo P.toPorts { s with now := now } request
  | _ => none

/-- The step is a connection for `fp` that succeeds. -/
def ConnectsFor (s : App W) (step : Step) : Prop :=
  (step.run P.toPorts s).outcome = .ok () ∧ ∃ p, connected P s step = some p ∧ p.fingerprint = fp

/-- In the step the trust port answers `Ok(true)` for `fp`. -/
def SeesTrusted (s : App W) (step : Step) : Prop :=
  Call.isTrusted fp (.ok true) ∈ (step.run P.toPorts s).log

/-- The step is a discovery that stores a record for `fp`. -/
def Discovers (s : App W) (step : Step) : Prop :=
  ∃ request, step = .discover request ∧ DiscoverPeer.SavesFor fp (step.run P.toPorts s).log

/-- The stored peer is verified. -/
def Verified (s : App W) : Prop := ∃ p, P.stored s.env fp = some p ∧ p.verified = true

/-- The last connection for `fp` that succeeded saw it trusted. -/
def LastSawTrusted (steps : List Step) (s : App W) : Prop :=
  Since (next P) (fun s step => ConnectsFor P fp s step ∧ SeesTrusted P fp s step)
    (fun s step => ConnectsFor P fp s step → SeesTrusted P fp s step) steps s

/-- A connection for `fp` that succeeds and does not see it trusted finds no
verified record and is handed no verified peer. -/
def FindsUnverified (s : App W) (step : Step) : Prop :=
  ConnectsFor P fp s step → ¬ SeesTrusted P fp s step →
    ¬ Verified P fp s ∧ ∀ p, connected P s step = some p → p.verified = false

section
variable {P fp}

omit [Chrono] in
theorem verified_iff {s : App W} :
    Verified P fp s ↔ (P.stored s.env fp).any Peer.verified = true := by
  rw [Verified]
  cases P.stored s.env fp with
  | none => simp
  | some p => simp

/-- What a step does to the record of `fp`. -/
inductive Moves (P : StoringPorts W) (fp : Fingerprint) (s : App W) (step : Step) : Prop
  | kept (record : P.stored (next P s step).env fp = P.stored s.env fp)
      (other : ¬ ConnectsFor P fp s step) (unsaved : ¬ Discovers P fp s step)
  | connected (peer : Peer) (answer : Except TrustError Bool) (t now : DateTime) (w : W)
      (success : ConnectsFor P fp s step)
      (ends : PeerHistory.connected P s step = some peer)
      (trust : SeesTrusted P fp s step ↔ answer = .ok true)
      (before : P.Later s.env w) (after : P.Later w (next P s step).env)
      (record : P.stored (next P s step).env fp = some (ConnectPeer.saved (P.stored s.env fp)
        (ConnectPeer.marked peer answer) t (P.utcNow w).1 now))
  | discovered (l : List DiscoveredPeer) (peers : List Peer) (saves : Discovers P fp s step)
      (sweep : DiscoverPeer.Sweep (P.stored s.env) l peers (P.stored (next P s step).env))
      (built : ∃ p ∈ peers, p.fingerprint = fp)
  | refreshed (existing : Peer) (now : DateTime) (request : step = .refresh fp)
      (found : P.stored s.env fp = some existing)
      (record : P.stored (next P s step).env fp = some (existing.refreshStatus now))

/-- A step that wrote no record of `fp`. -/
theorem Moves.unwritten {s : App W} {step : Step} (hun : Unwritten P s (step.run P.toPorts s))
    (hother : ¬ ConnectsFor P fp s step) : Moves P fp s step := by
  refine .kept (congrFun hun.stored fp) hother ?_
  rintro ⟨request, -, q, hq, -⟩
  exact hun.unsaved q hq

theorem connect_moves (s : App W) (now : Instant) (request : ConnectPeerRequest) :
    Moves P fp s (.connect now request) ∧ P.Later s.env (next P s (.connect now request)).env := by
  let x := ConnectPeer.execute P.toPorts request
  have hrun : (Step.connect now request).run P.toPorts s =
      (x >>= fun _ => pure ()) { s with now := now } := rfl
  have hworld : next P s (.connect now request) = (x { s with now := now }).world := by
    rw [next, hrun, Prog.discard_world]
  have hlog : ((Step.connect now request).run P.toPorts s).log = (x { s with now := now }).log := by
    rw [hrun, Prog.discard_log]
  have hok : ((Step.connect now request).run P.toPorts s).outcome = .ok () ↔
      ∃ a, (x { s with now := now }).outcome = .ok a := by
    rw [hrun, Prog.discard_ok]
  rcases ConnectPeer.execute_cases P request { s with now := now } with
    ⟨e, he, hun⟩ | ⟨peer, hends, hstores⟩
  · have hun' : Unwritten P s (x { s with now := now }) := ⟨hun.stored, hun.unsaved, hun.later⟩
    refine ⟨.unwritten (hun'.of_eq hworld hlog) ?_, hworld ▸ hun.later⟩
    rintro ⟨hout, -⟩
    obtain ⟨a, ha⟩ := hok.mp hout
    exact absurd (ha.symm.trans he) (by simp)
  · obtain ⟨answer, htrust, t, now', w, hbefore, hafter, hout, hwrote⟩ := hstores
    refine ⟨?_, hworld ▸ hbefore.trans hafter⟩
    have hfp := (ConnectPeer.saved_fingerprint (P.keyed s.env)
      (ConnectPeer.marked_fingerprint peer answer).symm t (P.utcNow w).1 now').trans
        (ConnectPeer.marked_fingerprint peer answer)
    have hrecord : P.stored (next P s (.connect now request)).env = _ :=
      (congrArg (P.stored ·.env) hworld).trans hwrote.stored
    by_cases hpeer : peer.fingerprint = fp
    · subst hpeer
      refine .connected peer answer t now' w ⟨hok.mpr ⟨_, hout⟩, peer, hends, rfl⟩ hends ?_ hbefore
        (hworld ▸ hafter) ?_
      · rw [SeesTrusted, hlog, htrust]
        exact ⟨fun h => h.2.symm, fun h => ⟨rfl, h.symm⟩⟩
      · rw [hrecord, PeerTable.put, if_pos hfp.symm]
    · refine .kept ?_ ?_ ?_
      · rw [hrecord, PeerTable.put_of_ne _ (by rw [hfp]; exact Ne.symm hpeer)]
      · rintro ⟨-, p, hp, hpfp⟩
        exact hpeer ((Option.some.inj (hends.symm.trans hp)) ▸ hpfp)
      · rintro ⟨request', habsurd, -⟩
        exact absurd habsurd (by simp)

/-- Only a connection connects. -/
theorem not_connectsFor {s : App W} {step : Step} (h : connected P s step = none) :
    ¬ ConnectsFor P fp s step := by
  rintro ⟨-, p, hp, -⟩
  exact absurd (h.symm.trans hp) (by simp)

theorem discover_moves (s : App W) (request : DiscoverPeerRequest) :
    Moves P fp s (.discover request) ∧ P.Later s.env (next P s (.discover request)).env := by
  let x := DiscoverPeer.execute P.toPorts request
  have hworld : next P s (.discover request) = (x s).world := Prog.discard_world x () s
  have hlog : ((Step.discover request).run P.toPorts s).log = (x s).log := Prog.discard_log x () s
  rcases DiscoverPeer.execute_cases P request s with
    ⟨e, -, hun⟩ | ⟨l, -, peers, hsweep, hsaves, hlater, -⟩
  · exact ⟨.unwritten (hun.of_eq hworld hlog) (not_connectsFor rfl), hworld ▸ hun.later⟩
  · refine ⟨?_, hworld ▸ hlater⟩
    rw [← hworld] at hsweep
    by_cases hbuilt : ∃ p ∈ peers, p.fingerprint = fp
    · refine .discovered _ peers ⟨request, rfl, ?_⟩ hsweep hbuilt
      rw [hlog]
      exact (hsaves fp).mpr hbuilt
    · refine .kept ?_ (not_connectsFor rfl) ?_
      · exact hsweep.of_ne (P.keyed _) fun p hp hfp => hbuilt ⟨p, hp, hfp⟩
      · rintro ⟨-, -, hsaved⟩
        rw [hlog] at hsaved
        exact hbuilt ((hsaves fp).mp hsaved)

theorem receive_moves (s : App W) (incoming : IncomingMessage) :
    Moves P fp s (.receive incoming) ∧ P.Later s.env (next P s (.receive incoming)).env := by
  have hquiet : Quietly P s.env (next P s (.receive incoming)).env :=
    ReceiveMessage.process_keeps (I := fun s' => Quietly P s.env s'.env)
      (fun _ _ hread h => h.reads hread) incoming s Quietly.refl
  refine ⟨.kept (congrFun hquiet.stored fp) (not_connectsFor rfl) ?_, hquiet.later⟩
  rintro ⟨request, habsurd, -⟩
  exact absurd habsurd (by simp)

theorem refresh_moves (s : App W) (fp' : Fingerprint) :
    Moves P fp s (.refresh fp') ∧ P.Later s.env (next P s (.refresh fp')).env := by
  have hnone : ¬ Discovers P fp s (.refresh fp') := by
    rintro ⟨request, habsurd, -⟩
    exact absurd habsurd (by simp)
  rcases Blocking.refresh_cases (P := P) fp' s with hun | ⟨existing, now, hexisting, hwrote⟩
  · exact ⟨.unwritten hun (not_connectsFor rfl), hun.later⟩
  · refine ⟨?_, hwrote.later⟩
    have hkey : existing.fingerprint = fp' := P.stored_fingerprint hexisting
    have hrecord : P.stored (next P s (.refresh fp')).env = _ := hwrote.stored
    by_cases hfp : fp' = fp
    · subst hfp
      refine .refreshed existing now rfl hexisting ?_
      rw [hrecord, PeerTable.put, if_pos (show fp' = (existing.refreshStatus now).fingerprint from
        hkey.symm)]
    · refine .kept ?_ (not_connectsFor rfl) hnone
      rw [hrecord]
      exact PeerTable.put_of_ne _ fun h => hfp (hkey.symm.trans h.symm)

/-- A discovery that stores a record for `fp` sweeps it. -/
theorem discovers_moves {s : App W} {step : Step} (h : Discovers P fp s step) :
    ∃ l peers, DiscoverPeer.Sweep (P.stored s.env) l peers (P.stored (next P s step).env) ∧
      ∃ p ∈ peers, p.fingerprint = fp := by
  obtain ⟨request, rfl, -⟩ := id h
  rcases (discover_moves s request : Moves P fp s _ ∧ _).1 with ⟨-, -, hunsaved⟩ |
    ⟨peer, _, _, _, _, hsuccess, -⟩ | ⟨l, peers, -, hsweep, hbuilt⟩ | ⟨_, _, hrequest, -⟩
  · exact absurd h hunsaved
  · exact absurd hsuccess (not_connectsFor rfl)
  · exact ⟨l, peers, hsweep, hbuilt⟩
  · exact absurd hrequest (by simp)

theorem moves (s : App W) (step : Step) :
    Moves P fp s step ∧ P.Later s.env (next P s step).env := by
  cases step with
  | discover request => exact discover_moves s request
  | connect now request => exact connect_moves s now request
  | receive incoming => exact receive_moves s incoming
  | refresh fp' => exact refresh_moves s fp'

/-- What a step does to the flag. -/
theorem verified_next (s : App W) (step : Step) :
    Verified P fp (next P s step) ↔ Verified P fp s ∨ (ConnectsFor P fp s step ∧
      (SeesTrusted P fp s step ∨ ∃ p, connected P s step = some p ∧ p.verified = true)) := by
  rw [verified_iff, verified_iff]
  rcases (moves s step : Moves P fp s step ∧ _).1 with ⟨hrecord, hother, -⟩ |
    ⟨peer, answer, t, now, w, hsuccess, hends, htrust, -, -, hrecord⟩ |
    ⟨l, peers, hsaves, hsweep, -⟩ | ⟨existing, now, hrequest, hfound, hrecord⟩
  · rw [hrecord]
    exact (or_iff_left fun h => hother h.1).symm
  · rw [hrecord, Option.any_some, ConnectPeer.saved_verified, htrust, ← ConnectPeer.answer_true]
    simp only [Bool.or_eq_true, hends, Option.some.injEq, exists_eq_left', hsuccess, true_and]
    tauto
  · obtain ⟨request, rfl, -⟩ := hsaves
    rw [hsweep.verified_kept (P.keyed _)]
    exact (or_iff_left fun h => not_connectsFor rfl h.1).symm
  · subst hrequest
    rw [hrecord, hfound]
    exact (or_iff_left fun h => not_connectsFor rfl h.1).symm

end

/-- In a run that starts without a record of `fp`, the flag says what the last
connection saw, after every step, exactly if no connection that does not see
`fp` trusted finds a verified record or is handed a verified peer. -/
theorem verified_tracks_iff {s : App W} (hnew : P.stored s.env fp = none) (steps : List Step) :
    (∀ before, before <+: steps →
      (Verified P fp (run (next P) before s) ↔ LastSawTrusted P fp before s)) ↔
      Guarded (next P) (FindsUnverified P fp) steps s := by
  constructor
  · intro htracks before step hbefore hconnects hno
    have hafter := htracks (before ++ [step]) hbefore
    rw [run_concat, verified_next, LastSawTrusted, since_concat] at hafter
    -- the last connection is this one, and it did not see `fp` trusted
    have hunverified := mt hafter.mp (by
      rintro (⟨-, hsees⟩ | ⟨-, hsees⟩)
      · exact hno hsees
      · exact hno (hsees hconnects))
    push Not at hunverified
    refine ⟨hunverified.1, ?_⟩
    intro p hp
    exact Bool.eq_false_iff.mpr ((hunverified.2 hconnects).2 p hp)
  · intro hguard before hbefore
    have hstart : ¬ Verified P fp s := by
      rintro ⟨p, hp, -⟩
      exact absurd (hnew.symm.trans hp) (by simp)
    refine iff_since_of_guarded (Q := fun _ => True) (C := FindsUnverified P fp) trivial
      (fun _ _ _ => trivial) hstart ?_ (hguard.front hbefore)
    intro s' step _ hfinds
    rw [verified_next]
    by_cases hconnects : ConnectsFor P fp s' step
    · by_cases hsees : SeesTrusted P fp s' step
      · simp [hconnects, hsees]
      · obtain ⟨hrecord, hpeer⟩ := hfinds hconnects hsees
        have hnot : ¬ ∃ p, connected P s' step = some p ∧ p.verified = true := by
          rintro ⟨p, hp, hverified⟩
          exact absurd (hpeer p hp) (by simp [hverified])
        simp [hconnects, hsees, hrecord, hnot]
    · simp [hconnects]

/-! ## Last seen -/

/-- The `last_seen` of the stored status. -/
def seen (s : App W) : Option DateTime := (P.stored s.env fp).bind (·.status.lastSeen)

/-- Once some time was stored, a time no earlier is stored for good. -/
def NeverBack (steps : List Step) (s : App W) : Prop :=
  ∀ earlier later, earlier ++ later <+: steps → ∀ t, seen P fp (run (next P) earlier s) = some t →
    ∃ t', seen P fp (run (next P) (earlier ++ later) s) = some t' ∧ t ≤ t'

section
variable {fp} (T : TickingPorts W)

/-- What a step does to the time. -/
theorem seen_next (s : App W) (step : Step) :
    seen T.toStoringPorts fp (next T.toStoringPorts s step) = seen T.toStoringPorts fp s ∨
      (∃ t, (T.utcNow s.env).1 ≤ t ∧ t ≤ (T.utcNow (next T.toStoringPorts s step).env).1 ∧
        seen T.toStoringPorts fp (next T.toStoringPorts s step) = some t) ∨
      (Discovers T.toStoringPorts fp s step ∧
        seen T.toStoringPorts fp (next T.toStoringPorts s step) = none) := by
  rcases (moves s step : Moves T.toStoringPorts fp s step ∧ _).1 with ⟨hrecord, -, -⟩ |
    ⟨peer, answer, t, now, w, -, -, -, hbefore, hafter, hrecord⟩ |
    ⟨l, peers, hsaves, hsweep, hbuilt⟩ | ⟨existing, now, -, hfound, hrecord⟩
  · left
    rw [seen, hrecord, seen]
  · right; left
    refine ⟨_, TickingPorts.le_of_later hbefore, TickingPorts.le_of_later hafter, ?_⟩
    rw [seen, hrecord, Option.bind_some, ConnectPeer.saved_status]
    rfl
  · right; right
    obtain ⟨p, hp, hstatus⟩ := hsweep.offline (T.keyed _) hbuilt
    refine ⟨hsaves, ?_⟩
    rw [seen, hp, Option.bind_some, hstatus]
    rfl
  · left
    rw [seen, hrecord, seen, hfound]
    exact PeerStatus.lastSeen_refresh existing.status now

/-- The stored time is not ahead of the clock. -/
def Past (fp : Fingerprint) (s : App W) : Prop :=
  ∀ t, seen T.toStoringPorts fp s = some t → t ≤ (T.utcNow s.env).1

theorem past_next {s : App W} (h : Past T fp s) (step : Step) :
    Past T fp (next T.toStoringPorts s step) := by
  have hclock : (T.utcNow s.env).1 ≤ (T.utcNow (next T.toStoringPorts s step).env).1 :=
    TickingPorts.le_of_later (moves s step : Moves T.toStoringPorts fp s step ∧ _).2
  intro t ht
  rcases seen_next T s step with hsame | ⟨t', -, hle, ht'⟩ | ⟨-, hnone⟩
  · exact Int.le_trans (h t (hsame ▸ ht)) hclock
  · rw [← Option.some.inj (ht'.symm.trans ht)]
    exact hle
  · exact absurd (hnone.symm.trans ht) (by simp)

/-- The stored time never goes back exactly if no discovery stores the peer
once it has been seen. -/
theorem lastSeen_kept_iff {s : App W} (hpast : Past T fp s) (steps : List Step) :
    NeverBack T.toStoringPorts fp steps s ↔
      Guarded (next T.toStoringPorts) (fun s step => Discovers T.toStoringPorts fp s step →
        seen T.toStoringPorts fp s = none) steps s := by
  constructor
  · intro hback before step hbefore hdiscovers
    by_contra hseen
    obtain ⟨t, ht⟩ := Option.ne_none_iff_exists'.mp hseen
    obtain ⟨t', ht', -⟩ := hback before [step] hbefore t ht
    obtain ⟨l, peers, hsweep, hbuilt⟩ := discovers_moves hdiscovers
    obtain ⟨p, hp, hstatus⟩ := hsweep.offline (T.keyed _) hbuilt
    rw [run_concat, seen, hp, Option.bind_some, hstatus] at ht'
    exact absurd ht' (by simp [PeerStatus.lastSeen])
  · intro hguard earlier later hsplit t ht
    have hstart := (always_of_invariant (P := Past T fp) hpast
      (fun s step h => past_next T h step) steps) earlier ((List.prefix_append _ _).trans hsplit)
    -- from here on the stored time is there, at least `t`, and behind the clock
    have hkept := always_of_step
      (P := fun s => (∃ t', seen T.toStoringPorts fp s = some t' ∧ t ≤ t') ∧ Past T fp s)
      ⟨⟨t, ht, Int.le_refl t⟩, hstart⟩ ?_ (hguard.front hsplit).behind
    · rw [run_append]
      exact hkept.last.1
    · rintro s' step ⟨⟨t', ht', hle⟩, hpast'⟩ hno
      refine ⟨?_, past_next T hpast' step⟩
      rcases seen_next T s' step with hsame | ⟨t'', hle', -, ht''⟩ | ⟨hdiscovers, -⟩
      · exact ⟨t', hsame.trans ht', hle⟩
      · exact ⟨t'', ht'', Int.le_trans (Int.le_trans hle (hpast' t' ht')) hle'⟩
      · exact absurd ((hno hdiscovers).symm.trans ht') (by simp)

end

end History

/-! ## In memory -/

section
open Memory

/-- Ports held in memory whose trust port answers `Ok(true)` as often as the
list says: trust is withdrawn after that. -/
def withdrawing : StoringPorts Memory :=
  { Memory.storing with
    toPorts := { Memory.ports with
      trust := { isTrusted := fun fp m =>
        (.ok (decide (m.trusted.head? = some fp)), { m with trusted := m.trusted.tail }) } }
    isTrusted_stored := fun _ _ => rfl }

/-- A process whose connections end up at the example peer, not verified and
trusted once. -/
def trustedOnce : App Memory :=
  app { connection := ⟨0, .ok (⟨⟨Vector.replicate 16 9⟩⟩, { peer with verified := false })⟩
        trusted := [peer.fingerprint]
        discovered := [Blocking.advertise peer] }

/-- Discovered, then connected while trusted. -/
theorem verified_tracks_trusted :
    Verified withdrawing peer.fingerprint
        (run (next withdrawing) [.discover {}, .connect 0 ConnectPeer.request] trustedOnce) ↔
      LastSawTrusted withdrawing peer.fingerprint [.discover {}, .connect 0 ConnectPeer.request]
        trustedOnce := by
  refine (verified_tracks_iff withdrawing peer.fingerprint (s := trustedOnce) rfl
    [.discover {}, .connect 0 ConnectPeer.request]).mpr ?_ _ List.prefix_rfl
  simp only [guarded_cons]
  refine ⟨?_, ?_, guarded_nil⟩
  · rintro ⟨-, p, hp, -⟩
    exact absurd hp (by simp [connected])
  · intro _ hno
    exact absurd (show SeesTrusted _ _ _ _ by unfold SeesTrusted; decide +kernel) hno

/-- Connected while trusted, and again after the trust was withdrawn: the last
connection did not see the peer trusted, and the record is still verified. -/
theorem verified_after_withdrawal :
    ¬ (Verified withdrawing peer.fingerprint (run (next withdrawing)
        [.connect 0 ConnectPeer.request, .connect 0 ConnectPeer.request] trustedOnce) ↔
      LastSawTrusted withdrawing peer.fingerprint
        [.connect 0 ConnectPeer.request, .connect 0 ConnectPeer.request] trustedOnce) := by
  intro h
  have hverified : Verified withdrawing peer.fingerprint (run (next withdrawing)
      [.connect 0 ConnectPeer.request, .connect 0 ConnectPeer.request] trustedOnce) := by
    rw [verified_iff]
    decide +kernel
  have hconnects : ConnectsFor withdrawing peer.fingerprint
      (next withdrawing trustedOnce (.connect 0 ConnectPeer.request))
      (.connect 0 ConnectPeer.request) := by
    exact ⟨by decide +kernel, { peer with verified := false }, by decide +kernel, rfl⟩
  have hno : ¬ SeesTrusted withdrawing peer.fingerprint
      (next withdrawing trustedOnce (.connect 0 ConnectPeer.request))
      (.connect 0 ConnectPeer.request) := by
    unfold SeesTrusted
    decide +kernel
  have hlast := h.mp hverified
  rw [LastSawTrusted, ← List.singleton_append, since_concat] at hlast
  rcases hlast with ⟨-, hsees⟩ | ⟨-, hsees⟩
  · exact hno hsees
  · exact hno (hsees hconnects)

/-- The clock held in memory stands still. -/
def ticking : TickingPorts Memory where
  toStoringPorts := Memory.storing
  reads_le h := by
    cases h with
    | connect | discoverPeers | loadPeer | isTrusted | decryptFromPeer | utcNow | newUuid =>
        exact Int.le_refl _
  savePeer_le _ _ := Int.le_refl _

/-- Discovered before it was ever seen, then connected and refreshed. -/
theorem lastSeen_kept_connected :
    NeverBack Memory.storing peer.fingerprint
      [.discover {}, .connect 0 ConnectPeer.request, .refresh peer.fingerprint] trustedOnce := by
  refine (lastSeen_kept_iff ticking (s := trustedOnce) ?_ _).mpr ?_
  · intro t ht
    exact absurd ht (by simp [seen, ticking, Memory.storing, trustedOnce, app, find])
  · simp only [guarded_cons]
    refine ⟨fun _ => rfl, ?_, ?_, guarded_nil⟩
    · rintro ⟨request, habsurd, -⟩
      exact absurd habsurd (by simp)
    · rintro ⟨request, habsurd, -⟩
      exact absurd habsurd (by simp)

/-- Connected, then discovered: the time is gone. -/
theorem discovery_forgets_lastSeen :
    ¬ NeverBack Memory.storing peer.fingerprint [.connect 0 ConnectPeer.request, .discover {}]
      trustedOnce := by
  intro h
  have hseen : seen Memory.storing peer.fingerprint
      (run (next Memory.storing) [.connect 0 ConnectPeer.request] trustedOnce) = some 0 := by
    decide +kernel
  have hgone : seen Memory.storing peer.fingerprint
      (run (next Memory.storing) [.connect 0 ConnectPeer.request, .discover {}] trustedOnce) =
        none := by
    decide +kernel
  obtain ⟨t', ht', -⟩ := h [.connect 0 ConnectPeer.request] [.discover {}] List.prefix_rfl 0 hseen
  exact absurd (hgone.symm.trans ht') (by simp)

end

end PeerHistory
end Rubix
