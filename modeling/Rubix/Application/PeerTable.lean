/-
# `Rubix.Application.PeerTable` — what the use cases do to the stored peers

Seen from the table of peers, a use case is a few writes, and the record it
writes is computed from the one it found:

| use case | writes | the record written |
| :-- | :-- | :-- |
| connect | at most one, for the connected peer | `ConnectPeer.saved` |
| discover | one for each advertisement it gets to | `DiscoverPeer.saved` |
| receive | none | |

A use case that fails on the way leaves what was written before.  The
specifications below say this of the programs, for ports that store what they
are given (`ConnectPeer.execute_cases`, `DiscoverPeer.execute_cases`,
`ReceiveMessage.process_keeps`); what is said elsewhere about stored peers
follows from them.
-/
import Rubix.Application.StoringPorts
import Rubix.Application.ConnectPeer
import Rubix.Application.DiscoverPeer
import Rubix.Application.ReceiveMessage

namespace Rubix

variable {W : Type}

open Effect (Prog)

/-! ## Connecting -/

namespace ConnectPeer

/-- Step 5: the answer of the trust port marks the connected peer. -/
def marked (connected : Peer) (answer : Except TrustError Bool) : Peer :=
  if answer.toOption.getD false then connected.verify else connected

theorem marked_fingerprint (connected : Peer) (answer : Except TrustError Bool) :
    (marked connected answer).fingerprint = connected.fingerprint := by
  rw [marked]
  split
  · rfl
  · rfl

/-- Step 6: the record written, on the record found and three readings of the
clock. -/
def saved (found : Option Peer) (peer : Peer) (t seen now : DateTime) : Peer :=
  match found with
  | some existing =>
      let existing := { existing with addresses := peer.addresses, lastSeen := t }
      let existing := existing.setStatus (.onlineNow seen) now
      if peer.verified then existing.verify else existing
  | none => peer.setStatus (.onlineNow seen) now

theorem saved_fingerprint {table : PeerTable} (h : table.Keyed) {fp : Fingerprint} {peer : Peer}
    (hfp : fp = peer.fingerprint) (t seen now : DateTime) :
    (saved (table fp) peer t seen now).fingerprint = peer.fingerprint := by
  cases hfound : table fp with
  | none => exact Peer.setStatus_fingerprint peer _ _
  | some existing =>
      have hkey : existing.fingerprint = peer.fingerprint := (h fp existing hfound).trans hfp
      rw [saved]
      split
      · exact (Peer.setStatus_fingerprint _ _ _).trans hkey
      · exact (Peer.setStatus_fingerprint _ _ _).trans hkey

/-- A stored connection is online since it was. -/
theorem saved_status (found : Option Peer) (peer : Peer) (t seen now : DateTime) :
    (saved found peer t seen now).status = .online seen := by
  cases found with
  | none => exact Peer.setStatus_status _ _ _
  | some existing =>
      rw [saved]
      split
      · exact Peer.setStatus_status _ _ _
      · exact Peer.setStatus_status _ _ _

/-- What a connection writes is verified if the record found was, if the peer
handed over was, or if the port's answer is `Ok(true)`. -/
theorem saved_verified (found : Option Peer) (peer : Peer) (answer : Except TrustError Bool)
    (t seen now : DateTime) :
    (saved found (marked peer answer) t seen now).verified =
      (found.any Peer.verified || peer.verified || (answer.toOption.getD false)) := by
  have hmarked : (marked peer answer).verified =
      (peer.verified || answer.toOption.getD false) := by
    rw [marked]
    split
    · next h => rw [h, Bool.or_true]; rfl
    · next h => rw [Bool.eq_false_iff.mpr h, Bool.or_false]
  rw [Bool.or_assoc, ← hmarked]
  cases found with
  | none => rw [Option.any_none, Bool.false_or]; exact Peer.setStatus_verified _ _ _
  | some existing =>
      rw [saved]
      split
      · next h => rw [h, Bool.or_true]; rfl
      · next h =>
          rw [Bool.eq_false_iff.mpr h, Bool.or_false]
          exact Peer.setStatus_verified _ _ _

theorem answer_true {answer : Except TrustError Bool} :
    answer.toOption.getD false = true ↔ answer = .ok true := by
  cases answer with
  | error e => simp [Except.toOption]
  | ok b => simp [Except.toOption]

/-- A record that was there keeps its id. -/
theorem saved_id (existing peer : Peer) (t seen now : DateTime) :
    (saved (some existing) peer t seen now).id = existing.id := by
  rw [saved]
  split
  · exact Peer.setStatus_id _ _ _
  · exact Peer.setStatus_id _ _ _

/-- The peer the response is about. -/
def told (found : Option Peer) (peer : Peer) (seen now : DateTime) : Peer :=
  match found with
  | some _ => peer
  | none => peer.setStatus (.onlineNow seen) now

variable [Chrono]

/-! The two branches of step 6. -/

def update (ports : Ports W) (existing peer : Peer) : UseCase W PeerResponse := do
  let now ← draw ports.utcNow
  let existing ← Prog.orFail (fun _ => .validation "addresses" "too many addresses")
    (existing.setAddresses peer.addresses now)
  let existing ← setOnlineNow ports existing
  let existing := if peer.verified then existing.verify else existing
  let saved ← ports.savePeer existing
  orPersistence saved
  pure (.fromPeer peer)

def insert (ports : Ports W) (peer : Peer) : UseCase W PeerResponse := do
  let peer ← setOnlineNow ports peer
  let saved ← ports.savePeer peer
  orPersistence saved
  pure (.fromPeer peer)

theorem store_eq (ports : Ports W) (connected : Peer) :
    store ports connected = (do
      let answer ← ports.isTrusted connected.fingerprint
      let found ← ports.loadPeer (marked connected answer).fingerprint
      let existing? ← orPersistence found
      match existing? with
      | some existing => update ports existing (marked connected answer)
      | none => insert ports (marked connected answer)) := rfl

/-- An update that does not exceed the address limit comes down to one save. -/
theorem update_run (ports : Ports W) {existing peer : Peer} (s : App W)
    (h : peer.addresses.length ≤ maxPeerAddresses) :
    update ports existing peer s =
      let t := ports.utcNow s.env
      let seen := ports.utcNow t.2
      let now := ports.utcNow seen.2
      (ports.savePeer (saved (some existing) peer t.1 seen.1 now.1) >>= fun saved =>
        orPersistence saved >>= fun _ => pure (.fromPeer peer)) { s with env := now.2 } := by
  rw [update, draw, Prog.silent_bind, Peer.setAddresses, if_neg (Nat.not_lt.mpr h)]
  rfl

theorem update_run_error (ports : Ports W) {existing peer : Peer} (s : App W)
    (h : ¬ peer.addresses.length ≤ maxPeerAddresses) :
    update ports existing peer s =
      ⟨.err (.validation "addresses" "too many addresses"),
        { s with env := (ports.utcNow s.env).2 }, []⟩ := by
  rw [update, draw, Prog.silent_bind, Peer.setAddresses, if_pos (Nat.lt_of_not_le h)]
  rfl

theorem insert_run (ports : Ports W) (peer : Peer) (s : App W) :
    insert ports peer s =
      let seen := ports.utcNow s.env
      let now := ports.utcNow seen.2
      let peer := saved none peer seen.1 seen.1 now.1
      (ports.savePeer peer >>= fun saved =>
        orPersistence saved >>= fun _ => pure (.fromPeer peer)) { s with env := now.2 } := rfl

variable (P : StoringPorts W)

/-- The record `saved` is written, on readings of the clock of which the
second is made in the world `w`, and the response is about `told`. -/
inductive Stored (found : Option Peer) (peer : Peer) (s : App W) (r : UseCaseRun W PeerResponse) :
    Prop
  | intro (t now : DateTime) (w : W) (before : P.Later s.env w) (after : P.Later w r.world.env)
      (outcome : r.outcome = .ok (.fromPeer (told found peer (P.utcNow w).1 now)))
      (wrote : Wrote P s r (saved found peer t (P.utcNow w).1 now))

theorem update_cases (existing peer : Peer) (s : App W) :
    let r := update P.toPorts existing peer s
    (∃ e, r.outcome = .err e ∧ Unwritten P s r) ∨ Stored P (some existing) peer s r := by
  intro r
  have hr : r = update P.toPorts existing peer s := rfl
  have ht : Quietly P s.env (P.utcNow s.env).2 := Quietly.refl.reads (.utcNow _)
  have hseen := ht.reads (.utcNow _)
  have hnow := hseen.reads (.utcNow _)
  by_cases hlen : peer.addresses.length ≤ maxPeerAddresses
  · rw [update_run P.toPorts s hlen] at hr
    rw [hr]
    rcases save_cases P (saved (some existing) peer _ _ _) (PeerResponse.fromPeer peer) _ with
      ⟨e, he, hsave⟩ | ⟨hok, hsave⟩
    · exact .inl ⟨e, he, hsave.front hnow saveless_nil⟩
    · refine .inr (.intro _ _ _ ht.later ?_ hok (hsave.front hnow saveless_nil))
      exact ((Ports.Later.refl.reads (.utcNow _)).reads (.utcNow _)).trans hsave.later
  · rw [hr, update_run_error P.toPorts s hlen]
    exact .inl ⟨_, rfl, ht.stored, saveless_nil, ht.later⟩

theorem insert_cases (peer : Peer) (s : App W) :
    let r := insert P.toPorts peer s
    (∃ e, r.outcome = .err e ∧ Unwritten P s r) ∨ Stored P none peer s r := by
  intro r
  have hseen : Quietly P s.env (P.utcNow s.env).2 := Quietly.refl.reads (.utcNow _)
  have hnow := hseen.reads (.utcNow _)
  show (∃ e, (insert P.toPorts peer s).outcome = .err e ∧ Unwritten P s (insert P.toPorts peer s)) ∨
    Stored P none peer s (insert P.toPorts peer s)
  rw [insert_run]
  rcases save_cases P (saved none peer _ _ _) (PeerResponse.fromPeer (saved none peer _ _ _)) _ with
    ⟨e, he, hsave⟩ | ⟨hok, hsave⟩
  · exact .inl ⟨e, he, hsave.front hnow saveless_nil⟩
  · refine .inr (.intro _ _ s.env .refl ?_ hok (hsave.front hnow saveless_nil))
    exact hnow.later.trans hsave.later

theorem Stored.front {found : Option Peer} {peer : Peer} {s s' : App W}
    {r : UseCaseRun W PeerResponse} {front : List Call} (h : Stored P found peer s' r)
    (hquiet : Quietly P s.env s'.env) (hfront : Saveless front) :
    Stored P found peer s ⟨r.outcome, r.world, front ++ r.log⟩ := by
  obtain ⟨t, now, w, before, after, houtcome, hwrote⟩ := h
  exact .intro t now w (hquiet.later.trans before) after houtcome (hwrote.front hquiet hfront)

/-- The two branches call nothing but `save_peer`. -/
theorem update_logs {K : Call → Prop} (hsave : ∀ q a, K (.savePeer q a)) (ports : Ports W)
    (existing peer : Peer) : Prog.Logs K (update ports existing peer) := by
  refine (Prog.Logs.silent _).bind ?_
  intro now
  refine (Prog.Logs.orFail _ _).bind ?_
  intro moved
  refine (setOnlineNow_logs ports moved).bind ?_
  intro online
  refine (Prog.Logs.call (hsave _)).bind ?_
  intro saved
  exact (Prog.Logs.orFail _ _).bind fun _ => Prog.Logs.pure _

theorem insert_logs {K : Call → Prop} (hsave : ∀ q a, K (.savePeer q a)) (ports : Ports W)
    (peer : Peer) : Prog.Logs K (insert ports peer) := by
  refine (setOnlineNow_logs ports peer).bind ?_
  intro online
  refine (Prog.Logs.call (hsave _)).bind ?_
  intro saved
  exact (Prog.Logs.orFail _ _).bind fun _ => Prog.Logs.pure _

/-- A run that stored the connected peer, as the trust port's answer marked it. -/
inductive Stores (connected : Peer) (s : App W) (r : UseCaseRun W PeerResponse) : Prop
  | intro (answer : Except TrustError Bool)
      (trust : ∀ fp a, Call.isTrusted fp a ∈ r.log ↔ fp = connected.fingerprint ∧ a = answer)
      (stored : Stored P (P.stored s.env connected.fingerprint) (marked connected answer) s r)

/-- Whatever it wrote, it wrote one record of the connected peer. -/
theorem Stores.record {connected : Peer} {s : App W} {r : UseCaseRun W PeerResponse}
    (h : Stores P connected s r) : ∃ p, p.fingerprint = connected.fingerprint ∧ Wrote P s r p := by
  obtain ⟨answer, -, t, now, w, -, -, -, hwrote⟩ := h
  refine ⟨_, ?_, hwrote⟩
  rw [saved_fingerprint (P.keyed s.env) (marked_fingerprint connected answer).symm,
    marked_fingerprint]

theorem store_cases (connected : Peer) (s : App W) :
    let r := store P.toPorts connected s
    (∃ e, r.outcome = .err e ∧ Unwritten P s r) ∨ Stores P connected s r := by
  have hquiet : Quietly P s.env (P.trust.isTrusted connected.fingerprint s.env).2 :=
    Quietly.refl.reads (.isTrusted _ _)
  have hquiet' := hquiet.reads (.loadPeer connected.fingerprint _)
  have hfront : ∀ answer found, Saveless [.isTrusted connected.fingerprint answer,
      .loadPeer connected.fingerprint found] := by
    intro answer found q
    simp
  rw [store_eq, Ports.isTrusted, ask, Prog.call_bind]
  simp only [marked_fingerprint, Ports.loadPeer]
  rw [ask, Prog.call_bind]
  dsimp only
  generalize hanswer : (P.trust.isTrusted connected.fingerprint s.env).1 = answer
  cases hload : (P.persistence.loadPeer connected.fingerprint
      (P.trust.isTrusted connected.fingerprint s.env).2).1 with
  | error e => exact .inl ⟨_, rfl, hquiet'.stored, hfront _ _, hquiet'.later⟩
  | ok found =>
      have hfound : found = P.stored s.env connected.fingerprint := by
        rw [P.loadPeer_ok hload, hquiet.stored]
      have htrust : ∀ {l : List Call}, (∀ k ∈ l, ∀ fp a, k ≠ .isTrusted fp a) → ∀ fp a,
          Call.isTrusted fp a ∈ ([.isTrusted connected.fingerprint answer,
            .loadPeer connected.fingerprint (.ok found)] ++ l) ↔
              fp = connected.fingerprint ∧ a = answer := by
        intro l hl fp a
        have hnot : Call.isTrusted fp a ∉ l := fun h => hl _ h fp a rfl
        simp [hnot]
      cases found with
      | none =>
          rcases insert_cases P (marked connected answer) _ with ⟨e, he, hun⟩ | hstored
          · exact .inl ⟨e, he, hun.front hquiet' (hfront _ _)⟩
          · refine .inr (.intro answer ?_ (hfound ▸ hstored.front P hquiet' (hfront _ _)))
            exact htrust (insert_logs (by simp) _ _ _)
      | some existing =>
          rcases update_cases P existing (marked connected answer) _ with ⟨e, he, hun⟩ | hstored
          · exact .inl ⟨e, he, hun.front hquiet' (hfront _ _)⟩
          · refine .inr (.intro answer ?_ (hfound ▸ hstored.front P hquiet' (hfront _ _)))
            exact htrust (update_logs (by simp) _ _ _ _)

omit [Chrono] in
/-- A connection within the deadline makes one call, and the peer it ends in
is the one the port answered with. -/
theorem connectWithTimeout_cases (ports : Ports W) (addr : SocketAddr) (efp : Fingerprint)
    (s : App W) :
    let answer := ports.network.connect addr (some efp) s.env
    let r := connectWithTimeout ports addr efp s
    r.world.env = answer.2 ∧ r.log = [.connect s.now addr (some efp) answer.1] ∧
      ((∃ e, r.outcome = .err e) ∨ ∃ peer conn, r.outcome = .ok peer ∧
        answer.1.within connectTimeout = some (.ok (conn, peer))) := by
  intro answer r
  have hrun : r = _ := connectWithTimeout_run ports addr efp s
  dsimp only at hrun
  rw [hrun]
  cases hwithin : (ports.network.connect addr (some efp) s.env).1.within connectTimeout with
  | none => exact ⟨rfl, rfl, .inl ⟨_, rfl⟩⟩
  | some a =>
      cases a with
      | error e => exact ⟨rfl, rfl, .inl ⟨_, rfl⟩⟩
      | ok v => exact ⟨rfl, rfl, .inr ⟨v.2, v.1, rfl, rfl⟩⟩

/-- A connection use case writes nothing, or the record of the peer it
connected to. -/
theorem execute_cases (request : ConnectPeerRequest) (s : App W) :
    let r := execute P.toPorts request s
    (∃ e, r.outcome = .err e ∧ Unwritten P s r) ∨
      ∃ connected, connectsTo P.toPorts s request = some connected ∧ Stores P connected s r := by
  intro r
  have hr : r = execute P.toPorts request s := rfl
  cases hv : validate P.toPorts request with
  | error e =>
      rw [hr, execute_invalid P.toPorts hv]
      exact .inl ⟨e, rfl, rfl, saveless_nil, .refl⟩
  | ok v =>
      obtain ⟨addr, efp⟩ := v
      rw [execute_valid P.toPorts hv] at hr
      cases hok : (s.connectLimiter.check s.now (rateKey efp)).1 with
      | false =>
          rw [hr, hok]
          exact .inl ⟨_, rfl, rfl, saveless_nil, .refl⟩
      | true =>
          rw [hok, if_pos rfl] at hr
          generalize hs₁ : ({ s with connectLimiter :=
            (s.connectLimiter.check s.now (rateKey efp)).2 } : App W) = s₁ at hr
          have henv : s₁.env = s.env := by rw [← hs₁]
          obtain ⟨hworld, hlog, hend⟩ := connectWithTimeout_cases P.toPorts addr efp s₁
          have hquiet : Quietly P s.env (connectWithTimeout P.toPorts addr efp s₁).world.env := by
            rw [hworld, henv]
            exact Quietly.refl.reads (.connect _ _ _)
          have hfront : Saveless (connectWithTimeout P.toPorts addr efp s₁).log := by
            rw [hlog]
            intro q
            simp
          rcases hend with ⟨e, he⟩ | ⟨connected, conn, hpeer, hwithin⟩
          · left
            have hrun : r = ⟨.err e, (connectWithTimeout P.toPorts addr efp s₁).world,
                (connectWithTimeout P.toPorts addr efp s₁).log⟩ := hr.trans (Prog.bind_of_err he _)
            rw [hrun]
            exact ⟨e, rfl, hquiet.stored, hfront, hquiet.later⟩
          · have hconnects : connectsTo P.toPorts s request = some connected := by
              rw [henv] at hwithin
              simp only [connectsTo, hv, hok, if_true, hwithin]
            rw [Prog.bind_of_ok hpeer] at hr
            rw [hr]
            rcases store_cases P connected (connectWithTimeout P.toPorts addr efp s₁).world with
              ⟨e, he, hun⟩ | ⟨answer, htrust, hstored⟩
            · exact .inl ⟨e, he, hun.front hquiet hfront⟩
            · refine .inr ⟨connected, hconnects, .intro answer ?_ ?_⟩
              · intro fp a
                rw [hlog, List.mem_append, ← htrust fp a]
                simp
              · rw [hquiet.stored] at hstored
                exact hstored.front P hquiet hfront

end ConnectPeer

/-! ## Discovering -/

namespace DiscoverPeer

/-- The record written for an advertisement, on the record found and a reading
of the clock. -/
def saved (found : Option Peer) (peer : Peer) (now : DateTime) : Peer :=
  match found with
  | some existing =>
      ({ existing with addresses := peer.addresses, lastSeen := now } : Peer).setStatus
        (.offline none) now
  | none => peer

/-- A sweep of the table: for some of the advertisements, from the first on, a
peer is built and the record `saved` is written. -/
inductive Sweep : PeerTable → List DiscoveredPeer → List Peer → PeerTable → Prop
  | stop (t : PeerTable) (l : List DiscoveredPeer) : Sweep t l [] t
  | save {t t' : PeerTable} {dp : DiscoveredPeer} {rest : List DiscoveredPeer} {peer : Peer}
      {peers : List Peer} (id : Uuid) (built now : DateTime)
      (build : (builder dp).build id built = .ok peer)
      (sweep : Sweep (t.put (saved (t peer.fingerprint) peer now)) rest peers t') :
      Sweep t (dp :: rest) (peer :: peers) t'

theorem saved_fingerprint {t : PeerTable} (h : t.Keyed) (peer : Peer) (now : DateTime) :
    (saved (t peer.fingerprint) peer now).fingerprint = peer.fingerprint := by
  cases hfound : t peer.fingerprint with
  | none => rfl
  | some existing => exact h _ existing hfound

/-! The two branches of the loop's body. -/

def update (ports : Ports W) (existing peer : Peer) : UseCase W Unit := do
  let now ← draw ports.utcNow
  let existing ← Prog.orFail (fun _ => .validation "addresses" "limit exceeded")
    (existing.setAddresses peer.addresses now)
  let saved ← ports.savePeer (existing.setStatus (.offline none) now)
  orPersistence saved

def insert (ports : Ports W) (peer : Peer) : UseCase W Unit := do
  let saved ← ports.savePeer peer
  orPersistence saved

theorem store_eq (ports : Ports W) (peer : Peer) :
    store ports peer = (do
      let found ← ports.loadPeer peer.fingerprint
      let existing? ← orPersistence found
      match existing? with
      | some existing => update ports existing peer
      | none => insert ports peer) := rfl

theorem update_run (ports : Ports W) {existing peer : Peer} (s : App W)
    (h : peer.addresses.length ≤ maxPeerAddresses) :
    update ports existing peer s =
      let now := ports.utcNow s.env
      (ports.savePeer (saved (some existing) peer now.1) >>= fun saved => orPersistence saved)
        { s with env := now.2 } := by
  rw [update, draw, Prog.silent_bind, Peer.setAddresses, if_neg (Nat.not_lt.mpr h)]
  rfl

theorem update_run_error (ports : Ports W) {existing peer : Peer} (s : App W)
    (h : ¬ peer.addresses.length ≤ maxPeerAddresses) :
    update ports existing peer s =
      ⟨.err (.validation "addresses" "limit exceeded"),
        { s with env := (ports.utcNow s.env).2 }, []⟩ := by
  rw [update, draw, Prog.silent_bind, Peer.setAddresses, if_pos (Nat.lt_of_not_le h)]
  rfl

variable (P : StoringPorts W)

theorem update_cases (existing peer : Peer) (s : App W) :
    let r := update P.toPorts existing peer s
    (∃ e, r.outcome = .err e ∧ Unwritten P s r) ∨
      ∃ now, r.outcome = .ok () ∧ Wrote P s r (saved (some existing) peer now) := by
  intro r
  have hr : r = update P.toPorts existing peer s := rfl
  have hquiet : Quietly P s.env (P.utcNow s.env).2 := Quietly.refl.reads (.utcNow _)
  by_cases hlen : peer.addresses.length ≤ maxPeerAddresses
  · rw [hr, update_run P.toPorts s hlen]
    rcases saveOnly_cases P (saved (some existing) peer (P.utcNow s.env).1) _ with
      ⟨e, he, hun⟩ | ⟨hok, hwrote⟩
    · exact .inl ⟨e, he, hun.front hquiet saveless_nil⟩
    · exact .inr ⟨_, hok, hwrote.front hquiet saveless_nil⟩
  · rw [hr, update_run_error P.toPorts s hlen]
    exact .inl ⟨_, rfl, hquiet.stored, saveless_nil, hquiet.later⟩

/-- What the loop does for one advertisement the builder took. -/
theorem store_cases (peer : Peer) (s : App W) :
    let r := store P.toPorts peer s
    (∃ e, r.outcome = .err e ∧ Unwritten P s r) ∨
      ∃ now, r.outcome = .ok () ∧
        Wrote P s r (saved (P.stored s.env peer.fingerprint) peer now) := by
  have hquiet : Quietly P s.env (P.persistence.loadPeer peer.fingerprint s.env).2 :=
    Quietly.refl.reads (.loadPeer _ _)
  have hfront : ∀ found, Saveless [.loadPeer peer.fingerprint found] := by
    intro found q
    simp
  rw [store_eq, Ports.loadPeer, ask, Prog.call_bind]
  dsimp only
  cases hload : (P.persistence.loadPeer peer.fingerprint s.env).1 with
  | error e => exact .inl ⟨_, rfl, hquiet.stored, hfront _, hquiet.later⟩
  | ok found =>
      have hfound : found = P.stored s.env peer.fingerprint := P.loadPeer_ok hload
      rw [← hfound]
      cases found with
      | none =>
          rcases saveOnly_cases P peer
            { s with env := (P.persistence.loadPeer peer.fingerprint s.env).2 } with
            ⟨e, he, hun⟩ | ⟨hok, hwrote⟩
          · exact .inl ⟨e, he, hun.front hquiet (hfront _)⟩
          · exact .inr ⟨0, hok, hwrote.front hquiet (hfront _)⟩
      | some existing =>
          rcases update_cases P existing peer
            { s with env := (P.persistence.loadPeer peer.fingerprint s.env).2 } with
            ⟨e, he, hun⟩ | ⟨now, hok, hwrote⟩
          · exact .inl ⟨e, he, hun.front hquiet (hfront _)⟩
          · exact .inr ⟨now, hok, hwrote.front hquiet (hfront _)⟩

/-- Building draws a UUID and reads the clock, and calls nothing else. -/
theorem build_run (ports : Ports W) (b : PeerBuilder) (s : App W) :
    build ports b s =
      let id := ports.newUuid s.env
      let now := ports.utcNow id.2
      (Prog.orFail (fun _ => .domain) (b.build id.1 now.1) : UseCase W Peer)
        { s with env := now.2 } := rfl

/-- The fingerprint is one of a record the calls saved. -/
def SavesFor (fp : Fingerprint) (log : List Call) : Prop :=
  ∃ q, Call.savePeer q (.ok ()) ∈ log ∧ q.fingerprint = fp

variable [Chrono]

/-- A run over a list of advertisements sweeps the table with the peers it
built, and answers with all of them or fails on the way. -/
inductive Sweeps (l : List DiscoveredPeer) (s : App W) (r : UseCaseRun W (List PeerResponse)) : Prop
  | intro (peers : List Peer) (sweep : Sweep (P.stored s.env) l peers (P.stored r.world.env))
      (saves : ∀ fp, SavesFor fp r.log ↔ ∃ p ∈ peers, p.fingerprint = fp)
      (later : P.Later s.env r.world.env)
      (outcome : (r.outcome = .ok (peers.map .fromPeer) ∧ peers.length = l.length) ∨
        ∃ e, r.outcome = .err e)

theorem storeAll_cons (ports : Ports W) (dp : DiscoveredPeer) (rest : List DiscoveredPeer) :
    storeAll ports (dp :: rest) = build ports (builder dp) >>= fun peer =>
      store ports peer >>= fun _ => storeAll ports rest >>= fun responses =>
        pure (.fromPeer peer :: responses) := rfl

/-- A run that stopped before it wrote anything. -/
theorem Sweeps.stopped {l : List DiscoveredPeer} {s : App W}
    {r : UseCaseRun W (List PeerResponse)} (h : Unwritten P s r) {e : ApplicationError}
    (he : r.outcome = .err e) : Sweeps P l s r := by
  refine .intro [] ?_ ?_ h.later (.inr ⟨e, he⟩)
  · rw [h.stored]
    exact .stop _ _
  · intro fp
    constructor
    · rintro ⟨q, hq, -⟩
      exact absurd hq (h.unsaved q)
    · rintro ⟨p, hp, -⟩
      exact absurd hp List.not_mem_nil

/-- One advertisement is stored, and the rest of the list swept from there. -/
theorem Sweeps.next {dp : DiscoveredPeer} {rest : List DiscoveredPeer} {peer : Peer} {id : Uuid}
    {built now : DateTime} {s s₁ : App W} {r₁ : UseCaseRun W Unit}
    {r₂ r : UseCaseRun W (List PeerResponse)} (hb : (builder dp).build id built = .ok peer)
    (hquiet : Quietly P s.env s₁.env)
    (hwrote : Wrote P s₁ r₁ (saved (P.stored s₁.env peer.fingerprint) peer now))
    (hrest : Sweeps P rest r₁.world r₂) (hworld : r.world = r₂.world)
    (hlog : r.log = r₁.log ++ r₂.log)
    (hok : ∀ rs, r₂.outcome = .ok rs → r.outcome = .ok (.fromPeer peer :: rs))
    (herr : ∀ e, r₂.outcome = .err e → r.outcome = .err e) : Sweeps P (dp :: rest) s r := by
  obtain ⟨peers, hsweep, hsaves, hlater, hout⟩ := hrest
  have hfp : (saved (P.stored s₁.env peer.fingerprint) peer now).fingerprint = peer.fingerprint :=
    saved_fingerprint (P.keyed _) peer now
  rw [hwrote.stored, hquiet.stored] at hsweep
  refine .intro (peer :: peers) ?_ ?_ ?_ ?_
  · rw [hworld]
    exact .save id built now hb hsweep
  · intro fp
    rw [hlog, List.exists_mem_cons_iff, ← hsaves fp]
    constructor
    · rintro ⟨q, hq, hqfp⟩
      rcases List.mem_append.mp hq with hq | hq
      · rw [(hwrote.saved q).mp hq, hfp] at hqfp
        exact .inl hqfp
      · exact .inr ⟨q, hq, hqfp⟩
    · rintro (hpeer | ⟨q, hq, hqfp⟩)
      · exact ⟨_, List.mem_append_left _ ((hwrote.saved _).mpr rfl), hfp.trans hpeer⟩
      · exact ⟨q, List.mem_append_right _ hq, hqfp⟩
  · rw [hworld]
    exact (hquiet.later.trans hwrote.later).trans hlater
  · rcases hout with ⟨hrs, hlen⟩ | ⟨e, he⟩
    · exact .inl ⟨hok _ hrs, by rw [List.length_cons, List.length_cons, hlen]⟩
    · exact .inr ⟨e, herr e he⟩

theorem storeAll_sweeps (l : List DiscoveredPeer) (s : App W) :
    Sweeps P l s (storeAll P.toPorts l s) := by
  induction l generalizing s with
  | nil => exact .intro [] (.stop _ _) (by simp [SavesFor, storeAll]) .refl (.inl ⟨rfl, rfl⟩)
  | cons dp rest ih =>
      have hquiet : Quietly P s.env (P.utcNow (P.newUuid s.env).2).2 :=
        (Quietly.refl.reads (.newUuid _)).reads (.utcNow _)
      have hbuild := build_run P.toPorts (builder dp) s
      dsimp only at hbuild
      rw [storeAll_cons]
      cases hb : (builder dp).build (P.newUuid s.env).1 (P.utcNow (P.newUuid s.env).2).1 with
      | error e =>
          rw [hb] at hbuild
          rw [Prog.bind_run, hbuild]
          exact Sweeps.stopped P ⟨hquiet.stored, saveless_nil, hquiet.later⟩ rfl
      | ok peer =>
          rw [hb] at hbuild
          rw [Prog.bind_run, hbuild]
          dsimp only [Prog.orFail_ok, Prog.pure_run]
          rw [List.nil_append]
          rcases store_cases P peer { s with env := (P.utcNow (P.newUuid s.env).2).2 } with
            ⟨e, he, hun⟩ | ⟨now, hdone, hwrote⟩
          · rw [Prog.bind_of_err he]
            exact Sweeps.stopped P ((hun.front hquiet saveless_nil).of_eq rfl rfl) rfl
          · rw [Prog.bind_of_ok hdone]
            have hrest := ih (store P.toPorts peer
              { s with env := (P.utcNow (P.newUuid s.env).2).2 }).world
            refine hrest.next P hb hquiet hwrote ?_ ?_ ?_ ?_
            · exact Prog.bind_world (I := fun w => w = _) rfl fun _ _ => rfl
            · dsimp only
              congr 1
              rw [Prog.bind_run]
              rcases storeAll P.toPorts rest _ with ⟨o, w, l⟩
              cases o with
              | ok rs => exact List.append_nil l
              | err e => rfl
              | panic p => rfl
            · intro rs hrs
              rw [Prog.bind_of_ok hrs]
              rfl
            · intro e he
              rw [Prog.bind_of_err he]

/-- A discovery writes nothing, or sweeps the table with the first of the
advertisements it was answered. -/
theorem execute_cases (request : DiscoverPeerRequest) (s : App W) :
    let r := execute P.toPorts request s
    (∃ e, r.outcome = .err e ∧ Unwritten P s r) ∨
      ∃ l, (P.network.discoverPeers (seconds request.timeoutSecs) s.env).1 = .ok l ∧
        Sweeps P (l.take (min request.maxResults maxDiscovered)) s r := by
  intro r
  have hquiet : Quietly P s.env (P.network.discoverPeers (seconds request.timeoutSecs) s.env).2 :=
    Quietly.refl.reads (.discoverPeers _ _)
  have hr : r = execute P.toPorts request s := rfl
  rw [execute, Ports.discoverPeers, ask, Prog.call_bind] at hr
  dsimp only at hr
  cases hanswer : (P.network.discoverPeers (seconds request.timeoutSecs) s.env).1 with
  | error e =>
      left
      rw [hr, hanswer]
      refine ⟨_, rfl, hquiet.stored, ?_, hquiet.later⟩
      intro q hq
      simp [Prog.fail_bind] at hq
  | ok l =>
      right
      refine ⟨l, rfl, ?_⟩
      rw [hr, hanswer]
      obtain ⟨peers, hsweep, hsaves, hlater, hout⟩ :=
        storeAll_sweeps P (l.take (min request.maxResults maxDiscovered))
          { s with env := (P.network.discoverPeers (seconds request.timeoutSecs) s.env).2 }
      rw [hquiet.stored] at hsweep
      refine .intro peers hsweep ?_ (hquiet.later.trans hlater) hout
      intro fp
      rw [← hsaves fp]
      simp [SavesFor, Prog.pure_bind_run]

end DiscoverPeer

/-! ## What a sweep does to one record -/

namespace DiscoverPeer.Sweep

variable {t t' : PeerTable} {l : List DiscoveredPeer} {peers : List Peer} {fp : Fingerprint}

/-- The record of a fingerprint changes by writes of `saved` only. -/
theorem keeps {I : Option Peer → Prop} (h : Sweep t l peers t') (ht : t.Keyed)
    (hI : ∀ found peer now, peer ∈ peers → peer.fingerprint = fp → peer.status = .offline none →
      peer.verified = false → I found → I (some (saved found peer now))) (hstart : I (t fp)) :
    I (t' fp) := by
  induction h with
  | stop t l => exact hstart
  | @save t t' dp rest peer peers id built now hbuild _ ih =>
      obtain ⟨-, -, -, -, -, -, -, -, hstatus, hverified, -⟩ := PeerBuilder.build_ok hbuild
      refine ih (ht.put _) (fun found p now hp => hI found p now (List.mem_cons_of_mem _ hp)) ?_
      by_cases hfp : peer.fingerprint = fp
      · subst hfp
        have hput : (t.put (saved (t peer.fingerprint) peer now)) peer.fingerprint =
            some (saved (t peer.fingerprint) peer now) := by
          rw [PeerTable.put, if_pos (saved_fingerprint ht peer now).symm]
        rw [hput]
        exact hI _ peer now List.mem_cons_self rfl hstatus hverified hstart
      · rw [PeerTable.put_of_ne _ (by rw [saved_fingerprint ht]; exact Ne.symm hfp)]
        exact hstart

/-- A record of another fingerprint is not touched. -/
theorem of_ne (h : Sweep t l peers t') (ht : t.Keyed) (hne : ∀ p ∈ peers, p.fingerprint ≠ fp) :
    t' fp = t fp :=
  h.keeps ht (I := fun o => o = t fp) (fun _ peer _ hp hfp => absurd hfp (hne peer hp)) rfl

/-- A record that was there keeps its id. -/
theorem id_kept (h : Sweep t l peers t') (ht : t.Keyed) {p : Peer} (hp : t fp = some p) :
    ∃ p', t' fp = some p' ∧ p'.id = p.id := by
  refine h.keeps ht (I := fun o => ∃ p', o = some p' ∧ p'.id = p.id) ?_ ⟨p, hp, rfl⟩
  rintro _ peer now - - - - ⟨p', rfl, hid⟩
  exact ⟨_, rfl, hid⟩

/-- No record becomes verified, and none ceases to be. -/
theorem verified_kept (h : Sweep t l peers t') (ht : t.Keyed) :
    (t' fp).any Peer.verified = (t fp).any Peer.verified := by
  refine h.keeps ht (I := fun o => o.any Peer.verified = (t fp).any Peer.verified) ?_ rfl
  intro found peer now _ _ _ hverified hfound
  rw [← hfound]
  cases found with
  | none => exact hverified
  | some existing => rfl

/-- A record that is written goes offline, and forgets when it was seen. -/
theorem offline (h : Sweep t l peers t') (ht : t.Keyed) (hfp : ∃ p ∈ peers, p.fingerprint = fp) :
    ∃ p, t' fp = some p ∧ p.status = .offline none := by
  induction h with
  | stop t l =>
      obtain ⟨p, hp, -⟩ := hfp
      exact absurd hp List.not_mem_nil
  | @save t t' dp rest peer peers id built now hbuild hsweep ih =>
      obtain ⟨-, -, -, -, -, -, -, -, hstatus, -⟩ := PeerBuilder.build_ok hbuild
      by_cases hrest : ∃ p ∈ peers, p.fingerprint = fp
      · exact ih (ht.put _) hrest
      · -- the last advertisement of the fingerprint is this one
        push Not at hrest
        obtain ⟨p, hp, hpfp⟩ := hfp
        rcases List.mem_cons.mp hp with rfl | hp
        · rw [hsweep.of_ne (ht.put _) hrest, ← hpfp, PeerTable.put,
            if_pos (saved_fingerprint ht p now).symm]
          refine ⟨_, rfl, ?_⟩
          cases t p.fingerprint with
          | none => exact hstatus
          | some existing => rfl
        · exact absurd hpfp (hrest p hp)

/-- The peers are built from the advertisements the loop reaches. -/
theorem reached (h : Sweep t l peers t') :
    ∀ p ∈ peers, ∃ dp ∈ l.takeWhile accepted, dp.fingerprint = p.fingerprint := by
  induction h with
  | stop t l => exact fun p hp => absurd hp List.not_mem_nil
  | @save t t' dp rest peer peers id built now hbuild _ ih =>
      intro p hp
      rw [List.takeWhile_cons_of_pos (accepted_of_build hbuild)]
      rcases List.mem_cons.mp hp with rfl | hp
      · exact ⟨dp, List.mem_cons_self, (fingerprint_of_build hbuild).symm⟩
      · obtain ⟨dp', hdp', hfp⟩ := ih p hp
        exact ⟨dp', List.mem_cons_of_mem _ hdp', hfp⟩

/-- A sweep that got to the end made a peer of every advertisement. -/
theorem fingerprints (h : Sweep t l peers t') (hend : peers.length = l.length) :
    peers.map Peer.fingerprint = l.map DiscoveredPeer.fingerprint := by
  induction h with
  | stop t l => rw [List.length_eq_zero_iff.mp hend.symm]; rfl
  | save id built now hbuild _ ih =>
      rw [List.map_cons, List.map_cons, fingerprint_of_build hbuild]
      rw [ih (Nat.succ.inj hend)]

theorem accepted_of_end (h : Sweep t l peers t') (hend : peers.length = l.length) :
    ∀ dp ∈ l, accepted dp = true := by
  induction h with
  | stop t l =>
      rw [List.length_eq_zero_iff.mp hend.symm]
      intro dp hdp
      exact absurd hdp List.not_mem_nil
  | save id built now hbuild _ ih =>
      intro dp hdp
      rcases List.mem_cons.mp hdp with rfl | hdp
      · exact accepted_of_build hbuild
      · exact ih (Nat.succ.inj hend) dp hdp

/-- Peers that are new, and not twice in the list, are stored as built. -/
theorem stored_new (h : Sweep t l peers t') (ht : t.Keyed)
    (hnew : ∀ p ∈ peers, t p.fingerprint = none) (hdistinct : (peers.map Peer.fingerprint).Nodup) :
    ∀ p ∈ peers, t' p.fingerprint = some p := by
  induction h with
  | stop t l => exact fun p hp => absurd hp List.not_mem_nil
  | @save t t' dp rest peer peers id built now hbuild hsweep ih =>
      have hsaved : saved (t peer.fingerprint) peer now = peer := by
        rw [hnew peer List.mem_cons_self]
        rfl
      rw [hsaved] at hsweep ih
      rw [List.map_cons, List.nodup_cons] at hdistinct
      have hother : ∀ p ∈ peers, p.fingerprint ≠ peer.fingerprint :=
        fun p hp hfp => hdistinct.1 (hfp ▸ List.mem_map_of_mem hp)
      intro p hp
      rcases List.mem_cons.mp hp with rfl | hp
      · rw [hsweep.of_ne (ht.put p) hother]
        exact PeerTable.put_self t p
      · refine ih (ht.put peer) ?_ hdistinct.2 p hp
        intro p hp
        rw [PeerTable.put_of_ne t (hother p hp)]
        exact hnew p (List.mem_cons_of_mem _ hp)

/-- If every peer is stored under the id it was built with, and those ids are
new, then so are the peers, and none is twice in the list. -/
theorem new_of_ids (h : Sweep t l peers t') (ht : t.Keyed)
    (hunused : ∀ p ∈ peers, ∀ fp q, t fp = some q → q.id.toString ≠ p.id.toString)
    (hids : (peers.map (·.id.toString)).Nodup)
    (hstored : ∀ p ∈ peers, ∃ q, t' p.fingerprint = some q ∧ q.id.toString = p.id.toString) :
    (∀ p ∈ peers, t p.fingerprint = none) ∧ (peers.map Peer.fingerprint).Nodup := by
  induction h with
  | stop t l => exact ⟨fun p hp => absurd hp List.not_mem_nil, List.nodup_nil⟩
  | @save t t' dp rest peer peers id built now hbuild hsweep ih =>
      rw [List.map_cons, List.nodup_cons] at hids
      have hhead : t peer.fingerprint = none := by
        by_contra hfound
        obtain ⟨existing, hexisting⟩ := Option.ne_none_iff_exists'.mp hfound
        obtain ⟨q, hq, hqid⟩ := hstored peer List.mem_cons_self
        -- the record keeps the id it had, and that is not the new one
        obtain ⟨q', hq', hid⟩ := (Sweep.save id built now hbuild hsweep).id_kept ht hexisting
        rw [hq] at hq'
        cases hq'
        exact hunused peer List.mem_cons_self _ existing hexisting (by rw [← hid, hqid])
      have hsaved : saved (t peer.fingerprint) peer now = peer := by
        rw [hhead]
        rfl
      rw [hsaved] at hsweep ih
      obtain ⟨hnew, hdistinct⟩ := ih (ht.put peer) (fun p hp fp q hq => by
        by_cases hfp : fp = peer.fingerprint
        · rw [hfp, PeerTable.put_self] at hq
          cases hq
          intro hid
          exact hids.1 (hid ▸ List.mem_map_of_mem hp)
        · rw [PeerTable.put_of_ne t hfp] at hq
          exact hunused p (List.mem_cons_of_mem _ hp) fp q hq)
        hids.2 (fun p hp => hstored p (List.mem_cons_of_mem _ hp))
      have hother : ∀ p ∈ peers, p.fingerprint ≠ peer.fingerprint := by
        intro p hp hfp
        have hnone := hnew p hp
        rw [hfp, PeerTable.put_self] at hnone
        exact absurd hnone (by simp)
      constructor
      · intro p hp
        rcases List.mem_cons.mp hp with rfl | hp
        · exact hhead
        · rw [← PeerTable.put_of_ne t (hother p hp)]
          exact hnew p hp
      · rw [List.map_cons, List.nodup_cons]
        refine ⟨?_, hdistinct⟩
        intro hmem
        obtain ⟨p, hp, hfp⟩ := List.mem_map.mp hmem
        exact hother p hp hfp

end DiscoverPeer.Sweep

/-! ## Receiving -/

/-- The receiver keeps what every call that writes no peer keeps: it never
gets to its status update. -/
theorem ReceiveMessage.process_keeps [Chrono] {ports : Ports W} {I : App W → Prop}
    (hI : ∀ s w, ports.Reads s.env w → I s → I { s with env := w }) (incoming : IncomingMessage) :
    Prog.Keeps I (ReceiveMessage.process ports incoming) := by
  have hask : ∀ {ρ : Type} {ev : ρ → Call} {f : W → ρ × W}, (∀ w, ports.Reads w (f w).2) →
      Prog.Keeps I (ask ev f) := fun hf => .call fun s hs => hI s _ (hf s.env) hs
  have hdraw : ∀ {ρ : Type} {f : W → ρ × W}, (∀ w, ports.Reads w (f w).2) →
      Prog.Keeps I (draw f) := fun hf => .silent fun s hs => hI s _ (hf s.env) hs
  refine (hask (.loadPeer _)).bind ?_
  intro found
  refine (Prog.Keeps.orFail _ _).bind ?_
  intro sender?
  refine (Prog.Keeps.orFail _ _).bind ?_
  intro sender
  refine (hask (.isTrusted _)).bind ?_
  intro trusted
  split
  · refine (hask (.decryptFromPeer _ _)).bind ?_
    intro answer
    refine (Prog.Keeps.orFail _ _).bind ?_
    intro plaintext
    refine Prog.Keeps.bind_yields ?_ (ReceiveMessage.buildDelivered_throws _ _ _).yields
      fun _ habsurd => habsurd.elim
    refine (hdraw .newUuid).bind ?_
    intro id
    refine (hdraw .utcNow).bind ?_
    intro now
    exact (Prog.Keeps.orFail _ _).bind fun msg => (hdraw .utcNow).bind fun now => .orFail _ _
  · exact .fail _

end Rubix
