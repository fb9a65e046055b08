/-
# `Rubix.Application.PeerAnswers` — what the caller is told, and about whom

Both use cases that store peers answer with the peers they made, not with the
records they wrote.  For a new peer that is the same; for a known one the
record keeps its id, its name and the time it was first seen, and the answer
shows others.  Where new peers get new ids, the answers describe the records
exactly if no record was there before (`told_iff`).

A discovery fails as a whole at the first advertisement the builder rejects,
and what it answers for the others is lost.  It answers as if the rejected
ones had not been sent exactly if there are none among those it gets to
(`unsuppressed_iff`).
-/
import Rubix.Application.Blocking

namespace Rubix

variable {W : Type}

open Effect (Prog)

/-! ## Answers and records -/

section Told
variable [Chrono] (P : StoringPorts W)

/-- The response describes the record that `load_peer` would find. -/
def Told (s : App W) (response : PeerResponse) : Prop :=
  ∃ p, P.stored s.env p.fingerprint = some p ∧ response = .fromPeer p

/-- The responses show ids that differ from one another and from those of the
records that were there: a UUID is only drawn once. -/
structure NewIds (s : App W) (responses : List PeerResponse) : Prop where
  distinct : (responses.map (·.id)).Nodup
  unused : ∀ r ∈ responses, ∀ fp p, P.stored s.env fp = some p → p.id.toString ≠ r.id

section
variable {P}

/-- Responses about one fingerprint are about one record. -/
theorem fingerprint_of_fromPeer {p q : Peer} (h : PeerResponse.fromPeer p = .fromPeer q) :
    p.fingerprint = q.fingerprint :=
  Fingerprint.toFormattedString_injective (congrArg PeerResponse.fingerprint h)

theorem connect_told_iff {s : App W} {request : ConnectPeerRequest} {response : PeerResponse}
    (hok : (ConnectPeer.execute P.toPorts request s).outcome = .ok response)
    (hids : NewIds P s [response]) :
    Told P (ConnectPeer.execute P.toPorts request s).world response ↔
      ∀ p, ConnectPeer.connectsTo P.toPorts s request = some p →
        P.stored s.env p.fingerprint = none := by
  rcases ConnectPeer.execute_cases P request s with ⟨e, he, -⟩ | ⟨connected, hends, hstores⟩
  · exact absurd (hok.symm.trans he) (by simp)
  · obtain ⟨answer, -, t, now, w, -, -, hout, hwrote⟩ := hstores
    have hresponse : response = _ := Effect.Outcome.ok.inj (hok.symm.trans hout)
    have hfp := (ConnectPeer.saved_fingerprint (P.keyed s.env)
      (ConnectPeer.marked_fingerprint connected answer).symm t (P.utcNow w).1 now).trans
        (ConnectPeer.marked_fingerprint connected answer)
    generalize hsaved : ConnectPeer.saved (P.stored s.env connected.fingerprint)
      (ConnectPeer.marked connected answer) t (P.utcNow w).1 now = record at hfp hwrote
    have hrecord : P.stored (ConnectPeer.execute P.toPorts request s).world.env
        connected.fingerprint = some record := by
      rw [hwrote.stored, PeerTable.put, if_pos hfp.symm]
    simp only [hends, Option.some.injEq, forall_eq']
    cases hfound : P.stored s.env connected.fingerprint with
    | none =>
        rw [hfound] at hsaved hresponse
        exact iff_of_true ⟨record, hfp ▸ hrecord, hsaved ▸ hresponse⟩ rfl
    | some existing =>
        refine iff_of_false ?_ (by simp)
        rintro ⟨p, hp, hdescribes⟩
        rw [hfound] at hsaved hresponse
        -- the record is the one that was there, under the id it had
        have hpfp : p.fingerprint = connected.fingerprint := by
          rw [← ConnectPeer.marked_fingerprint connected answer]
          exact (fingerprint_of_fromPeer (hresponse.symm.trans hdescribes)).symm
        rw [hpfp, hrecord] at hp
        have hid : p.id = existing.id := by
          rw [← Option.some.inj hp, ← hsaved]
          exact ConnectPeer.saved_id existing _ _ _ _
        exact hids.unused response List.mem_cons_self _ existing hfound
          (by rw [hdescribes, ← hid]; rfl)

/-- The first advertisements of an answer, as many as the request and the hard
cap allow. -/
def taken (request : DiscoverPeerRequest) (l : List DiscoveredPeer) : List DiscoveredPeer :=
  l.take (min request.maxResults DiscoverPeer.maxDiscovered)

theorem discover_told_iff {s : App W} {request : DiscoverPeerRequest}
    {responses : List PeerResponse}
    (hok : (DiscoverPeer.execute P.toPorts request s).outcome = .ok responses)
    (hids : NewIds P s responses) :
    (∀ r ∈ responses, Told P (DiscoverPeer.execute P.toPorts request s).world r) ↔
      ∀ l, (P.network.discoverPeers (seconds request.timeoutSecs) s.env).1 = .ok l →
        ((taken request l).map DiscoveredPeer.fingerprint).Nodup ∧
          ∀ dp ∈ taken request l, P.stored s.env dp.fingerprint = none := by
  rcases DiscoverPeer.execute_cases P request s with ⟨e, he, -⟩ |
    ⟨l, hl, peers, hsweep, -, -, hend | ⟨e, he⟩⟩
  · exact absurd (hok.symm.trans he) (by simp)
  · obtain ⟨hout, hlen⟩ := hend
    cases Effect.Outcome.ok.inj (hok.symm.trans hout)
    have hfps := hsweep.fingerprints hlen
    have hnew : (∀ dp ∈ taken request l, P.stored s.env dp.fingerprint = none) ↔
        ∀ p ∈ peers, P.stored s.env p.fingerprint = none := by
      rw [← List.forall_mem_map (f := DiscoveredPeer.fingerprint)
        (P := fun fp => P.stored s.env fp = none), taken, ← hfps, List.forall_mem_map]
    simp only [hl, Except.ok.injEq, forall_eq', hnew]
    rw [taken, ← hfps]
    constructor
    · intro htold
      have hunused : ∀ p ∈ peers, ∀ fp q, P.stored s.env fp = some q →
          q.id.toString ≠ p.id.toString :=
        fun p hp => hids.unused _ (List.mem_map_of_mem hp)
      have hnodup : (peers.map (·.id.toString)).Nodup := by
        have hdistinct := hids.distinct
        rw [List.map_map] at hdistinct
        exact hdistinct
      have hstored : ∀ p ∈ peers, ∃ q, P.stored
          (DiscoverPeer.execute P.toPorts request s).world.env p.fingerprint = some q ∧
            q.id.toString = p.id.toString := by
        intro p hp
        obtain ⟨q, hq, hdescribes⟩ := htold _ (List.mem_map_of_mem hp)
        rw [← fingerprint_of_fromPeer hdescribes] at hq
        exact ⟨q, hq, congrArg PeerResponse.id hdescribes.symm⟩
      obtain ⟨hnone, hdistinct⟩ := hsweep.new_of_ids (P.keyed _) hunused hnodup hstored
      exact ⟨hdistinct, hnone⟩
    · rintro ⟨hdistinct, hnone⟩ r hr
      obtain ⟨p, hp, rfl⟩ := List.mem_map.mp hr
      exact ⟨p, hsweep.stored_new (P.keyed _) hnone hdistinct p hp, rfl⟩
  · exact absurd (hok.symm.trans he) (by simp)

end

/-- Where the ids of new peers are new, what the caller is told is what was
stored exactly if every peer stored was a new one. -/
theorem told_iff (s : App W) :
    (∀ request response, (ConnectPeer.execute P.toPorts request s).outcome = .ok response →
      NewIds P s [response] →
        (Told P (ConnectPeer.execute P.toPorts request s).world response ↔
          ∀ p, ConnectPeer.connectsTo P.toPorts s request = some p →
            P.stored s.env p.fingerprint = none)) ∧
      (∀ request responses, (DiscoverPeer.execute P.toPorts request s).outcome = .ok responses →
        NewIds P s responses →
          ((∀ r ∈ responses, Told P (DiscoverPeer.execute P.toPorts request s).world r) ↔
            ∀ l, (P.network.discoverPeers (seconds request.timeoutSecs) s.env).1 = .ok l →
              ((taken request l).map DiscoveredPeer.fingerprint).Nodup ∧
                ∀ dp ∈ taken request l, P.stored s.env dp.fingerprint = none)) :=
  ⟨fun _ _ => connect_told_iff, fun _ _ => discover_told_iff⟩

end Told

/-! ## Advertisements the builder rejects -/

/-- Two records of one peer, equal but for what is drawn when a record is made
or written: the id and the times. -/
structure Peer.Alike (p q : Peer) : Prop where
  fingerprint : p.fingerprint = q.fingerprint
  displayName : p.displayName = q.displayName
  ed25519Public : p.ed25519Public = q.ed25519Public
  x25519Public : p.x25519Public = q.x25519Public
  addresses : p.addresses = q.addresses
  status : p.status = q.status
  verified : p.verified = q.verified

/-- The same peers are stored. -/
def PeerTable.Alike (t t' : PeerTable) : Prop := ∀ fp, Option.Rel Peer.Alike (t fp) (t' fp)

namespace DiscoverPeer

theorem saved_alike {found found' : Option Peer} {p q : Peer}
    (hfound : Option.Rel Peer.Alike found found')
    (h : p.Alike q) (now now' : DateTime) : (saved found p now).Alike (saved found' q now') := by
  cases hfound with
  | none => exact h
  | some hexisting =>
      exact ⟨hexisting.fingerprint, hexisting.displayName, hexisting.ed25519Public,
        hexisting.x25519Public, h.addresses, rfl, hexisting.verified⟩

theorem build_alike {dp : DiscoveredPeer} {id id' : Uuid} {now now' : DateTime} {p q : Peer}
    (hp : (builder dp).build id now = .ok p) (hq : (builder dp).build id' now' = .ok q) :
    p.Alike q := by
  obtain ⟨hname, -, hfp, hed, hx, has, -, -, hstatus, hverified, -⟩ := PeerBuilder.build_ok hp
  obtain ⟨hname', -, hfp', hed', hx', has', -, -, hstatus', hverified', -⟩ := PeerBuilder.build_ok hq
  exact ⟨Option.some.inj (hfp.symm.trans hfp'), Option.some.inj (hname.symm.trans hname'),
    Option.some.inj (hed.symm.trans hed'), Option.some.inj (hx.symm.trans hx'), has.symm.trans has',
    hstatus.trans hstatus'.symm, hverified.trans hverified'.symm⟩

end DiscoverPeer

theorem PeerTable.Alike.put {t t' : PeerTable} (h : t.Alike t') {p q : Peer} (hpq : p.Alike q) :
    (t.put p).Alike (t'.put q) := by
  intro fp
  rw [PeerTable.put, PeerTable.put, ← hpq.fingerprint]
  split
  · exact .some hpq
  · exact h fp

/-- Two sweeps over one list, from tables with the same peers. -/
theorem DiscoverPeer.Sweep.alike {t t' u u' : PeerTable} {l : List DiscoveredPeer}
    {peers peers' : List Peer} (h : Sweep t l peers u) (h' : Sweep t' l peers' u')
    (hend : peers.length = l.length) (hend' : peers'.length = l.length) (ht : t.Alike t') :
    u.Alike u' := by
  induction h generalizing t' peers' with
  | stop t l =>
      rw [List.length_eq_zero_iff.mp hend.symm] at h' hend'
      cases h' with
      | stop => exact ht
  | @save t u dp rest peer peers id built now hbuild hsweep ih =>
      cases h' with
      | stop => exact absurd hend' (by simp)
      | @save _ _ _ _ peer' peers' id' built' now' hbuild' hsweep' =>
          have hpeer : peer.Alike peer' := build_alike hbuild hbuild'
          refine ih hsweep' (Nat.succ.inj hend) (Nat.succ.inj hend') (ht.put ?_)
          exact saved_alike (hpeer.fingerprint ▸ ht peer.fingerprint) hpeer now now'

/-- The first of a list are the first of those filtered, if they all pass. -/
theorem take_filter {α : Type} {p : α → Bool} {l : List α} {n : Nat}
    (h : ∀ a ∈ l.take n, p a = true) :
    (l.filter p).take n = l.take n := by
  induction l generalizing n with
  | nil => rfl
  | cons a l ih =>
      cases n with
      | zero => rfl
      | succ n =>
          rw [List.take_succ_cons] at h ⊢
          rw [List.filter_cons_of_pos (h a List.mem_cons_self), List.take_succ_cons,
            ih fun b hb => h b (List.mem_cons_of_mem _ hb)]

section Suppressed
variable [Chrono] (P : StoringPorts W)

/-- Two discoveries succeed, answer about the same peers in the same order,
and leave the same peers stored. -/
def SameDiscovery (request : DiscoverPeerRequest) (s s' : App W) : Prop :=
  let r := DiscoverPeer.execute P.toPorts request s
  let r' := DiscoverPeer.execute P.toPorts request s'
  ∃ responses responses', r.outcome = .ok responses ∧ r'.outcome = .ok responses' ∧
    responses.map (·.fingerprint) = responses'.map (·.fingerprint) ∧
      PeerTable.Alike (P.stored r.world.env) (P.stored r'.world.env)

/-- A persistence that answers every call. -/
structure NeverFails : Prop where
  loadPeer : ∀ fp w, ∃ r, (P.persistence.loadPeer fp w).1 = .ok r
  savePeer : ∀ p w, (P.persistence.savePeer p w).1 = .ok ()

variable {P}

omit [Chrono] in
theorem DiscoverPeer.store_ok (hP : NeverFails P) {peer : Peer}
    (h : peer.addresses.length ≤ maxPeerAddresses) (s : App W) :
    (DiscoverPeer.store P.toPorts peer s).outcome = .ok () := by
  have hsave : ∀ p (s : App W),
      ((P.savePeer p >>= fun saved => orPersistence saved : UseCase W Unit) s).outcome = .ok () := by
    intro p s
    rw [Ports.savePeer, ask, Prog.call_bind, hP.savePeer]
    rfl
  obtain ⟨found, hfound⟩ := hP.loadPeer peer.fingerprint s.env
  rw [store_eq, Ports.loadPeer, ask, Prog.call_bind, hfound]
  cases found with
  | none => exact hsave peer _
  | some existing =>
      show (update P.toPorts existing peer _).outcome = _
      rw [update_run P.toPorts _ h]
      exact hsave _ _

theorem DiscoverPeer.storeAll_ok (hP : NeverFails P) {l : List DiscoveredPeer}
    (h : ∀ dp ∈ l, accepted dp = true) (s : App W) :
    ∃ responses, (storeAll P.toPorts l s).outcome = .ok responses := by
  induction l generalizing s with
  | nil => exact ⟨[], rfl⟩
  | cons dp rest ih =>
      obtain ⟨peer, hpeer⟩ := build_of_accepted (h dp List.mem_cons_self) (P.newUuid s.env).1
        (P.utcNow (P.newUuid s.env).2).1
      have hbuild : (build P.toPorts (builder dp) s).outcome = .ok peer := by
        have hrun := build_run P.toPorts (builder dp) s
        dsimp only at hrun
        rw [hrun, hpeer]
        rfl
      have haddr : peer.addresses.length ≤ maxPeerAddresses :=
        (PeerBuilder.build_ok hpeer).2.2.2.2.2.2.1
      obtain ⟨responses, hrest⟩ := ih (fun dp' hdp' => h dp' (List.mem_cons_of_mem _ hdp'))
        (store P.toPorts peer (build P.toPorts (builder dp) s).world).world
      rw [storeAll_cons]
      exact ⟨.fromPeer peer :: responses,
        Prog.ok_bind hbuild (Prog.ok_bind (store_ok hP haddr _) (Prog.ok_bind hrest rfl))⟩

/-- A discovery whose advertisements are all accepted succeeds, if nothing
else fails. -/
theorem DiscoverPeer.execute_ok (hP : NeverFails P) {request : DiscoverPeerRequest} {s : App W}
    {l : List DiscoveredPeer}
    (hl : (P.network.discoverPeers (seconds request.timeoutSecs) s.env).1 = .ok l)
    (h : ∀ dp ∈ taken request l, accepted dp = true) :
    ∃ responses, (execute P.toPorts request s).outcome = .ok responses := by
  rw [execute, Ports.discoverPeers, ask, Prog.call_bind, hl]
  exact storeAll_ok hP h _

/-- What a successful discovery did: it swept the table to the end. -/
theorem DiscoverPeer.sweep_of_ok {request : DiscoverPeerRequest} {s : App W}
    {l : List DiscoveredPeer} {responses : List PeerResponse}
    (hl : (P.network.discoverPeers (seconds request.timeoutSecs) s.env).1 = .ok l)
    (hok : (execute P.toPorts request s).outcome = .ok responses) :
    ∃ peers, Sweep (P.stored s.env) (taken request l) peers
        (P.stored (execute P.toPorts request s).world.env) ∧
      peers.length = (taken request l).length ∧ responses = peers.map .fromPeer := by
  rcases execute_cases P request s with ⟨e, he, -⟩ |
    ⟨l', hl', peers, hsweep, -, -, ⟨hout, hlen⟩ | ⟨e, he⟩⟩
  · exact absurd (hok.symm.trans he) (by simp)
  · cases hl.symm.trans hl'
    exact ⟨peers, hsweep, hlen, Effect.Outcome.ok.inj (hok.symm.trans hout)⟩
  · exact absurd (hok.symm.trans he) (by simp)

/-- A discovery answers as if the advertisements the builder rejects had not
been sent exactly if there are none among those it gets to. -/
theorem unsuppressed_iff (hP : NeverFails P) {request : DiscoverPeerRequest} {s s' : App W}
    {l : List DiscoveredPeer} (hlen : l.length ≤ request.maxResults)
    (hl : (P.network.discoverPeers (seconds request.timeoutSecs) s.env).1 = .ok l)
    (hl' : (P.network.discoverPeers (seconds request.timeoutSecs) s'.env).1 =
      .ok (l.filter DiscoverPeer.accepted))
    (hstored : P.stored s'.env = P.stored s.env) :
    SameDiscovery P request s s' ↔
      ∀ dp ∈ l.take DiscoverPeer.maxDiscovered, DiscoverPeer.accepted dp = true := by
  have htaken : l.take DiscoverPeer.maxDiscovered = taken request l := by
    rw [taken, List.take_eq_take_iff]
    omega
  rw [htaken]
  constructor
  · rintro ⟨responses, -, hok, -⟩
    obtain ⟨peers, hsweep, hend, -⟩ := DiscoverPeer.sweep_of_ok hl hok
    exact hsweep.accepted_of_end hend
  · intro h
    obtain ⟨responses, hok⟩ := DiscoverPeer.execute_ok hP hl h
    have hsame : taken request (l.filter DiscoverPeer.accepted) = taken request l := take_filter h
    obtain ⟨responses', hok'⟩ := DiscoverPeer.execute_ok hP hl' (by rwa [hsame])
    obtain ⟨peers, hsweep, hend, rfl⟩ := DiscoverPeer.sweep_of_ok hl hok
    obtain ⟨peers', hsweep', hend', rfl⟩ := DiscoverPeer.sweep_of_ok hl' hok'
    rw [hsame, hstored] at hsweep'
    rw [hsame] at hend'
    refine ⟨_, _, hok, hok', ?_, hsweep.alike hsweep' hend hend' fun fp => ?_⟩
    · have hfps := congrArg (List.map Fingerprint.toFormattedString)
        ((hsweep.fingerprints hend).trans (hsweep'.fingerprints hend').symm)
      rw [List.map_map, List.map_map] at hfps ⊢
      exact hfps
    · cases P.stored s.env fp with
      | none => exact .none
      | some p => exact .some ⟨rfl, rfl, rfl, rfl, rfl, rfl, rfl⟩

end Suppressed

section
open Memory

/-- A network with one peer, to connect to and to discover, and what is stored
of it. -/
def around (stored : List Peer) : App Memory :=
  app { peers := stored
        connection := ⟨0, .ok (⟨⟨Vector.replicate 16 9⟩⟩, peer)⟩
        discovered := [Blocking.advertise peer]
        nextId := ⟨Vector.replicate 16 3⟩ }

/-- A peer not stored before is told as stored. -/
theorem told_new :
    (∃ response, (ConnectPeer.execute Memory.ports ConnectPeer.request (around [])).outcome =
        .ok response ∧
      Told Memory.storing (ConnectPeer.execute Memory.ports ConnectPeer.request (around [])).world
        response) ∧
      ∃ responses, (DiscoverPeer.execute Memory.ports {} (around [])).outcome = .ok responses ∧
        ∀ r ∈ responses, Told Memory.storing (DiscoverPeer.execute Memory.ports {} (around [])).world
          r := by
  have hunused : ∀ fp p, Memory.storing.stored (around []).env fp ≠ some p := by
    intro fp p hp
    exact absurd hp (by simp [Memory.storing, around, app, find])
  constructor
  · refine ⟨_, rfl, ((told_iff Memory.storing (around [])).1 _ _ rfl ⟨?_, ?_⟩).mpr ?_⟩
    · exact List.nodup_singleton _
    · intro _ _ fp p hp
      exact absurd hp (hunused fp p)
    · exact fun p _ => rfl
  · refine ⟨_, rfl, ((told_iff Memory.storing (around [])).2 _ _ rfl ⟨?_, ?_⟩).mpr ?_⟩
    · exact List.nodup_singleton _
    · intro _ _ fp p hp
      exact absurd hp (hunused fp p)
    · intro l hl
      cases hl
      exact ⟨List.nodup_singleton _, fun dp _ => rfl⟩

/-- The record of the example peer from an earlier session. -/
def known : Peer := { peer with id := ⟨Vector.replicate 16 4⟩ }

/-- A connection to a peer stored before, and a discovery of it, are told with
ids that no record has. -/
theorem known_peer_not_told :
    (∃ response, (ConnectPeer.execute Memory.ports ConnectPeer.request (around [known])).outcome =
        .ok response ∧
      ¬ Told Memory.storing
        (ConnectPeer.execute Memory.ports ConnectPeer.request (around [known])).world response) ∧
      ∃ r, (DiscoverPeer.execute Memory.ports {} (around [known])).outcome = .ok [r] ∧
        ¬ Told Memory.storing (DiscoverPeer.execute Memory.ports {} (around [known])).world r := by
  have hids : ∀ {m : Memory} {r : PeerResponse}, (∀ p ∈ m.peers, p.id.toString ≠ r.id) →
      ∀ {s : App Memory}, s.env = m → ¬ Told Memory.storing s r := by
    rintro m r hne s rfl ⟨p, hp, hr⟩
    exact hne p (List.mem_of_find?_eq_some hp) (congrArg PeerResponse.id hr).symm
  constructor
  · exact ⟨_, rfl, hids (by decide +kernel) rfl⟩
  · exact ⟨_, rfl, hids (by decide +kernel) rfl⟩

/-- A network on which the given advertisements are sent. -/
def sending (l : List DiscoveredPeer) : App Memory := app { discovered := l }

/-- An advertisement the builder takes, and one with too many addresses. -/
def honest : DiscoveredPeer := Blocking.advertise peer

def hostile : DiscoveredPeer :=
  { Blocking.advertise Blocking.stranger with addresses := List.replicate 11 address }

theorem storing_neverFails : NeverFails Memory.storing := ⟨fun _ _ => ⟨_, rfl⟩, fun _ _ => rfl⟩

/-- Two honest advertisers. -/
theorem honest_unsuppressed :
    SameDiscovery Memory.storing {} (sending [honest, Blocking.advertise Blocking.stranger])
      (sending [honest, Blocking.advertise Blocking.stranger]) :=
  (unsuppressed_iff storing_neverFails (l := [honest, Blocking.advertise Blocking.stranger])
    (by decide) rfl rfl rfl).mpr (by decide +kernel)

/-- The hostile advertiser comes first, and the honest one is not heard. -/
theorem hostile_suppresses :
    ¬ SameDiscovery Memory.storing {} (sending [hostile, honest])
      (sending ([hostile, honest].filter DiscoverPeer.accepted)) := by
  rintro ⟨responses, -, hok, -⟩
  have herr : (DiscoverPeer.execute Memory.ports {} (sending [hostile, honest])).outcome =
      .err .domain := by decide +kernel
  exact absurd (hok.symm.trans herr) (by simp)

end

end Rubix
