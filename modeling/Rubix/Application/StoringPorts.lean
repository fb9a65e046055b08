/-
# `Rubix.Application.StoringPorts` — ports that store what they are given

    StoringPorts   ports with a table of peers: `save_peer` puts a record in
                   it, `load_peer` reads it, nothing else touches it
    Quietly        some calls were made, none of which writes a peer
    Unwritten      a run wrote no peer
    Wrote          a run wrote one

A run that wrote a peer and went on quietly still only wrote that peer, so
what a use case does to the table is settled by its calls of `save_peer`
(`save_cases`).
-/
import Rubix.Application.Dto

namespace Rubix

variable {W : Type}

open Effect (Prog)

/-! ## Tables of peers -/

/-- One record a fingerprint. -/
abbrev PeerTable := Fingerprint → Option Peer

/-- Insert or replace the record of the peer's fingerprint. -/
def PeerTable.put (t : PeerTable) (p : Peer) : PeerTable :=
  fun fp => if fp = p.fingerprint then some p else t fp

@[simp] theorem PeerTable.put_self (t : PeerTable) (p : Peer) :
    t.put p p.fingerprint = some p := if_pos rfl

theorem PeerTable.put_of_ne (t : PeerTable) {p : Peer} {fp : Fingerprint} (h : fp ≠ p.fingerprint) :
    t.put p fp = t fp := if_neg h

/-- Every record stands under its own fingerprint. -/
def PeerTable.Keyed (t : PeerTable) : Prop := ∀ fp p, t fp = some p → p.fingerprint = fp

theorem PeerTable.Keyed.put {t : PeerTable} (h : t.Keyed) (p : Peer) : (t.put p).Keyed := by
  intro fp q hq
  by_cases hfp : fp = p.fingerprint
  · subst hfp
    rw [put_self] at hq
    exact congrArg Peer.fingerprint (Option.some.inj hq).symm
  · rw [put_of_ne t hfp] at hq
    exact h fp q hq

/-- Ports whose persistence stores what it is given: `stored` is its table of
peers, which the other ports do not touch. -/
structure StoringPorts (W : Type) extends Ports W where
  stored : W → Fingerprint → Option Peer
  stored_fingerprint : ∀ {w fp p}, stored w fp = some p → p.fingerprint = fp
  loadPeer_ok : ∀ {fp w r}, (persistence.loadPeer fp w).1 = .ok r → r = stored w fp
  loadPeer_stored : ∀ fp w, stored (persistence.loadPeer fp w).2 = stored w
  savePeer_ok : ∀ {p w}, (persistence.savePeer p w).1 = .ok () →
    stored (persistence.savePeer p w).2 =
      fun fp => if fp = p.fingerprint then some p else stored w fp
  savePeer_error : ∀ {p w e}, (persistence.savePeer p w).1 = .error e →
    stored (persistence.savePeer p w).2 = stored w
  updatePeerStatus_ok : ∀ {fp s w}, (persistence.updatePeerStatus fp s w).1 = .ok () →
    stored (persistence.updatePeerStatus fp s w).2 =
      fun fp' => if fp' = fp then (stored w fp).map fun p => { p with status := s } else stored w fp'
  updatePeerStatus_error : ∀ {fp s w e}, (persistence.updatePeerStatus fp s w).1 = .error e →
    stored (persistence.updatePeerStatus fp s w).2 = stored w
  saveMessage_stored : ∀ m w, stored (persistence.saveMessage m w).2 = stored w
  connect_stored : ∀ addr fp w, stored (network.connect addr fp w).2 = stored w
  discoverPeers_stored : ∀ d w, stored (network.discoverPeers d w).2 = stored w
  decryptFromPeer_stored : ∀ ct fp w, stored (security.decryptFromPeer ct fp w).2 = stored w
  isTrusted_stored : ∀ fp w, stored (trust.isTrusted fp w).2 = stored w
  notify_stored : ∀ fp t w, stored (notification.notifyMessageReceived fp t w).2 = stored w
  utcNow_stored : ∀ w, stored (utcNow w).2 = stored w
  newUuid_stored : ∀ w, stored (newUuid w).2 = stored w

theorem StoringPorts.keyed (P : StoringPorts W) (w : W) : PeerTable.Keyed (P.stored w) :=
  fun _ _ => P.stored_fingerprint

/-! ## Calls that write no peer -/

namespace Ports

variable (ports : Ports W)

/-- One call of a port that writes no peer, or a reading of the clock or of
the UUID generator. -/
inductive Reads : W → W → Prop
  | connect (addr : SocketAddr) (expected : Option Fingerprint) (w : W) :
      Reads w (ports.network.connect addr expected w).2
  | discoverPeers (d : Duration) (w : W) : Reads w (ports.network.discoverPeers d w).2
  | loadPeer (fp : Fingerprint) (w : W) : Reads w (ports.persistence.loadPeer fp w).2
  | isTrusted (fp : Fingerprint) (w : W) : Reads w (ports.trust.isTrusted fp w).2
  | decryptFromPeer (ct : List UInt8) (fp : Fingerprint) (w : W) :
      Reads w (ports.security.decryptFromPeer ct fp w).2
  | utcNow (w : W) : Reads w (ports.utcNow w).2
  | newUuid (w : W) : Reads w (ports.newUuid w).2

/-- `w'` comes after `w`: some calls that write no peer, and some that do. -/
inductive Later (w : W) : W → Prop
  | refl : Later w w
  | reads {w' w'' : W} : Later w w' → ports.Reads w' w'' → Later w w''
  | savePeer {w' : W} (p : Peer) : Later w w' → Later w (ports.persistence.savePeer p w').2

theorem Later.trans {ports : Ports W} {w w' w'' : W} (h : ports.Later w w')
    (h' : ports.Later w' w'') : ports.Later w w'' := by
  induction h' with
  | refl => exact h
  | reads _ hread ih => exact ih.reads hread
  | savePeer p _ ih => exact ih.savePeer p

end Ports

theorem StoringPorts.stored_of_reads (P : StoringPorts W) {w w' : W} (h : P.Reads w w') :
    P.stored w' = P.stored w := by
  cases h with
  | connect addr expected => exact P.connect_stored _ _ _
  | discoverPeers d => exact P.discoverPeers_stored _ _
  | loadPeer fp => exact P.loadPeer_stored _ _
  | isTrusted fp => exact P.isTrusted_stored _ _
  | decryptFromPeer ct fp => exact P.decryptFromPeer_stored _ _ _
  | utcNow => exact P.utcNow_stored _
  | newUuid => exact P.newUuid_stored _

/-- Storing ports whose clock never goes back, whatever is called. -/
structure TickingPorts (W : Type) extends StoringPorts W where
  reads_le : ∀ {w w'}, toPorts.Reads w w' → (utcNow w).1 ≤ (utcNow w').1
  savePeer_le : ∀ p w, (utcNow w).1 ≤ (utcNow (persistence.savePeer p w).2).1

theorem TickingPorts.le_of_later {T : TickingPorts W} {w w' : W} (h : T.Later w w') :
    (T.utcNow w).1 ≤ (T.utcNow w').1 := by
  induction h with
  | refl => exact Int.le_refl _
  | reads _ hread ih => exact Int.le_trans ih (T.reads_le hread)
  | savePeer p _ ih => exact Int.le_trans ih (T.savePeer_le p _)

/-- `w'` comes after `w`, and no peer was written in between. -/
structure Quietly (P : StoringPorts W) (w w' : W) : Prop where
  stored : P.stored w' = P.stored w
  later : P.Later w w'

theorem Quietly.refl {P : StoringPorts W} {w : W} : Quietly P w w := ⟨rfl, .refl⟩

theorem Quietly.reads {P : StoringPorts W} {w w' w'' : W} (h : Quietly P w w')
    (hread : P.Reads w' w'') : Quietly P w w'' :=
  ⟨(P.stored_of_reads hread).trans h.stored, h.later.reads hread⟩

/-! ## What a run wrote -/

/-- A finished run of a use case. -/
abbrev UseCaseRun (W α : Type) : Type := Effect.Run (App W) Call ApplicationError Panic α

section Wrote
variable {α : Type} (P : StoringPorts W) (s : App W) (r : UseCaseRun W α)

/-- The run wrote no peer. -/
structure Unwritten : Prop where
  stored : P.stored r.world.env = P.stored s.env
  unsaved : ∀ q, Call.savePeer q (.ok ()) ∉ r.log
  later : P.Later s.env r.world.env

/-- The run wrote `p` and no other peer. -/
structure Wrote (p : Peer) : Prop where
  stored : P.stored r.world.env = PeerTable.put (P.stored s.env) p
  saved : ∀ q, Call.savePeer q (.ok ()) ∈ r.log ↔ q = p
  later : P.Later s.env r.world.env

end Wrote

section Save
variable {α : Type} {P : StoringPorts W} {s s' : App W} {r : UseCaseRun W α} {p : Peer}

/-- What a run ends in does not matter for what it wrote. -/
theorem Unwritten.of_eq {β : Type} {r' : UseCaseRun W β} (h : Unwritten P s r)
    (hworld : r'.world = r.world) (hlog : r'.log = r.log) : Unwritten P s r' where
  stored := by rw [hworld]; exact h.stored
  unsaved := by rw [hlog]; exact h.unsaved
  later := by rw [hworld]; exact h.later

/-- No call of the list saves a peer. -/
def Saveless (front : List Call) : Prop := ∀ q, Call.savePeer q (.ok ()) ∉ front

theorem saveless_nil : Saveless [] := fun _ => List.not_mem_nil

/-- What comes before a run and writes no peer. -/
theorem Unwritten.front {front : List Call} (h : Unwritten P s' r)
    (hquiet : Quietly P s.env s'.env) (hfront : Saveless front) :
    Unwritten P s ⟨r.outcome, r.world, front ++ r.log⟩ where
  stored := h.stored.trans hquiet.stored
  unsaved q hq := (List.mem_append.mp hq).elim (hfront q) (h.unsaved q)
  later := hquiet.later.trans h.later

theorem Wrote.front {front : List Call} (h : Wrote P s' r p)
    (hquiet : Quietly P s.env s'.env) (hfront : Saveless front) :
    Wrote P s ⟨r.outcome, r.world, front ++ r.log⟩ p where
  stored := h.stored.trans (by rw [hquiet.stored])
  saved q := by
    rw [List.mem_append, h.saved q]
    exact or_iff_right (hfront q)
  later := hquiet.later.trans h.later

/-- Saving a peer and answering: the save decides whether it is written. -/
theorem save_cases (P : StoringPorts W) (p : Peer) (a : α) (s : App W) :
    let r := (P.savePeer p >>= fun saved => orPersistence saved >>= fun _ => pure a : UseCase W α) s
    (∃ e, r.outcome = .err e ∧ Unwritten P s r) ∨ (r.outcome = .ok a ∧ Wrote P s r p) := by
  intro r
  have hlater : P.Later s.env (P.persistence.savePeer p s.env).2 := Ports.Later.refl.savePeer p
  cases hr : (P.persistence.savePeer p s.env).1 with
  | error e =>
      have hrun : r = ⟨.err .persistence, { s with env := (P.persistence.savePeer p s.env).2 },
          [.savePeer p (.error e)]⟩ := by
        show (P.savePeer p >>= _ : UseCase W α) s = _
        rw [Ports.savePeer, ask, Prog.call_bind, hr]
        rfl
      left
      rw [hrun]
      refine ⟨_, rfl, P.savePeer_error hr, ?_, hlater⟩
      intro q hq
      simp at hq
  | ok u =>
      have hrun : r = ⟨.ok a, { s with env := (P.persistence.savePeer p s.env).2 },
          [.savePeer p (.ok ())]⟩ := by
        show (P.savePeer p >>= _ : UseCase W α) s = _
        rw [Ports.savePeer, ask, Prog.call_bind, hr]
        rfl
      right
      rw [hrun]
      refine ⟨rfl, P.savePeer_ok hr, ?_, hlater⟩
      intro q
      simp

theorem orPersistence_unit (r : Except PersistenceError Unit) :
    (orPersistence r : UseCase W Unit) = orPersistence r >>= fun _ => pure () := by
  cases r with
  | ok u => rfl
  | error e => rfl

/-- The same, where saving is the end. -/
theorem saveOnly_cases (P : StoringPorts W) (p : Peer) (s : App W) :
    let r := (P.savePeer p >>= fun saved => orPersistence saved : UseCase W Unit) s
    (∃ e, r.outcome = .err e ∧ Unwritten P s r) ∨ (r.outcome = .ok () ∧ Wrote P s r p) := by
  have hsame : (P.savePeer p >>= orPersistence : UseCase W Unit) =
      P.savePeer p >>= fun saved => orPersistence saved >>= fun _ => pure () :=
    congrArg (P.savePeer p >>= ·) (funext orPersistence_unit)
  show let r := (P.savePeer p >>= orPersistence : UseCase W Unit) s; _
  rw [hsame]
  exact save_cases P p () s

end Save

end Rubix
