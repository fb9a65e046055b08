/-
# `Rubix.Security.TwoParty` — a handshake of two honest ends

Each end is its program, stopped where it has to wait for the other:

    initiator    introducing → awaiting → returned
    responder                  awaiting → returned

A turn lets an end go on, or delivers some of the bytes that the other has
written, and the turns come in any order.  Both messages are delivered in any
chunks, and the ends may share a nonce cache.  Whatever the turns are, no end
fails, there are only so many that change anything, and when none does both
ends have returned the identity of the other (`honest_handshake`).
-/
import Mathlib.Logic.Function.Basic
import Rubix.Lib.Runs
import Rubix.Security.Endpoint

namespace Rubix.Security

open Effect (Prog)
open Runs

variable {S T : Type}

/-! ## The Noise library between matching keys -/

/-- Two messages between an initiator and a responder. -/
structure Snow.Exchange (snow : Snow S T) (a b : X25519Keypair)
    (payload₁ payload₂ : List UInt8) where
  initiator₀ : S
  responder₀ : S
  message₁ : List UInt8
  initiator₁ : S
  responder₁ : S
  message₂ : List UInt8
  initiator₂ : S
  responder₂ : S
  initiatorTransport : T
  responderTransport : T
  build_initiator : snow.buildInitiator a.secret b.pub = .ok initiator₀
  build_responder : snow.buildResponder b.secret a.pub = .ok responder₀
  write₁ : snow.writeMessage initiator₀ payload₁ = .ok (message₁, initiator₁)
  read₁ : snow.readMessage responder₀ message₁ = .ok (payload₁, responder₁)
  write₂ : snow.writeMessage responder₁ payload₂ = .ok (message₂, responder₂)
  read₂ : snow.readMessage initiator₁ message₂ = .ok (payload₂, initiator₂)
  finished_initiator : snow.isHandshakeFinished initiator₂ = true
  finished_responder : snow.isHandshakeFinished responder₂ = true
  transport_initiator : snow.intoTransportMode initiator₂ = .ok initiatorTransport
  transport_responder : snow.intoTransportMode responder₂ = .ok responderTransport
  /-- an ephemeral key and an authentication tag -/
  length₁ : message₁.length ≤ payload₁.length + 48
  length₂ : message₂.length ≤ payload₂.length + 48

/-- The KK pattern succeeds between matching keys, and delivers the payloads
that fit a message. -/
def Snow.KK (snow : Snow S T) (a b : X25519Keypair) : Prop :=
  ∀ payload₁ payload₂, payload₁.length + 48 ≤ maxHandshakeMsgSize →
    payload₂.length + 48 ≤ maxHandshakeMsgSize → Nonempty (snow.Exchange a b payload₁ payload₂)

/-! ## Two ends and the bytes between them -/

def Role.other : Role → Role
  | .initiator => .responder
  | .responder => .initiator

/-- What an end does next. -/
inductive Stage (S T : Type) where
  | introducing (h : NoiseHandshake S)
  | awaiting (h : NoiseHandshake S)
  | returned (result : SecurityResult (T × VerifiedIdentity))

structure End (S T : Type) where
  wire : Wire
  /-- how many of the other end's bytes have arrived -/
  delivered : Nat
  stage : Stage S T

def End.arrive (e : End S T) (chunk : List UInt8) : End S T where
  wire := { e.wire with arrived := e.wire.arrived ++ [chunk] }
  delivered := e.delivered + chunk.length
  stage := e.stage

/-- An end that has not read yet has a front of what the other has written. -/
structure End.Buffers (e : End S T) (out : List UInt8) : Prop where
  arrived : e.wire.arrived.flatten = out.take e.delivered
  delivered : e.delivered ≤ out.length

theorem End.Buffers.short_or_whole {e : End S T} {out : List UInt8} (h : e.Buffers out) :
    e.delivered < out.length ∨ e.delivered = out.length := Nat.lt_or_eq_of_le h.delivered

/-- All of it has arrived. -/
theorem End.Buffers.whole {e : End S T} {out : List UInt8} (h : e.Buffers out)
    (hall : e.delivered = out.length) : e.wire.arrived.flatten = out := by
  rw [h.arrived, hall, List.take_length]

theorem End.Buffers.arrive {e : End S T} {out chunk : List UInt8} (h : e.Buffers out) {n : Nat}
    (hchunk : chunk = (out.drop e.delivered).take n) : (e.arrive chunk).Buffers out := by
  obtain ⟨harrived, hdelivered⟩ := h
  have hlength : chunk.length ≤ out.length - e.delivered := by
    rw [hchunk, List.length_take, List.length_drop]
    exact Nat.min_le_right _ _
  have hfront : chunk = (out.drop e.delivered).take chunk.length := by
    rw [hchunk, List.length_take, List.take_eq_take_iff]
    omega
  constructor
  · rw [End.arrive, List.flatten_append, harrived, List.flatten_singleton, List.take_add,
      ← hfront]
  · show e.delivered + chunk.length ≤ out.length
    omega

/-- The nonce caches of the ends: two, or one for both. -/
inductive Caches where
  | shared (cache : NonceCache)
  | separate (initiator responder : NonceCache)

namespace Caches

def of : Caches → Role → NonceCache
  | .shared cache, _ => cache
  | .separate cache _, .initiator => cache
  | .separate _ cache, .responder => cache

def set : Caches → Role → NonceCache → Caches
  | .shared _, _, cache => .shared cache
  | .separate _ responder, .initiator, cache => .separate cache responder
  | .separate initiator _, .responder, cache => .separate initiator cache

theorem set_of (caches : Caches) (role : Role) : caches.set role (caches.of role) = caches := by
  cases caches with
  | shared cache => rfl
  | separate initiator responder => cases role <;> rfl

/-- The cache of an end when the other has set its own. -/
theorem of_set (caches : Caches) {role role' : Role} (h : role' ≠ role) (cache : NonceCache) :
    ((caches.set role cache).of role' = cache ∧ caches.of role = caches.of role') ∨
      (caches.set role cache).of role' = caches.of role' := by
  cases caches with
  | shared _ => exact .inl ⟨rfl, rfl⟩
  | separate _ _ =>
      cases role <;> cases role'
      · exact absurd rfl h
      · exact .inr rfl
      · exact .inr rfl
      · exact absurd rfl h

end Caches

structure Pair (S T : Type) where
  caches : Caches
  ends : Role → End S T

inductive Turn where
  /-- The next bytes arrive at an end, at most `n` of them. -/
  | deliver (role : Role) (n : Nat)
  /-- An end goes on, if it does not have to wait. -/
  | go (role : Role)

/-- The rest of `perform_initiator_handshake` or `perform_responder_handshake`,
up to where the end waits next. -/
def proceed (env : Env Wire S T) (role : Role) : Stage S T → Option (Hs Wire (Stage S T))
  | .introducing h => some (introduce env h >>= fun h => pure (.awaiting h))
  | .awaiting h => some (receive env h >>= conclude role env >>= fun r => pure (.returned (.ok r)))
  | .returned _ => none

/-- `perform_initiator_handshake` is its stages one after the other. -/
theorem performInitiatorHandshake_eq (env : Env Wire S T) (h : NoiseHandshake S) :
    performInitiatorHandshake env h
      = introduce env h >>= fun h => receive env h >>= conclude .initiator env := rfl

/-- So is `perform_responder_handshake`, which has no first stage. -/
theorem performResponderHandshake_eq (env : Env Wire S T) (h : NoiseHandshake S) :
    performResponderHandshake env h = receive env h >>= conclude .responder env := rfl

/-- Where an end is after a run. -/
def stageAfter : Effect.Outcome SecurityError Empty (Stage S T) → Stage S T
  | .ok stage => stage
  | .err e => .returned (.error e)

namespace Pair

/-- Both handshakes, each constructed for the other end. -/
def start (crypto : Crypto) (snow : Snow S T) (sides : Role → Side) (caches : Caches) :
    SecurityResult (Pair S T) := do
  let initiator ← NoiseHandshake.newInitiatorWithCache snow (sides .initiator).keys
    ((sides .responder).keys.fingerprint crypto) (sides .responder).keys.x25519.pub
  let responder ← NoiseHandshake.newResponderWithCache snow (sides .responder).keys
    ((sides .initiator).keys.fingerprint crypto) (sides .initiator).keys.x25519.pub
  return {
    caches
    ends
      | .initiator => ⟨.new, 0, .introducing initiator⟩
      | .responder => ⟨.new, 0, .awaiting responder⟩ }

/-- What is on its way to an end. -/
def inFlight (s : Pair S T) (role : Role) : List UInt8 :=
  (s.ends role.other).wire.written.drop (s.ends role).delivered

def setEnd (s : Pair S T) (role : Role) (e : End S T) : Pair S T :=
  { s with ends := Function.update s.ends role e }

/-- An end has gone on, and left its cache so. -/
def advance (s : Pair S T) (role : Role) (cache : NonceCache) (e : End S T) : Pair S T where
  caches := s.caches.set role cache
  ends := Function.update s.ends role e

/-- A run of an end, which has not happened if it had to wait. -/
def settle (s : Pair S T) (role : Role)
    (r : Effect.Run (Node Wire) Empty SecurityError Empty (Stage S T)) : Pair S T :=
  if r.world.env.waiting then s
  else
    s.advance role r.world.nonceCache
      ⟨r.world.env, (s.ends role).delivered, stageAfter r.outcome⟩

def step (crypto : Crypto) (snow : Snow S T) (sides : Role → Side) (s : Pair S T) :
    Turn → Pair S T
  | .deliver role n =>
      let chunk := (s.inFlight role).take n
      if chunk = [] then s else s.setEnd role ((s.ends role).arrive chunk)
  | .go role =>
      match proceed ((sides role).env crypto snow) role (s.ends role).stage with
      | none => s
      | some program => s.settle role (program ⟨s.caches.of role, (s.ends role).wire⟩)

/-- Each end has returned the identity of the other. -/
def Agreed (crypto : Crypto) (sides : Role → Side) (s : Pair S T) : Prop :=
  ∀ role, ∃ transport v, (s.ends role).stage = .returned (.ok (transport, v)) ∧
    v.fingerprint = (sides role.other).keys.fingerprint crypto ∧
    v.ed25519Public = (sides role.other).keys.ed25519.pub ∧
    v.x25519Public = (sides role.other).keys.x25519.pub

/-- An end has failed. -/
def Failed (s : Pair S T) : Prop := ∃ role e, (s.ends role).stage = .returned (.error e)

section
variable {s : Pair S T} {role role' : Role} {e : End S T} {cache : NonceCache}

theorem setEnd_self : (s.setEnd role e).ends role = e := Function.update_self ..

theorem setEnd_of_ne (h : role' ≠ role) : (s.setEnd role e).ends role' = s.ends role' :=
  Function.update_of_ne h ..

theorem advance_self : (s.advance role cache e).ends role = e := Function.update_self ..

theorem advance_of_ne (h : role' ≠ role) : (s.advance role cache e).ends role' = s.ends role' :=
  Function.update_of_ne h ..

end

/-! ## What a turn does -/

section
variable {crypto : Crypto} {snow : Snow S T} {sides : Role → Side} {s : Pair S T} {role : Role}

/-- Nothing is delivered. -/
theorem step_deliver_nothing {n : Nat} (h : (s.inFlight role).take n = []) :
    step crypto snow sides s (.deliver role n) = s := if_pos h

theorem step_deliver {out : List UInt8} (hout : (s.ends role.other).wire.written = out)
    (hbuffers : (s.ends role).Buffers out) {n : Nat} (h : (s.inFlight role).take n ≠ []) :
    ∃ chunk, 0 < chunk.length ∧ ((s.ends role).arrive chunk).Buffers out ∧
      step crypto snow sides s (.deliver role n) = s.setEnd role ((s.ends role).arrive chunk) := by
  refine ⟨(s.inFlight role).take n, List.length_pos_iff.mpr h, hbuffers.arrive (n := n) ?_,
    if_neg h⟩
  rw [inFlight, hout]

/-- All that the other end has written has arrived. -/
theorem step_delivered {out : List UInt8} (hout : (s.ends role.other).wire.written = out)
    (h : out.length ≤ (s.ends role).delivered) (n : Nat) :
    step crypto snow sides s (.deliver role n) = s := by
  refine step_deliver_nothing ?_
  rw [inFlight, hout, List.drop_of_length_le h, List.take_nil]

theorem inFlight_something
    (h : (s.ends role).delivered < (s.ends role.other).wire.written.length) :
    (s.inFlight role).take 1 ≠ [] := by
  refine List.length_pos_iff.mp ?_
  rw [inFlight, List.length_take, List.length_drop]
  omega

theorem settle_goes {stage : Stage S T} {cache : NonceCache} {wire : Wire} {log : List Empty}
    (hgoes : wire.waiting = false) : s.settle role ⟨.ok stage, ⟨cache, wire⟩, log⟩
      = s.advance role cache ⟨wire, (s.ends role).delivered, stage⟩ := by
  rw [settle, hgoes, if_neg Bool.false_ne_true]
  rfl

theorem step_introduce {h h' : NoiseHandshake S} {cache : NonceCache} {wire : Wire}
    (hstage : (s.ends role).stage = .introducing h)
    (hrun : introduce ((sides role).env crypto snow) h ⟨s.caches.of role, (s.ends role).wire⟩
      = ⟨.ok h', ⟨cache, wire⟩, []⟩) (hgoes : wire.waiting = false) :
    step crypto snow sides s (.go role)
      = s.advance role cache ⟨wire, (s.ends role).delivered, .awaiting h'⟩ := by
  rw [step, hstage]
  dsimp only [proceed]
  rw [Prog.bind_of_silent hrun]
  exact settle_goes hgoes

theorem step_conclude {h : NoiseHandshake S} {r : T × VerifiedIdentity} {cache : NonceCache}
    {wire : Wire} (hstage : (s.ends role).stage = .awaiting h)
    (hrun : (receive ((sides role).env crypto snow) h >>=
      conclude role ((sides role).env crypto snow)) ⟨s.caches.of role, (s.ends role).wire⟩
      = ⟨.ok r, ⟨cache, wire⟩, []⟩) (hgoes : wire.waiting = false) :
    step crypto snow sides s (.go role)
      = s.advance role cache ⟨wire, (s.ends role).delivered, .returned (.ok r)⟩ := by
  rw [step, hstage]
  dsimp only [proceed]
  rw [Prog.bind_of_silent hrun]
  exact settle_goes hgoes

theorem step_go_returned {result : SecurityResult (T × VerifiedIdentity)}
    (h : (s.ends role).stage = .returned result) : step crypto snow sides s (.go role) = s := by
  rw [step, h]
  rfl

/-- A message that has not arrived as a whole. -/
theorem step_go_waits {h : NoiseHandshake S} {msg : List UInt8}
    (hstage : (s.ends role).stage = .awaiting h) (hmsg : msg.length ≤ maxHandshakeMsgSize)
    (hbuffers : (s.ends role).Buffers (frame msg))
    (hshort : (s.ends role).delivered < (frame msg).length) :
    step crypto snow sides s (.go role) = s := by
  let env := (sides role).env crypto snow
  let node : Node Wire := ⟨s.caches.of role, (s.ends role).wire⟩
  obtain ⟨e, herr, hwaiting⟩ : ∃ e, (receive env h node).outcome = .err e ∧
      (receive env h node).world.env.waiting = true :=
    receive_waits hmsg hbuffers.arrived hshort
  have hconclude : (receive env h >>= conclude role env) node
      = ⟨.err e, (receive env h node).world, (receive env h node).log⟩ :=
    Prog.bind_of_err herr _
  have hrun : (receive env h >>= conclude role env >>= fun r =>
      pure (.returned (.ok r) : Stage S T)) node
      = ⟨.err e, (receive env h node).world, (receive env h node).log⟩ := by
    rw [Prog.bind_run, hconclude]
  rw [step, hstage]
  show s.settle role ((receive env h >>= conclude role env >>= fun r =>
    pure (.returned (.ok r) : Stage S T)) node) = s
  rw [hrun, settle, hwaiting, if_pos rfl]

end

end Pair
end Rubix.Security
