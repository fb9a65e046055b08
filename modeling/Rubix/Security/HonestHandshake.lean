/-
# `Rubix.Security.HonestHandshake` — every delivery of an honest handshake completes

With an exchange of the Noise library fixed, the two ends go through four
phases, whatever the order of the turns:

    opening     nothing is sent
    greeted     the initiator's message is out, and arrives in pieces
    answered    the responder has returned; its message arrives in pieces
    finished    the initiator has returned too

A turn either changes nothing or brings the pair closer to the last phase
(`moves`), and up to there some turn does (`progress`).
-/
import Rubix.Security.TwoParty

namespace Rubix.Security

open Effect (Prog)
open Runs

variable {S T : Type}

namespace Pair

section
variable (crypto : Crypto) (sides : Role → Side)

/-- A handshake of an end with the other, in a state of the Noise session. -/
def expecting (role : Role) (state : S) : NoiseHandshake S where
  state := state
  ourIdentity := (sides role).keys
  remoteFingerprint := some ((sides role.other).keys.fingerprint crypto)
  verifiedRemote := none

variable {snow : Snow S T} (caches : Caches)
  (x : snow.Exchange (sides .initiator).keys.x25519 (sides .responder).keys.x25519
    ((sides .initiator).payload crypto 0) ((sides .responder).payload crypto 1))

/-- The initiator before its first turn. -/
def greeting : End S T where
  wire := .new
  delivered := 0
  stage := .introducing (expecting crypto sides .initiator x.initiator₀)

/-- The initiator while it waits for the answer. -/
def asking (arrived : List (List UInt8)) (d : Nat) : End S T where
  wire := ⟨arrived, frame x.message₁, false, 1⟩
  delivered := d
  stage := .awaiting (expecting crypto sides .initiator x.initiator₁)

def initiatorDone (arrived : List (List UInt8)) : End S T where
  wire := ⟨arrived, frame x.message₁, false, 2⟩
  delivered := (frame x.message₂).length
  stage := .returned (.ok (x.initiatorTransport, (sides .responder).identity crypto 1))

/-- The responder while it waits for the greeting. -/
def listening (arrived : List (List UInt8)) (d : Nat) : End S T where
  wire := ⟨arrived, [], false, 0⟩
  delivered := d
  stage := .awaiting (expecting crypto sides .responder x.responder₀)

def responderDone (arrived : List (List UInt8)) : End S T where
  wire := ⟨arrived, frame x.message₂, false, 2⟩
  delivered := (frame x.message₁).length
  stage := .returned (.ok (x.responderTransport, (sides .initiator).identity crypto 0))

/-- Both ends before anything is sent. -/
def opening : Pair S T where
  caches := caches
  ends
    | .initiator => greeting crypto sides x
    | .responder => listening crypto sides x [] 0

inductive Phase (s : Pair S T) : Prop where
  | opening (hcaches : s.caches = caches)
      (hinitiator : s.ends .initiator = greeting crypto sides x)
      (hresponder : s.ends .responder = listening crypto sides x [] 0)
  | greeted (arrived : List (List UInt8)) (d : Nat) (hcaches : s.caches = caches)
      (hinitiator : s.ends .initiator = asking crypto sides x [] 0)
      (hresponder : s.ends .responder = listening crypto sides x arrived d)
      (hbuffers : (listening crypto sides x arrived d).Buffers (frame x.message₁))
  | answered (arrived behind : List (List UInt8)) (d : Nat)
      (hnew : (sides .responder).nonceKey crypto ∉ (s.caches.of .initiator).inner)
      (hinitiator : s.ends .initiator = asking crypto sides x arrived d)
      (hresponder : s.ends .responder = responderDone crypto sides x behind)
      (hbuffers : (asking crypto sides x arrived d).Buffers (frame x.message₂))
  | finished (behind behind' : List (List UInt8))
      (hinitiator : s.ends .initiator = initiatorDone crypto sides x behind)
      (hresponder : s.ends .responder = responderDone crypto sides x behind')

/-- How often an end still goes on. -/
def todo : Stage S T → Nat
  | .introducing _ => 2
  | .awaiting _ => 1
  | .returned _ => 0

/-- What is left of the handshake: the turns of the ends, and the bytes. -/
def remaining (s : Pair S T) : Nat :=
  todo (s.ends .initiator).stage + todo (s.ends .responder).stage +
    ((frame x.message₁).length - (s.ends .responder).delivered) +
    ((frame x.message₂).length - (s.ends .initiator).delivered)

/-- A turn that leads to a phase with less left. -/
def Closer (s : Pair S T) (turn : Turn) : Prop :=
  Phase crypto sides caches x (step crypto snow sides s turn) ∧
    remaining crypto sides x (step crypto snow sides s turn) < remaining crypto sides x s

end

/-- What an honest handshake can rely on. -/
structure Honest (crypto : Crypto) (sides : Role → Side) (caches : Caches) : Prop where
  signs : ∀ role, crypto.Signs (sides role).keys.ed25519
  /-- The initiator makes its payload close to when the responder verifies it. -/
  close_greeting : Close ((sides .initiator).utc 0) ((sides .responder).utc 0)
  /-- And the other way round. -/
  close_answer : Close ((sides .responder).utc 1) ((sides .initiator).utc 1)
  unseen : ∀ role, (sides role.other).nonceKey crypto ∉ (caches.of role).inner
  fresh : (sides .initiator).nonceKey crypto ≠ (sides .responder).nonceKey crypto

/-- The responder's nonce is still unseen when the initiator looks, though the
responder may have put the initiator's into the same cache. -/
theorem Honest.unseen_answer {crypto : Crypto} {sides : Role → Side} {caches : Caches}
    (honest : Honest crypto sides caches) (now : Instant) :
    (sides .responder).nonceKey crypto ∉ ((caches.set .responder
      ((caches.of .responder).checkAndInsert now ((sides .initiator).nonceKey crypto)).2).of
        .initiator).inner := by
  have hunseen := honest.unseen .initiator
  have hne : Role.initiator ≠ Role.responder := by decide
  rcases caches.of_set hne ((caches.of .responder).checkAndInsert now
    ((sides .initiator).nonceKey crypto)).2 with ⟨hset, hshared⟩ | hsame
  · rw [hset]
    intro hmem
    rcases Finset.mem_insert.mp (NonceCache.checkAndInsert_subset _ _ _ hmem) with heq | hmem
    · exact honest.fresh heq.symm
    · rw [hshared] at hmem
      exact hunseen hmem
  · rw [hsame]
    exact hunseen

section
variable {crypto : Crypto} {sides : Role → Side} {snow : Snow S T} {caches : Caches}
  {x : snow.Exchange (sides .initiator).keys.x25519 (sides .responder).keys.x25519
    ((sides .initiator).payload crypto 0) ((sides .responder).payload crypto 1)}
  {s : Pair S T}

theorem length_message₁ (x : snow.Exchange (sides .initiator).keys.x25519
    (sides .responder).keys.x25519 ((sides .initiator).payload crypto 0)
    ((sides .responder).payload crypto 1)) : x.message₁.length ≤ maxHandshakeMsgSize := by
  refine Nat.le_trans x.length₁ ?_
  rw [Side.payload, IdentityBindPayload.length_toBytes]
  decide

theorem length_message₂ (x : snow.Exchange (sides .initiator).keys.x25519
    (sides .responder).keys.x25519 ((sides .initiator).payload crypto 0)
    ((sides .responder).payload crypto 1)) : x.message₂.length ≤ maxHandshakeMsgSize := by
  refine Nat.le_trans x.length₂ ?_
  rw [Side.payload, IdentityBindPayload.length_toBytes]
  decide

/-! ## The turns that lead to the next phase -/

theorem opening_go (hcaches : s.caches = caches)
    (hinitiator : s.ends .initiator = greeting crypto sides x)
    (hresponder : s.ends .responder = listening crypto sides x [] 0) :
    Closer crypto sides caches x s (.go .initiator) := by
  have hrun : introduce ((sides .initiator).env crypto snow)
      (expecting crypto sides .initiator x.initiator₀)
      ⟨s.caches.of .initiator, (s.ends .initiator).wire⟩
      = ⟨.ok (expecting crypto sides .initiator x.initiator₁),
          ⟨s.caches.of .initiator, ⟨[], frame x.message₁, false, 1⟩⟩, []⟩ := by
    rw [hinitiator]
    exact introduce_run rfl x.write₁
  have hstep := step_introduce (congrArg End.stage hinitiator) hrun rfl
  have hinitiator' : (step crypto snow sides s (.go .initiator)).ends .initiator
      = asking crypto sides x [] 0 := by
    rw [hstep, advance_self, hinitiator]
    rfl
  have hresponder' : (step crypto snow sides s (.go .initiator)).ends .responder
      = listening crypto sides x [] 0 := by
    rw [hstep, advance_of_ne (by decide), hresponder]
  have hcaches' : (step crypto snow sides s (.go .initiator)).caches = caches := by
    rw [hstep, advance, Caches.set_of, hcaches]
  constructor
  · exact .greeted [] 0 hcaches' hinitiator' hresponder' ⟨rfl, Nat.zero_le _⟩
  · rw [remaining, remaining, hinitiator', hresponder', hinitiator, hresponder]
    simp [todo, greeting, asking, listening]

/-- The responder gets more of the first message. -/
theorem greeted_deliver {arrived : List (List UInt8)} {d n : Nat} (hcaches : s.caches = caches)
    (hinitiator : s.ends .initiator = asking crypto sides x [] 0)
    (hresponder : s.ends .responder = listening crypto sides x arrived d)
    (hbuffers : (listening crypto sides x arrived d).Buffers (frame x.message₁))
    (hn : (s.inFlight .responder).take n ≠ []) :
    Closer crypto sides caches x s (.deliver .responder n) := by
  have hout : (s.ends Role.responder.other).wire.written = frame x.message₁ :=
    congrArg (·.wire.written) hinitiator
  obtain ⟨chunk, hpos, hmore, hstep⟩ := step_deliver hout (hresponder ▸ hbuffers) hn
  rw [hresponder] at hmore
  have hle : d + chunk.length ≤ (frame x.message₁).length := hmore.delivered
  have hinitiator' : (step crypto snow sides s (.deliver .responder n)).ends .initiator
      = asking crypto sides x [] 0 := by
    rw [hstep, setEnd_of_ne (by decide), hinitiator]
  have hresponder' : (step crypto snow sides s (.deliver .responder n)).ends .responder
      = listening crypto sides x (arrived ++ [chunk]) (d + chunk.length) := by
    rw [hstep, setEnd_self, hresponder]
    rfl
  constructor
  · refine .greeted (arrived ++ [chunk]) (d + chunk.length) ?_ hinitiator' hresponder' hmore
    rw [hstep]
    exact hcaches
  · rw [remaining, remaining, hinitiator', hresponder', hinitiator, hresponder]
    simp only [asking, listening]
    omega

theorem greeted_go (honest : Honest crypto sides caches) {arrived : List (List UInt8)} {d : Nat}
    (hcaches : s.caches = caches) (hinitiator : s.ends .initiator = asking crypto sides x [] 0)
    (hresponder : s.ends .responder = listening crypto sides x arrived d)
    (hbuffers : (listening crypto sides x arrived d).Buffers (frame x.message₁))
    (hall : d = (frame x.message₁).length) :
    Closer crypto sides caches x s (.go .responder) := by
  let env := (sides .responder).env crypto snow
  let cache := (caches.of .responder).checkAndInsert (sides .responder).instant
    ((sides .initiator).nonceKey crypto)
  obtain ⟨rest, -, hreceive⟩ : ∃ rest, rest.flatten = [] ∧
      receive env (expecting crypto sides .responder x.responder₀)
        ⟨caches.of .responder, ⟨arrived, [], false, 0⟩⟩
        = ⟨.ok ((sides .initiator).payload crypto 0,
            expecting crypto sides .responder x.responder₁),
            ⟨caches.of .responder, ⟨rest, [], false, 0⟩⟩, []⟩ :=
    receive_run (length_message₁ x) (hbuffers.whole hall) x.read₁
  have hconclude : conclude .responder env
      ((sides .initiator).payload crypto 0, expecting crypto sides .responder x.responder₁)
      ⟨caches.of .responder, ⟨rest, [], false, 0⟩⟩
      = ⟨.ok (x.responderTransport, (sides .initiator).identity crypto 0),
          ⟨cache.2, ⟨rest, frame x.message₂, false, 2⟩⟩, []⟩ :=
    conclude_responder rfl (honest.signs .initiator) honest.close_greeting
      (honest.unseen .responder) rfl x.write₂ x.finished_responder x.transport_responder
  have hrun : (receive env (expecting crypto sides .responder x.responder₀) >>=
      conclude .responder env) ⟨s.caches.of .responder, (s.ends .responder).wire⟩
      = ⟨.ok (x.responderTransport, (sides .initiator).identity crypto 0),
          ⟨cache.2, ⟨rest, frame x.message₂, false, 2⟩⟩, []⟩ := by
    rw [hcaches, hresponder]
    exact (Prog.bind_of_silent hreceive _).trans hconclude
  have hstep := step_conclude (congrArg End.stage hresponder) hrun rfl
  have hinitiator' : (step crypto snow sides s (.go .responder)).ends .initiator
      = asking crypto sides x [] 0 := by
    rw [hstep, advance_of_ne (by decide), hinitiator]
  have hresponder' : (step crypto snow sides s (.go .responder)).ends .responder
      = responderDone crypto sides x rest := by
    rw [hstep, advance_self, hresponder, responderDone, ← hall]
    rfl
  have hcaches' : (step crypto snow sides s (.go .responder)).caches
      = caches.set .responder cache.2 := by
    rw [hstep, advance, hcaches]
  constructor
  · refine .answered [] rest 0 ?_ hinitiator' hresponder' ⟨rfl, Nat.zero_le _⟩
    rw [hcaches']
    exact honest.unseen_answer _
  · rw [remaining, remaining, hinitiator', hresponder', hinitiator, hresponder]
    simp only [todo, asking, listening, responderDone]
    omega

/-- The initiator gets more of the second message. -/
theorem answered_deliver {arrived behind : List (List UInt8)} {d n : Nat}
    (hnew : (sides .responder).nonceKey crypto ∉ (s.caches.of .initiator).inner)
    (hinitiator : s.ends .initiator = asking crypto sides x arrived d)
    (hresponder : s.ends .responder = responderDone crypto sides x behind)
    (hbuffers : (asking crypto sides x arrived d).Buffers (frame x.message₂))
    (hn : (s.inFlight .initiator).take n ≠ []) :
    Closer crypto sides caches x s (.deliver .initiator n) := by
  have hout : (s.ends Role.initiator.other).wire.written = frame x.message₂ :=
    congrArg (·.wire.written) hresponder
  obtain ⟨chunk, hpos, hmore, hstep⟩ := step_deliver hout (hinitiator ▸ hbuffers) hn
  rw [hinitiator] at hmore
  have hle : d + chunk.length ≤ (frame x.message₂).length := hmore.delivered
  have hinitiator' : (step crypto snow sides s (.deliver .initiator n)).ends .initiator
      = asking crypto sides x (arrived ++ [chunk]) (d + chunk.length) := by
    rw [hstep, setEnd_self, hinitiator]
    rfl
  have hresponder' : (step crypto snow sides s (.deliver .initiator n)).ends .responder
      = responderDone crypto sides x behind := by
    rw [hstep, setEnd_of_ne (by decide), hresponder]
  constructor
  · refine .answered (arrived ++ [chunk]) behind (d + chunk.length) ?_ hinitiator' hresponder' hmore
    rw [hstep]
    exact hnew
  · rw [remaining, remaining, hinitiator', hresponder', hinitiator, hresponder]
    simp only [asking]
    omega

theorem answered_go (honest : Honest crypto sides caches) {arrived behind : List (List UInt8)}
    {d : Nat} (hnew : (sides .responder).nonceKey crypto ∉ (s.caches.of .initiator).inner)
    (hinitiator : s.ends .initiator = asking crypto sides x arrived d)
    (hresponder : s.ends .responder = responderDone crypto sides x behind)
    (hbuffers : (asking crypto sides x arrived d).Buffers (frame x.message₂))
    (hall : d = (frame x.message₂).length) :
    Closer crypto sides caches x s (.go .initiator) := by
  let env := (sides .initiator).env crypto snow
  let cache := (s.caches.of .initiator).checkAndInsert (sides .initiator).instant
    ((sides .responder).nonceKey crypto)
  obtain ⟨rest, -, hreceive⟩ : ∃ rest, rest.flatten = [] ∧
      receive env (expecting crypto sides .initiator x.initiator₁)
        ⟨s.caches.of .initiator, ⟨arrived, frame x.message₁, false, 1⟩⟩
        = ⟨.ok ((sides .responder).payload crypto 1,
            expecting crypto sides .initiator x.initiator₂),
            ⟨s.caches.of .initiator, ⟨rest, frame x.message₁, false, 1⟩⟩, []⟩ :=
    receive_run (length_message₂ x) (hbuffers.whole hall) x.read₂
  have hconclude : conclude .initiator env
      ((sides .responder).payload crypto 1, expecting crypto sides .initiator x.initiator₂)
      ⟨s.caches.of .initiator, ⟨rest, frame x.message₁, false, 1⟩⟩
      = ⟨.ok (x.initiatorTransport, (sides .responder).identity crypto 1),
          ⟨cache.2, ⟨rest, frame x.message₁, false, 2⟩⟩, []⟩ :=
    conclude_initiator rfl (honest.signs .responder) honest.close_answer hnew
      x.finished_initiator x.transport_initiator
  have hrun : (receive env (expecting crypto sides .initiator x.initiator₁) >>=
      conclude .initiator env) ⟨s.caches.of .initiator, (s.ends .initiator).wire⟩
      = ⟨.ok (x.initiatorTransport, (sides .responder).identity crypto 1),
          ⟨cache.2, ⟨rest, frame x.message₁, false, 2⟩⟩, []⟩ := by
    rw [hinitiator]
    exact (Prog.bind_of_silent hreceive _).trans hconclude
  have hstep := step_conclude (congrArg End.stage hinitiator) hrun rfl
  have hinitiator' : (step crypto snow sides s (.go .initiator)).ends .initiator
      = initiatorDone crypto sides x rest := by
    rw [hstep, advance_self, hinitiator, initiatorDone, ← hall]
    rfl
  have hresponder' : (step crypto snow sides s (.go .initiator)).ends .responder
      = responderDone crypto sides x behind := by
    rw [hstep, advance_of_ne (by decide), hresponder]
  constructor
  · exact .finished rest behind hinitiator' hresponder'
  · rw [remaining, remaining, hinitiator', hresponder', hinitiator, hresponder]
    simp only [todo, asking, initiatorDone, responderDone]
    omega

/-! ## Every turn -/

/-- The initiator cannot go on while the responder has not answered. -/
theorem asking_waits (hinitiator : s.ends .initiator = asking crypto sides x [] 0) :
    step crypto snow sides s (.go .initiator) = s := by
  refine step_go_waits (congrArg End.stage hinitiator) (length_message₂ x) ?_ ?_
  · rw [hinitiator]
    exact ⟨rfl, Nat.zero_le _⟩
  · rw [hinitiator]
    exact frame_pos _

/-- Nor the responder while nothing has arrived. -/
theorem listening_waits (hresponder : s.ends .responder = listening crypto sides x [] 0) :
    step crypto snow sides s (.go .responder) = s := by
  refine step_go_waits (congrArg End.stage hresponder) (length_message₁ x) ?_ ?_
  · rw [hresponder]
    exact ⟨rfl, Nat.zero_le _⟩
  · rw [hresponder]
    exact frame_pos _

/-- A turn changes nothing or leads closer to the end. -/
theorem Phase.moves (honest : Honest crypto sides caches) (h : Phase crypto sides caches x s)
    (turn : Turn) :
    step crypto snow sides s turn = s ∨ Closer crypto sides caches x s turn := by
  cases h with
  | opening hcaches hinitiator hresponder =>
      have hgreeting : (s.ends Role.responder.other).wire.written = [] :=
        congrArg (·.wire.written) hinitiator
      have hanswer : (s.ends Role.initiator.other).wire.written = [] :=
        congrArg (·.wire.written) hresponder
      cases turn with
      | deliver role n =>
          cases role with
          | initiator => exact .inl (step_delivered hanswer (Nat.zero_le _) n)
          | responder => exact .inl (step_delivered hgreeting (Nat.zero_le _) n)
      | go role =>
          cases role with
          | initiator => exact .inr (opening_go hcaches hinitiator hresponder)
          | responder => exact .inl (listening_waits hresponder)
  | greeted arrived d hcaches hinitiator hresponder hbuffers =>
      have hanswer : (s.ends Role.initiator.other).wire.written = [] :=
        congrArg (·.wire.written) hresponder
      cases turn with
      | deliver role n =>
          cases role with
          | initiator => exact .inl (step_delivered hanswer (Nat.zero_le _) n)
          | responder =>
              by_cases hn : (s.inFlight .responder).take n = []
              · exact .inl (step_deliver_nothing hn)
              · exact .inr (greeted_deliver hcaches hinitiator hresponder hbuffers hn)
      | go role =>
          cases role with
          | initiator => exact .inl (asking_waits hinitiator)
          | responder =>
              rcases hbuffers.short_or_whole with hshort | hall
              · left
                rw [← hresponder] at hbuffers hshort
                exact step_go_waits (congrArg End.stage hresponder) (length_message₁ x) hbuffers
                  hshort
              · exact .inr (greeted_go honest hcaches hinitiator hresponder hbuffers hall)
  | answered arrived behind d hnew hinitiator hresponder hbuffers =>
      have hgreeting : (s.ends Role.responder.other).wire.written = frame x.message₁ :=
        congrArg (·.wire.written) hinitiator
      cases turn with
      | deliver role n =>
          cases role with
          | initiator =>
              by_cases hn : (s.inFlight .initiator).take n = []
              · exact .inl (step_deliver_nothing hn)
              · exact .inr (answered_deliver hnew hinitiator hresponder hbuffers hn)
          | responder =>
              left
              refine step_delivered hgreeting ?_ n
              rw [hresponder]
              exact Nat.le_refl _
      | go role =>
          cases role with
          | initiator =>
              rcases hbuffers.short_or_whole with hshort | hall
              · left
                rw [← hinitiator] at hbuffers hshort
                exact step_go_waits (congrArg End.stage hinitiator) (length_message₂ x) hbuffers
                  hshort
              · exact .inr (answered_go honest hnew hinitiator hresponder hbuffers hall)
          | responder => exact .inl (step_go_returned (congrArg End.stage hresponder))
  | finished behind behind' hinitiator hresponder =>
      have hgreeting : (s.ends Role.responder.other).wire.written = frame x.message₁ :=
        congrArg (·.wire.written) hinitiator
      have hanswer : (s.ends Role.initiator.other).wire.written = frame x.message₂ :=
        congrArg (·.wire.written) hresponder
      left
      cases turn with
      | deliver role n =>
          cases role with
          | initiator =>
              refine step_delivered hanswer ?_ n
              rw [hinitiator]
              exact Nat.le_refl _
          | responder =>
              refine step_delivered hgreeting ?_ n
              rw [hresponder]
              exact Nat.le_refl _
      | go role =>
          cases role with
          | initiator => exact step_go_returned (congrArg End.stage hinitiator)
          | responder => exact step_go_returned (congrArg End.stage hresponder)

/-- Short of the last phase some turn leads closer to it. -/
theorem Phase.progress (honest : Honest crypto sides caches) (h : Phase crypto sides caches x s) :
    Agreed crypto sides s ∨ ∃ turn, Closer crypto sides caches x s turn := by
  cases h with
  | opening hcaches hinitiator hresponder =>
      exact .inr ⟨_, opening_go hcaches hinitiator hresponder⟩
  | greeted arrived d hcaches hinitiator hresponder hbuffers =>
      right
      rcases hbuffers.short_or_whole with hshort | hall
      · refine ⟨_, greeted_deliver hcaches hinitiator hresponder hbuffers (inFlight_something ?_)⟩
        rw [Role.other, hinitiator, hresponder]
        exact hshort
      · exact ⟨_, greeted_go honest hcaches hinitiator hresponder hbuffers hall⟩
  | answered arrived behind d hnew hinitiator hresponder hbuffers =>
      right
      rcases hbuffers.short_or_whole with hshort | hall
      · refine ⟨_, answered_deliver hnew hinitiator hresponder hbuffers (inFlight_something ?_)⟩
        rw [Role.other, hinitiator, hresponder]
        exact hshort
      · exact ⟨_, answered_go honest hnew hinitiator hresponder hbuffers hall⟩
  | finished behind behind' hinitiator hresponder =>
      left
      intro role
      cases role with
      | initiator => exact ⟨_, _, congrArg End.stage hinitiator, rfl, rfl, rfl⟩
      | responder => exact ⟨_, _, congrArg End.stage hresponder, rfl, rfl, rfl⟩

theorem Phase.not_failed (h : Phase crypto sides caches x s) : ¬ Failed s := by
  rintro ⟨role, e, hfailed⟩
  cases h with
  | opening _ hinitiator hresponder | greeted _ _ _ hinitiator hresponder
  | answered _ _ _ _ hinitiator hresponder | finished _ _ hinitiator hresponder =>
      cases role with
      | initiator =>
          rw [hinitiator] at hfailed
          cases hfailed
      | responder =>
          rw [hresponder] at hfailed
          cases hfailed

theorem Phase.step (honest : Honest crypto sides caches) (h : Phase crypto sides caches x s)
    (turn : Turn) : Phase crypto sides caches x (step crypto snow sides s turn) := by
  rcases h.moves honest turn with hsame | hcloser
  · rw [hsame]
    exact h
  · exact hcloser.1

/-- A turn that changes something. -/
def Effective (crypto : Crypto) (snow : Snow S T) (sides : Role → Side) (s : Pair S T)
    (turn : Turn) : Prop := Pair.step crypto snow sides s turn ≠ s

theorem Closer.effective {turn : Turn} (h : Closer crypto sides caches x s turn) :
    Effective crypto snow sides s turn := by
  intro hsame
  have hless := h.2
  rw [hsame] at hless
  exact Nat.lt_irrefl _ hless

theorem Phase.length_le (honest : Honest crypto sides caches) {turns : List Turn}
    (h : Phase crypto sides caches x s)
    (hturns : Guarded (Pair.step crypto snow sides) (Effective crypto snow sides) turns s) :
    turns.length ≤ remaining crypto sides x s := by
  induction turns generalizing s with
  | nil => exact Nat.zero_le _
  | cons turn turns ih =>
      obtain ⟨heffective, hrest⟩ := guarded_cons.mp hturns
      obtain ⟨hphase, hless⟩ := (h.moves honest turn).resolve_left heffective
      have hlength := ih hphase hrest
      rw [List.length_cons]
      omega

end

/-- The handshake of two honest ends, for every order of turns: no end fails,
no more than some number of turns change anything, and where none does each
end has returned the identity of the other. -/
theorem honest_handshake (crypto : Crypto) (snow : Snow S T) (sides : Role → Side) (caches : Caches)
    (honest : Honest crypto sides caches)
    (hkk : snow.KK (sides .initiator).keys.x25519 (sides .responder).keys.x25519) :
    ∃ s bound, start crypto snow sides caches = .ok s ∧ ∀ turns,
      ¬ Failed (run (step crypto snow sides) turns s) ∧
      (Guarded (step crypto snow sides) (Effective crypto snow sides) turns s →
        turns.length ≤ bound) ∧
      ((∀ turn, ¬ Effective crypto snow sides (run (step crypto snow sides) turns s) turn) →
        Agreed crypto sides (run (step crypto snow sides) turns s)) := by
  have hfits : ∀ (side : Side) (reading : Nat),
      (side.payload crypto reading).length + 48 ≤ maxHandshakeMsgSize := by
    intro side reading
    rw [Side.payload, IdentityBindPayload.length_toBytes]
    decide
  obtain ⟨x⟩ := hkk ((sides .initiator).payload crypto 0) ((sides .responder).payload crypto 1)
    (hfits _ _) (hfits _ _)
  have hstart : start crypto snow sides caches = .ok (opening crypto sides caches x) := by
    rw [start, NoiseHandshake.newInitiatorWithCache, x.build_initiator,
      NoiseHandshake.newResponderWithCache, x.build_responder]
    rfl
  have hopening : Phase crypto sides caches x (opening crypto sides caches x) :=
    .opening rfl rfl rfl
  refine ⟨opening crypto sides caches x, remaining crypto sides x (opening crypto sides caches x),
    hstart, ?_⟩
  intro turns
  have hphase : Phase crypto sides caches x
      (run (step crypto snow sides) turns (opening crypto sides caches x)) :=
    (always_of_invariant hopening (fun _ turn h => h.step honest turn) turns).last
  refine ⟨hphase.not_failed, hopening.length_le honest, ?_⟩
  intro hstuck
  rcases hphase.progress honest with hagreed | ⟨turn, hcloser⟩
  · exact hagreed
  · exact absurd hcloser.effective (hstuck turn)

/-! ## Alice and Bob -/

section
open Idealized

/-- Alice's handshake with Bob, half a minute behind his clock. -/
def aliceAndBob : Role → Side
  | .initiator => ⟨alice, fun _ => second 0, 0, Vector.replicate 12 7⟩
  | .responder => ⟨bob, fun _ => second 30, 0, Vector.replicate 12 8⟩

theorem aliceAndBob_honest : Honest crypto aliceAndBob (.shared (.new 10000)) where
  signs role := by
    cases role with
    | initiator => exact signs_of_publicOf (by decide +kernel)
    | responder => exact signs_of_publicOf (by decide +kernel)
  close_greeting := ⟨by decide, by decide⟩
  close_answer := ⟨by decide, by decide⟩
  unseen _ := Finset.notMem_empty _
  fresh heq := absurd (congrArg Prod.snd heq) (by decide)

/-- The secret that both ends compute. -/
def sharedSecret : List UInt8 :=
  (Vector.zipWith (· ^^^ ·) alice.x25519.secret bob.x25519.pub).toList

theorem kk_aliceAndBob : snow.KK alice.x25519 bob.x25519 := by
  intro payload₁ payload₂ _ _
  have hlength : sharedSecret.length = 32 := Vector.length_toList
  have hbob : (Vector.zipWith (· ^^^ ·) bob.x25519.secret alice.x25519.pub).toList
      = sharedSecret := by decide +kernel
  have hbuild : snow.buildResponder bob.x25519.secret alice.x25519.pub
      = .ok ⟨sharedSecret, 0⟩ := by
    show Except.ok (⟨_, 0⟩ : Idealized.Session) = _
    rw [hbob]
  have hread : ∀ payload n, snow.readMessage ⟨sharedSecret, n⟩ (sharedSecret ++ payload)
      = .ok (payload, ⟨sharedSecret, n + 1⟩) := by
    intro payload n
    show (if (sharedSecret ++ payload).take 32 = sharedSecret then _ else _) = _
    rw [List.take_left' hlength, if_pos rfl, List.drop_left' hlength]
  refine ⟨{
    initiator₀ := ⟨sharedSecret, 0⟩
    responder₀ := ⟨sharedSecret, 0⟩
    message₁ := sharedSecret ++ payload₁
    initiator₁ := ⟨sharedSecret, 1⟩
    responder₁ := ⟨sharedSecret, 1⟩
    message₂ := sharedSecret ++ payload₂
    initiator₂ := ⟨sharedSecret, 2⟩
    responder₂ := ⟨sharedSecret, 2⟩
    initiatorTransport := ()
    responderTransport := ()
    build_initiator := rfl
    build_responder := hbuild
    write₁ := rfl
    read₁ := hread payload₁ 0
    write₂ := rfl
    read₂ := hread payload₂ 1
    finished_initiator := rfl
    finished_responder := rfl
    transport_initiator := rfl
    transport_responder := rfl
    length₁ := ?_
    length₂ := ?_ }⟩
  · rw [List.length_append, hlength]
    omega
  · rw [List.length_append, hlength]
    omega

theorem honest_handshake_aliceAndBob :
    ∃ s bound, start crypto snow aliceAndBob (.shared (.new 10000)) = .ok s ∧ ∀ turns,
      ¬ Failed (run (step crypto snow aliceAndBob) turns s) ∧
      (Guarded (step crypto snow aliceAndBob) (Effective crypto snow aliceAndBob) turns s →
        turns.length ≤ bound) ∧
      ((∀ turn, ¬ Effective crypto snow aliceAndBob
          (run (step crypto snow aliceAndBob) turns s) turn) →
        Agreed crypto aliceAndBob (run (step crypto snow aliceAndBob) turns s)) :=
  honest_handshake crypto snow aliceAndBob (.shared (.new 10000)) aliceAndBob_honest kk_aliceAndBob

end

end Pair
end Rubix.Security
