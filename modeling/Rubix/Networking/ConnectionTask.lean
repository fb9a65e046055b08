/-
# `Rubix.Networking.ConnectionTask` — the select loop of a connection

The task of a connected peer waits for whichever comes first, in this order:
its cancellation, an outgoing message, a received one.  Each turn of the loop
starts a `recv` of its own, and the branches that lose are dropped:

    event        the suspended decode                the loop
    cancel       dropped                             ends
    outgoing     dropped, with the bytes it read     goes on, if the send succeeds
    wake         polled                              goes on, unless the read or what
                                                     is done with the frame fails

What `decode` hands up stays in step with what the other side sent as long as
no outgoing message is taken while a decode is inside a frame (`intact`).
Otherwise the front of the frame is gone with the dropped decode, and the rest
of it is read as a frame of its own (`frame_misread`).
-/
import Rubix.Lib.Effect
import Rubix.Networking.Codec
import Rubix.Security.Keys

namespace Rubix.Networking

open Effect (Prog)

variable {W : Type}

/-- What the connection runs on. -/
structure Link (W : Type) where
  peerFingerprint : Fingerprint
  /-- `Transport::encrypt` and `decrypt` -/
  encrypt : List UInt8 → W → Security.SecurityResult (List UInt8) × W
  decrypt : List UInt8 → W → Security.SecurityResult (List UInt8) × W
  /-- `write_all` on the stream -/
  writeAll : List UInt8 → W → Except String Unit × W
  /-- `incoming_tx.send`: is there still a receiver? -/
  handOver : List UInt8 → W → Bool × W

/-- A panic carries its message. -/
abbrev Net (W α : Type) : Type := Prog W Empty NetworkError String α

namespace EncryptedConnection

/-- `map_err` on an encryption. -/
def encryptError (link : Link W) : Security.SecurityError → NetworkError
  | .transportClosed => .transportClosed link.peerFingerprint.toFormattedString
  | .messageTooLarge size max => .messageTooLarge size max
  | e => .encryptionFailed e.toString

/-- `map_err` on a decryption. -/
def decryptError (link : Link W) : Security.SecurityError → NetworkError
  | .transportClosed => .transportClosed link.peerFingerprint.toFormattedString
  | e => .decryptionFailed e.toString

/-- `EncryptedConnection::send` -/
def send (link : Link W) (data : List UInt8) : Net W Unit := do
  let encrypted ← Prog.silent (link.encrypt data)
  let encrypted ← Prog.orFail (encryptError link) encrypted
  if Encodable encrypted then do
    let written ← Prog.silent (link.writeAll (encode encrypted))
    Prog.orFail .sendFailed written
  else
    Prog.abort s!"frame size {encrypted.length} exceeds max {maxFrameSize}"

/-- `EncryptedConnection::recv`, from the frame that `decode` hands up on. -/
def decryptFrame (link : Link W) (encrypted : List UInt8) : Net W (List UInt8) := do
  let plaintext ← Prog.silent (link.decrypt encrypted)
  Prog.orFail (decryptError link) plaintext

end EncryptedConnection

open EncryptedConnection

/-! ## The loop -/

/-- The task, between two polls. -/
structure Task (W : Type) where
  socket : Socket
  decoding : Decoding
  /-- The payloads `decode` has handed up. -/
  payloads : List (List UInt8)
  running : Bool
  world : W

/-- A task that enters its loop. -/
def Task.start (w : W) : Task W where
  socket := ⟨[], none⟩
  decoding := .fresh
  payloads := []
  running := true
  world := w

/-- What happens to a task: bytes arrive, or the stream ends behind them; or
the task is polled, with the token cancelled, an outgoing message ready, or
neither. -/
inductive Event where
  | arrive (chunk : List UInt8)
  | hangUp (e : IoError)
  | cancel
  | outgoing (msg : List UInt8)
  | wake

/-- The `outgoing_rx` branch, after its future has won. -/
def takeOutgoing (link : Link W) (t : Task W) (msg : List UInt8) : Task W :=
  let r := send link msg t.world
  match r.outcome with
  | .ok () => { t with decoding := .fresh, world := r.world }
  | .err _ | .panic _ => { t with decoding := .fresh, world := r.world, running := false }

/-- The handler of a received frame: decrypt it, and pass the message on. -/
def takeFrame (link : Link W) (data : List UInt8) : Net W Bool := do
  let msg ← decryptFrame link data
  Prog.silent (link.handOver msg)

/-- The `conn.recv()` branch: a poll of the future it holds. -/
def pollRecv (link : Link W) (t : Task W) : Task W :=
  match poll t.decoding t.socket with
  | (.pending decoding, socket) => { t with decoding, socket }
  | (.ready (.error _), socket) => { t with decoding := .fresh, socket, running := false }
  | (.ready (.ok data), socket) =>
      let r := takeFrame link data t.world
      let t := { t with
        decoding := .fresh
        socket
        payloads := t.payloads ++ [data]
        world := r.world }
      match r.outcome with
      | .ok true => t
      | .ok false | .err _ | .panic _ => { t with running := false }

def step (link : Link W) (t : Task W) : Event → Task W
  | .arrive chunk => { t with socket := { t.socket with bytes := t.socket.bytes ++ chunk } }
  | .hangUp e => { t with socket := { t.socket with ending := some e } }
  | .cancel => { t with running := false }
  | .outgoing msg => if t.running then takeOutgoing link t msg else t
  | .wake => if t.running then pollRecv link t else t

def run (link : Link W) (events : List Event) (t : Task W) : Task W := events.foldl (step link) t

/-- The bytes that have arrived. -/
def arrived (events : List Event) : List UInt8 :=
  events.flatMap fun
    | .arrive chunk => chunk
    | _ => []

/-- At every moment, what was handed up is a front of what was sent. -/
def Intact (link : Link W) (sent : List (List UInt8)) (events : List Event) (t : Task W) : Prop :=
  ∀ before, before <+: events → (run link before t).payloads <+: sent

/-- An outgoing message is only taken, and sent, while no decode is inside a
frame. -/
def NeverCut (link : Link W) (events : List Event) (t : Task W) : Prop :=
  ∀ before msg, before ++ [.outgoing msg] <+: events →
    (run link before t).running = true →
      (send link msg (run link before t).world).outcome = .ok () →
        (run link before t).decoding = .fresh

/-- What a poll of the `conn.recv()` branch can do. -/
theorem pollRecv_cases (link : Link W) (t : Task W) :
    (∃ d socket, poll t.decoding t.socket = (.pending d, socket) ∧
      pollRecv link t = { t with decoding := d, socket }) ∨
    (∃ e socket, poll t.decoding t.socket = (.ready (.error e), socket) ∧
      pollRecv link t = { t with decoding := .fresh, socket, running := false }) ∨
    ∃ data, (poll t.decoding t.socket).1 = .ready (.ok data) ∧
      (pollRecv link t).decoding = .fresh ∧ (pollRecv link t).payloads = t.payloads ++ [data] := by
  rw [pollRecv]
  rcases poll t.decoding t.socket with ⟨result, socket⟩
  cases result with
  | pending d => exact .inl ⟨d, socket, rfl, rfl⟩
  | ready result =>
      cases result with
      | error e => exact .inr (.inl ⟨e, socket, rfl, rfl⟩)
      | ok data =>
          refine .inr (.inr ⟨data, rfl, ?_⟩)
          dsimp only
          split <;> exact ⟨rfl, rfl⟩

theorem pollRecv_wellFormed {link : Link W} {t : Task W} (h : t.decoding.WellFormed) :
    (pollRecv link t).decoding.WellFormed := by
  rcases pollRecv_cases link t with ⟨d, socket, hp, heq⟩ | ⟨e, socket, hp, heq⟩ | ⟨data, hp, hd, -⟩
  · have hreads := poll_reads h t.socket
    rw [hp] at hreads
    rw [heq]
    exact hreads.1
  · rw [heq]
    exact wellFormed_fresh
  · rw [hd]
    exact wellFormed_fresh

theorem pollRecv_payloads (link : Link W) (t : Task W) :
    t.payloads <+: (pollRecv link t).payloads := by
  rcases pollRecv_cases link t with ⟨d, socket, -, heq⟩ | ⟨e, socket, -, heq⟩ | ⟨data, -, -, hp⟩
  · exact heq ▸ List.prefix_rfl
  · exact heq ▸ List.prefix_rfl
  · rw [hp]
    exact List.prefix_append _ _

/-- Sending a message drops the decode, and reads nothing. -/
theorem takeOutgoing_drops (link : Link W) (t : Task W) (msg : List UInt8) :
    (takeOutgoing link t msg).decoding = .fresh ∧
      (takeOutgoing link t msg).payloads = t.payloads := by
  simp only [takeOutgoing]
  split <;> exact ⟨rfl, rfl⟩

theorem step_wellFormed {link : Link W} {t : Task W} {e : Event} (h : t.decoding.WellFormed) :
    (step link t e).decoding.WellFormed := by
  cases e with
  | arrive chunk => exact h
  | hangUp e => exact h
  | cancel => exact h
  | outgoing msg =>
      show (if t.running = true then takeOutgoing link t msg else t).decoding.WellFormed
      split
      · rw [(takeOutgoing_drops link t msg).1]
        exact wellFormed_fresh
      · exact h
  | wake =>
      show (if t.running = true then pollRecv link t else t).decoding.WellFormed
      split
      · exact pollRecv_wellFormed h
      · exact h

theorem step_payloads (link : Link W) (t : Task W) (e : Event) :
    t.payloads <+: (step link t e).payloads := by
  cases e with
  | arrive chunk => exact List.prefix_rfl
  | hangUp e => exact List.prefix_rfl
  | cancel => exact List.prefix_rfl
  | outgoing msg =>
      show t.payloads <+: (if t.running = true then takeOutgoing link t msg else t).payloads
      split
      · exact (takeOutgoing_drops link t msg).2 ▸ List.prefix_rfl
      · exact List.prefix_rfl
  | wake =>
      show t.payloads <+: (if t.running = true then pollRecv link t else t).payloads
      split
      · exact pollRecv_payloads link t
      · exact List.prefix_rfl

/-! ## What is read stays in step with what arrives -/

/-- Of the bytes that have arrived, the frames handed up are the front; while
the loop runs, the rest are those the decode has read and those it has not. -/
structure Aligned (bytes : List UInt8) (t : Task W) : Prop where
  wellFormed : t.decoding.WellFormed
  encodable : ∀ data ∈ t.payloads, Encodable data
  front : Framing.stream encode t.payloads <+: bytes
  rest : t.running = true →
    Framing.stream encode t.payloads ++ (t.decoding.consumed ++ t.socket.bytes) = bytes

section
variable {link : Link W} {bytes : List UInt8} {t : Task W}

theorem aligned_start (w : W) : Aligned [] (Task.start w) where
  wellFormed := wellFormed_fresh
  encodable _ h := absurd h List.not_mem_nil
  front := List.nil_prefix
  rest _ := rfl

theorem Aligned.stop (h : Aligned bytes t) : Aligned bytes { t with running := false } :=
  ⟨h.wellFormed, h.encodable, h.front, fun hrun => nomatch hrun⟩

theorem takeOutgoing_aligned (h : Aligned bytes t) {msg : List UInt8}
    (hfresh : (send link msg t.world).outcome = .ok () → t.decoding = .fresh) :
    Aligned bytes (takeOutgoing link t msg) := by
  simp only [takeOutgoing]
  split
  · next hsent =>
      have hdecoding := hfresh hsent
      refine ⟨wellFormed_fresh, h.encodable, h.front, fun hrun => ?_⟩
      have hrest := h.rest hrun
      rw [hdecoding] at hrest
      exact hrest
  · exact ⟨wellFormed_fresh, h.encodable, h.front, fun hrun => nomatch hrun⟩
  · exact ⟨wellFormed_fresh, h.encodable, h.front, fun hrun => nomatch hrun⟩

theorem pollRecv_aligned (h : Aligned bytes t) (hrun : t.running = true) :
    Aligned bytes (pollRecv link t) := by
  have hreads := poll_reads h.wellFormed t.socket
  have hrest := h.rest hrun
  rw [pollRecv]
  rcases hp : poll t.decoding t.socket with ⟨result, socket⟩
  rw [hp] at hreads
  cases result with
  | pending decoding =>
      obtain ⟨hwell, htaken⟩ := hreads
      refine ⟨hwell, h.encodable, h.front, ?_⟩
      intro _
      rw [htaken]
      exact hrest
  | ready result =>
      cases result with
      | error e => exact ⟨wellFormed_fresh, h.encodable, h.front, fun hrun => nomatch hrun⟩
      | ok data =>
          obtain ⟨hdata, htaken⟩ := hreads
          have hall : Framing.stream encode (t.payloads ++ [data]) ++ socket.bytes = bytes := by
            rw [Framing.stream_append, Framing.stream_singleton, List.append_assoc, htaken]
            exact hrest
          have hnext : Aligned bytes { t with
              decoding := .fresh
              socket
              payloads := t.payloads ++ [data]
              world := (takeFrame link data t.world).world } := by
            constructor
            · exact wellFormed_fresh
            · intro p hp
              rcases List.mem_append.mp hp with hp | hp
              · exact h.encodable p hp
              · exact List.mem_singleton.mp hp ▸ hdata
            · exact ⟨_, hall⟩
            · intro _
              exact hall
          dsimp only
          split
          · exact hnext
          · exact hnext.stop
          · exact hnext.stop
          · exact hnext.stop

/-- The bytes that one event brings. -/
theorem arrived_cons (e : Event) (events : List Event) :
    arrived (e :: events) = arrived [e] ++ arrived events := by
  simp only [arrived]
  rw [List.flatMap_cons, List.flatMap_singleton]

/-- A step that cuts no frame off. -/
def Harmless (link : Link W) (t : Task W) (e : Event) : Prop :=
  ∀ msg, e = .outgoing msg → t.running = true →
    (send link msg t.world).outcome = .ok () → t.decoding = .fresh

/-- An event that brings no bytes leaves the rest as it is. -/
theorem Aligned.quiet {e : Event} (harrived : arrived [e] = []) (h : Aligned bytes t) :
    Aligned (bytes ++ arrived [e]) t := by
  rw [harrived, List.append_nil]
  exact h

theorem step_aligned (h : Aligned bytes t) {e : Event}
    (hcut : Harmless link t e) : Aligned (bytes ++ arrived [e]) (step link t e) := by
  cases e with
  | arrive chunk =>
      have harrived : arrived [.arrive chunk] = chunk := List.flatMap_singleton ..
      rw [harrived]
      refine ⟨h.wellFormed, h.encodable, h.front.trans (List.prefix_append _ _), fun hrun => ?_⟩
      rw [← h.rest hrun]
      simp only [step, List.append_assoc]
  | hangUp e => exact .quiet rfl ⟨h.wellFormed, h.encodable, h.front, h.rest⟩
  | cancel => exact .quiet rfl h.stop
  | outgoing msg =>
      refine .quiet rfl ?_
      show Aligned bytes (if t.running = true then takeOutgoing link t msg else t)
      split
      · next hrun => exact takeOutgoing_aligned h (hcut msg rfl hrun)
      · exact h
  | wake =>
      refine .quiet rfl ?_
      show Aligned bytes (if t.running = true then pollRecv link t else t)
      split
      · next hrun => exact pollRecv_aligned h hrun
      · exact h

theorem neverCut_nil : NeverCut link [] t :=
  fun _ _ h => absurd (List.prefix_nil.mp h) (List.append_ne_nil_of_right_ne_nil _ (by simp))

theorem neverCut_cons {e : Event} {events : List Event} :
    NeverCut link (e :: events) t ↔ Harmless link t e ∧ NeverCut link events (step link t e) := by
  constructor
  · intro h
    constructor
    · rintro msg rfl
      exact h [] msg ⟨events, rfl⟩
    · intro before msg hbefore
      exact h (e :: before) msg ((List.prefix_cons_inj e).mpr hbefore)
  · rintro ⟨he, hevents⟩ before msg hbefore
    cases before with
    | nil =>
        obtain ⟨after, hafter⟩ := hbefore
        exact he msg (List.cons.inj hafter).1.symm
    | cons e' before =>
        obtain ⟨rfl, hrest⟩ := List.cons_prefix_cons.mp hbefore
        exact hevents before msg hrest

theorem run_aligned (h : Aligned bytes t) {events : List Event} (hcut : NeverCut link events t) :
    Aligned (bytes ++ arrived events) (run link events t) := by
  induction events generalizing bytes t with
  | nil =>
      rw [show arrived [] = [] from rfl, List.append_nil]
      exact h
  | cons e events ih =>
      obtain ⟨he, hcut'⟩ := neverCut_cons.mp hcut
      have hstep := step_aligned h he
      have hrun := ih hstep hcut'
      rw [arrived_cons, ← List.append_assoc]
      exact hrun

end

/-- While no outgoing message cuts a frame off, what `decode` hands up is at
every moment a front of what the other side encoded. -/
theorem intact (link : Link W) {sent : List (List UInt8)} {events : List Event} (w : W)
    (hsent : ∀ data ∈ sent, Encodable data)
    (harrived : arrived events <+: Framing.stream encode sent)
    (hcut : NeverCut link events (.start w)) : Intact link sent events (.start w) := by
  intro before hbefore
  have hcut' : NeverCut link before (.start w) :=
    fun front msg hfront => hcut front msg (hfront.trans hbefore)
  have haligned := run_aligned (aligned_start w) hcut'
  have hfront : arrived before <+: arrived events := by
    obtain ⟨after, rfl⟩ := hbefore
    exact ⟨arrived after, List.flatMap_append.symm⟩
  exact encode_selfDelimiting.isPrefix haligned.encodable hsent
    ((haligned.front.trans hfront).trans harrived)

/-! ## A frame that is cut -/

/-- A link that takes everything, and encrypts nothing. -/
def plainLink : Link Unit where
  peerFingerprint := ⟨Vector.replicate 20 0⟩
  encrypt data w := (.ok data, w)
  decrypt data w := (.ok data, w)
  writeAll _ w := (.ok (), w)
  handOver _ w := (true, w)

/-- A frame in two chunks, and an outgoing message after it. -/
def wholeFrame : List Event :=
  [.arrive [0, 0], .wake, .arrive [0, 1, 5], .wake, .outgoing [7]]

theorem intact_wholeFrame : Intact plainLink [[5]] wholeFrame (.start ()) := by
  refine intact plainLink () (by decide) ⟨[], rfl⟩ ?_
  rw [wholeFrame]
  refine neverCut_cons.mpr ⟨fun _ h => (nomatch h), neverCut_cons.mpr ⟨fun _ h => (nomatch h), ?_⟩⟩
  refine neverCut_cons.mpr ⟨fun _ h => (nomatch h), neverCut_cons.mpr ⟨fun _ h => (nomatch h), ?_⟩⟩
  exact neverCut_cons.mpr ⟨fun _ _ _ _ => rfl, neverCut_nil⟩

/-- A frame of four zero bytes, and an outgoing message after its header. -/
def cutFrame : List Event :=
  [.arrive [0, 0, 0, 4], .wake, .outgoing [7], .arrive [0, 0, 0, 0], .wake]

/-- The payload is read as the header of an empty frame. -/
theorem frame_misread :
    arrived cutFrame <+: Framing.stream encode [[0, 0, 0, 0]] ∧
      ¬ Intact plainLink [[0, 0, 0, 0]] cutFrame (.start ()) := by
  refine ⟨⟨[], rfl⟩, fun hintact => ?_⟩
  have hread := hintact _ (List.prefix_refl _)
  exact absurd hread (by decide)

end Rubix.Networking
