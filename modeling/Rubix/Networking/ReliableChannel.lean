/-
# `Rubix.Networking.ReliableChannel` — messages that arrive

The network of `SecureChannel` may do anything.  One that loses nothing and
adds nothing delivers: if the bytes that arrive at an end are those the other
end has written, in any chunks and at any time, then the task there passes on
every message, in order, once it was polled often enough (`delivered`).

    the sending end      every message fits a Noise message, the task still runs
    the receiving end    is not cancelled, sends nothing while it is inside a frame
    the stream           is not closed while the frames are read, and takes all writes
    the application      takes each message at once, as `incoming_tx` has a slot for it

The cipher is not assumed to be unforgeable here: between two honest ends no
frame fails to open.
-/
import Rubix.Networking.SecureChannel

namespace Rubix.Networking

open Effect (Prog)
open Security (SnowTransport Sealing CipherState counterSnow counterSealing_complete
  Transport.encrypt Transport.decrypt aeadTagSize noiseMaxMessage noiseMaxNonce)

variable {T O κ : Type}

/-! ## Inside a frame -/

/-- A poll on a stream that is open fails on a header over the limit only. -/
theorem poll_fails {d : Decoding} {s : Socket} (hending : s.ending = none) {e : NetworkError}
    (h : (poll d s).1 = .ready (.error e)) :
    ∃ got, d = .length got ∧ 4 ≤ (readExact 4 got s).1.length ∧
      maxFrameSize < Bytes.ofBe (readExact 4 got s).1 := by
  have hpayload : ∀ len got s, s.ending = none → (pollPayload len got s).1 ≠ .ready (.error e) := by
    intro len got s hending h
    simp only [pollPayload] at h
    split at h
    · have hsame : (readExact len got s).2.ending = none := hending
      simp only [short, hsame] at h
      cases h
    · cases h
  cases d with
  | length got =>
      refine ⟨got, rfl, ?_⟩
      simp only [poll] at h
      split at h
      · have hsame : (readExact 4 got s).2.ending = none := hending
        simp only [short, hsame] at h
        cases h
      · next hfour =>
          split at h
          · next hover => exact ⟨Nat.not_lt.mp hfour, hover⟩
          · exact absurd h (hpayload _ _ _ hending)
  | payload len got => exact absurd h (hpayload len got s hending)

/-- Inside a frame of an open stream a decode waits. -/
theorem poll_waits {d : Decoding} (hd : d.WellFormed) {s : Socket} (hending : s.ending = none)
    {data : List UInt8} (hdata : Encodable data) (hfront : d.consumed ++ s.bytes <+: encode data)
    (hne : d.consumed ++ s.bytes ≠ encode data) : ∃ d', (poll d s).1 = .pending d' := by
  cases hpoll : (poll d s).1 with
  | pending d' => exact ⟨d', rfl⟩
  | ready result =>
      cases result with
      | ok data' =>
          obtain ⟨other, hother, hwhole⟩ := (poll_ready_iff hd s).mp ⟨data', hpoll⟩
          obtain ⟨rest, hrest⟩ := hwhole.trans hfront
          have hsame : other = data := encode_selfDelimiting.settled hother hdata
            (y := []) (by rw [hrest, List.append_nil])
          subst hsame
          exact absurd (hfront.eq_of_length_le hwhole.length_le) hne
      | error e =>
          obtain ⟨got, rfl, hfour, hover⟩ := poll_fails hending hpoll
          have hgot : got.length ≤ 4 := Nat.le_of_lt hd
          rw [readExact_eq hgot] at hfour hover
          have hlong : 4 ≤ (got ++ s.bytes).length := Nat.le_trans hfour (List.length_take_le' _ _)
          obtain ⟨rest, hrest⟩ := hfront
          have hheader : (got ++ s.bytes).take 4 = Bytes.toBe 4 data.length := by
            have htake : ((got ++ s.bytes) ++ rest).take 4 = (encode data).take 4 :=
              congrArg (List.take 4) hrest
            rw [List.take_append_of_le_length hlong] at htake
            rw [htake, encode, List.take_left' (Bytes.length_toBe 4 _)]
          rw [hheader, ofBe_length hdata] at hover
          exact absurd hdata (Nat.not_le.mpr hover)

/-- A poll does not close the stream. -/
theorem poll_ending (d : Decoding) (s : Socket) : (poll d s).2.ending = s.ending := by
  have hpayload : ∀ len got s, (pollPayload len got s).2.ending = s.ending := by
    intro len got s
    simp only [pollPayload]
    split <;> rfl
  cases d with
  | length got =>
      simp only [poll]
      split
      · rfl
      · split
        · rfl
        · exact hpayload _ _ _
  | payload len got => exact hpayload len got s

/-! ## The sending end -/

/-- A stream that takes every byte, and an application that takes every
message. -/
structure Outside.Reliable (outside : Outside O) (written : O → List UInt8) : Prop where
  writes : ∀ bytes o, ∃ o', outside.writeAll bytes o = (.ok (), o') ∧
    written o' = written o ++ bytes
  takes : ∀ msg o, ∃ o', outside.handOver msg o = (true, o') ∧ written o' = written o

namespace EndTask

section
variable {snow : SnowTransport T} {outside : Outside O} (peer : Fingerprint)
  {written : O → List UInt8} {t : EndTask T O}

/-- On a reliable stream a frame is written, or it is over the limit of the
codec. -/
theorem send_reliable (hreliable : outside.Reliable written) {msg frame : List UInt8} {t' : T}
    {w : Station T O × List (List UInt8)}
    (h : Transport.encrypt snow msg w.1.transport = (.ok frame, t')) :
    let r := EncryptedConnection.send (Station.link snow outside peer).recording msg w
    (Encodable frame ∧ r.outcome = .ok () ∧
        written r.world.1.outside = written w.1.outside ++ encode frame) ∨
      ¬ Encodable frame ∧ ∃ p, r.outcome = .panic p := by
  simp only [EncryptedConnection.send, Prog.silent_bind, Link.recording, Station.link, h,
    Prog.orFail_ok, Prog.pure_bind_run]
  by_cases hframe : Encodable frame
  · obtain ⟨o', hwrites, hwritten⟩ := hreliable.writes (encode frame) w.1.outside
    rw [if_pos hframe, Prog.silent_bind, hwrites]
    exact .inl ⟨hframe, rfl, hwritten⟩
  · rw [if_neg hframe]
    exact .inr ⟨hframe, _, rfl⟩

/-- While a task runs, its stream holds the frames it has made. -/
def Wrote (written : O → List UInt8) (t : EndTask T O) : Prop :=
  t.running = true →
    (∀ frame ∈ t.encrypted.map Prod.snd, Encodable frame) ∧
      written t.world.1.outside = Framing.stream encode (t.encrypted.map Prod.snd)

theorem step_wrote (hreliable : outside.Reliable written) (h : Wrote written t) (e : Event) :
    Wrote written (t.step snow outside peer e) := by
  cases e with
  | arrive chunk => exact h
  | hangUp e => exact h
  | cancel =>
      intro hrunning
      cases hrunning
  | outgoing msg =>
      rw [step, Networking.step]
      split
      · next hrun =>
          rcases hencrypt : Transport.encrypt snow msg t.world.1.transport with ⟨result, t'⟩
          cases result with
          | error e =>
              obtain ⟨e', hsend⟩ := send_refused outside peer hencrypt
              simp only [takeOutgoing, hsend]
              intro hrunning
              cases hrunning
          | ok frame =>
              obtain ⟨-, hencrypted, -⟩ := send_encrypted outside peer hencrypt
              rcases send_reliable peer hreliable hencrypt with
                ⟨hframe, hok, hwritten⟩ | ⟨-, p, hpanic⟩
              · simp only [takeOutgoing, hok]
                intro _
                obtain ⟨hencodable, hstream⟩ := h hrun
                simp only [encrypted] at hencodable hstream ⊢
                rw [hencrypted, hwritten, hstream, List.map_append, Framing.stream_append]
                refine ⟨fun frame' hmem => ?_, ?_⟩
                · rcases List.mem_append.mp hmem with hmem | hmem
                  · exact hencodable frame' hmem
                  · exact List.mem_singleton.mp hmem ▸ hframe
                · rw [List.map_singleton, Framing.stream_singleton]
              · simp only [takeOutgoing, hpanic]
                intro hrunning
                cases hrunning
      · exact h
  | wake =>
      rw [step, Networking.step]
      split
      · next hrun =>
          rw [pollRecv]
          rcases hpoll : poll t.decoding t.socket with ⟨result, socket⟩
          cases result with
          | pending d => exact fun _ => h hrun
          | ready result =>
              cases result with
              | error e =>
                  intro hrunning
                  cases hrunning
              | ok frame =>
                  rcases takeFrame_does outside peer snow frame t.world with
                    ⟨e, t', -, e', htake⟩ | ⟨msg, t', -, taken, o, hhandOver, htake⟩
                  · simp only [htake]
                    intro hrunning
                    cases hrunning
                  · obtain ⟨o', htakes, hsame⟩ := hreliable.takes msg t.world.1.outside
                    rw [hhandOver] at htakes
                    obtain ⟨rfl, rfl⟩ := Prod.mk.inj htakes
                    simp only [htake]
                    intro _
                    obtain ⟨hencodable, hstream⟩ := h hrun
                    exact ⟨hencodable, hsame.trans hstream⟩
      · exact h

end

/-! ## The receiving end -/

section
variable {snow : SnowTransport T} (S : Sealing snow κ) (key : κ)

/-- The frames of a session's first messages. -/
def frames (msgs : List (List UInt8)) : List (List UInt8) :=
  msgs.mapIdx fun n msg => S.ciphertext ⟨key, n⟩ msg

/-- The task has read some frames of the session, and passed on what is in
them. -/
structure Receiving (msgs : List (List UInt8)) (bytes : List UInt8) (t : EndTask T O) : Prop where
  aligned : Aligned bytes t
  running : t.running = true
  ending : t.socket.ending = none
  counter : S.receiving t.transport = ⟨key, t.handed.length⟩
  front : t.handed <+: msgs
  payloads : t.payloads = frames S key t.handed

/-- A message that fits a Noise message. -/
def Fits (msg : List UInt8) : Prop := msg.length + aeadTagSize ≤ noiseMaxMessage

instance (msg : List UInt8) : Decidable (Fits msg) := Nat.decLe _ _

/-- An event that does not end the task: what is sent fits. -/
def Calm : Event → Prop
  | .arrive _ | .wake => True
  | .hangUp _ | .cancel => False
  | .outgoing msg => Fits msg

instance : (e : Event) → Decidable (Calm e)
  | .arrive _ => .isTrue trivial
  | .wake => .isTrue trivial
  | .hangUp _ => .isFalse id
  | .cancel => .isFalse id
  | .outgoing msg => inferInstanceAs (Decidable (Fits msg))

variable {S key} {outside : Outside O} {peer : Fingerprint} {written : O → List UInt8}
  {t : EndTask T O} {msgs : List (List UInt8)} {bytes : List UInt8}

theorem frames_concat (msgs : List (List UInt8)) (msg : List UInt8) :
    frames S key (msgs ++ [msg]) = frames S key msgs ++ [S.ciphertext ⟨key, msgs.length⟩ msg] :=
  List.mapIdx_concat

theorem frames_append (S : Sealing snow κ) (key : κ) (msgs rest : List (List UInt8)) :
    ∃ tail, frames S key (msgs ++ rest) = frames S key msgs ++ tail :=
  ⟨_, List.mapIdx_append⟩

/-- What a frame of the session holds that is not too long. -/
theorem encodable_ciphertext (hcomplete : S.Complete) {msg : List UInt8} (hfits : Fits msg)
    (c : CipherState κ) : Encodable (S.ciphertext c msg) := by
  rw [Encodable, hcomplete.length]
  exact Nat.le_trans hfits (by decide)

/-- Sending, while the task receives, leaves what it receives alone. -/
theorem Receiving.outgoing (hcomplete : S.Complete) (hreliable : outside.Reliable written)
    (h : Receiving S key msgs bytes t) {msg : List UInt8} (hfits : Fits msg)
    (hnonce : (S.sending t.transport).nonce < noiseMaxNonce)
    (haligned : Aligned bytes (t.step snow outside peer (.outgoing msg))) :
    Receiving S key msgs bytes (t.step snow outside peer (.outgoing msg)) ∧
      (S.sending (t.step snow outside peer (.outgoing msg)).transport).nonce
        = (S.sending t.transport).nonce + 1 := by
  obtain ⟨t', hencrypt, hsending, hreceiving⟩ := hcomplete.encrypt (t := t.transport) hfits hnonce
  have hbehind : _ ∧ _ ∧ _ := send_encrypted outside peer (w := t.world) hencrypt
  obtain ⟨htransport, -, hhanded⟩ := hbehind
  have hframe := encodable_ciphertext hcomplete hfits (S.sending t.transport)
  rcases send_reliable peer (w := t.world) hreliable hencrypt with
    ⟨-, hok, -⟩ | ⟨hlong, -⟩
  · have hstep : t.step snow outside peer (.outgoing msg)
        = { t with
            decoding := .fresh
            world := (EncryptedConnection.send (Station.link snow outside peer).recording msg
              t.world).world } := by
      rw [step, Networking.step, if_pos h.running]
      simp only [takeOutgoing, hok]
    rw [hstep] at haligned ⊢
    refine ⟨⟨haligned, h.running, h.ending, ?_, ?_, ?_⟩, ?_⟩
    · simp only [transport, handed]
      rw [htransport, hhanded, hreceiving]
      exact h.counter
    · simp only [handed]
      rw [hhanded]
      exact h.front
    · simp only [handed]
      rw [hhanded]
      exact h.payloads
    · simp only [transport]
      rw [htransport, hsending]
      rfl
  · exact absurd hframe hlong

/-- A poll finds the next frame of the session, or waits for the rest of it. -/
theorem Receiving.poll (hcomplete : S.Complete) (h : Receiving S key msgs bytes t)
    (hmsgs : ∀ msg ∈ msgs, Fits msg)
    (hbytes : bytes <+: Framing.stream encode (frames S key msgs)) :
    (∃ d, (Networking.poll t.decoding t.socket).1 = .pending d ∧
      (bytes = Framing.stream encode (frames S key msgs) → t.handed = msgs)) ∨
    ∃ msg, t.handed ++ [msg] <+: msgs ∧ (Networking.poll t.decoding t.socket).1
      = .ready (.ok (S.ciphertext ⟨key, t.handed.length⟩ msg)) := by
  obtain ⟨rest, hrest⟩ := h.front
  have hread := h.aligned.rest h.running
  rw [h.payloads] at hread
  cases rest with
  | nil =>
      -- the whole session has been read
      rw [List.append_nil] at hrest
      have hempty : t.decoding.consumed ++ t.socket.bytes = [] := by
        have hlength := hbytes.length_le
        rw [← hread, hrest, List.length_append] at hlength
        exact List.eq_nil_of_length_eq_zero (by omega)
      obtain ⟨d, hd⟩ : ∃ d, (Networking.poll t.decoding t.socket).1 = .pending d := by
        have hzero : Encodable [] := Nat.zero_le _
        refine poll_waits h.aligned.wellFormed h.ending hzero ?_ ?_
        · rw [hempty]
          exact List.nil_prefix
        · rw [hempty]
          exact nofun
      exact .inl ⟨d, hd, fun _ => hrest⟩
  | cons msg rest =>
      have hnext : msgs = (t.handed ++ [msg]) ++ rest := by
        rw [← hrest, List.append_assoc]
        rfl
      have hmem : msg ∈ msgs := by
        rw [← hrest]
        exact List.mem_append_right _ List.mem_cons_self
      have hframe := encodable_ciphertext hcomplete (hmsgs msg hmem) ⟨key, t.handed.length⟩
      obtain ⟨tail, htail⟩ := frames_append S key (t.handed ++ [msg]) rest
      have hstream : Framing.stream encode (frames S key msgs)
          = Framing.stream encode (frames S key t.handed) ++
            (encode (S.ciphertext ⟨key, t.handed.length⟩ msg) ++ Framing.stream encode tail) := by
        rw [hnext, htail, frames_concat, Framing.stream_append, Framing.stream_append,
          Framing.stream_singleton, List.append_assoc]
      have hbehind : t.decoding.consumed ++ t.socket.bytes <+:
          encode (S.ciphertext ⟨key, t.handed.length⟩ msg) ++ Framing.stream encode tail := by
        rw [← hread, hstream] at hbytes
        exact (List.prefix_append_right_inj _).mp hbytes
      by_cases hwhole : encode (S.ciphertext ⟨key, t.handed.length⟩ msg) <+:
          t.decoding.consumed ++ t.socket.bytes
      · obtain ⟨behind, hbehind⟩ := hwhole
        refine .inr ⟨msg, ⟨rest, hnext.symm⟩, ?_⟩
        rw [poll_whole h.aligned.wellFormed hframe hbehind.symm]
      · have hinside : t.decoding.consumed ++ t.socket.bytes <+:
            encode (S.ciphertext ⟨key, t.handed.length⟩ msg) :=
          (List.prefix_or_prefix_of_prefix hbehind (List.prefix_append _ _)).resolve_right hwhole
        obtain ⟨d, hd⟩ := poll_waits h.aligned.wellFormed h.ending hframe hinside
          fun heq => hwhole (heq ▸ List.prefix_rfl)
        refine .inl ⟨d, hd, fun hall => absurd ?_ hwhole⟩
        rw [← hread, hstream] at hall
        rw [List.append_cancel_left hall]
        exact List.prefix_append _ _

/-- A poll passes on the next message, or waits. -/
theorem Receiving.wake (hcomplete : S.Complete) (hreliable : outside.Reliable written)
    (h : Receiving S key msgs bytes t) (hmsgs : ∀ msg ∈ msgs, Fits msg)
    (hcount : msgs.length ≤ noiseMaxNonce)
    (hbytes : bytes <+: Framing.stream encode (frames S key msgs))
    (haligned : Aligned bytes (t.step snow outside peer .wake)) :
    Receiving S key msgs bytes (t.step snow outside peer .wake) ∧
      S.sending (t.step snow outside peer .wake).transport = S.sending t.transport ∧
      (bytes = Framing.stream encode (frames S key msgs) →
        (t.step snow outside peer .wake).handed = msgs ∨
          (t.step snow outside peer .wake).handed.length = t.handed.length + 1) := by
  have hending := poll_ending t.decoding t.socket
  have hstep : t.step snow outside peer .wake
      = pollRecv (Station.link snow outside peer).recording t := by
    rw [step, Networking.step, if_pos h.running]
  rcases hpoll : Networking.poll t.decoding t.socket with ⟨result, socket⟩
  rw [hpoll] at hending
  rcases h.poll hcomplete hmsgs hbytes with ⟨d, hd, hall⟩ | ⟨msg, hnext, hready⟩
  · rw [hpoll] at hd
    have hresult : result = .pending d := hd
    subst hresult
    have hsame : t.step snow outside peer .wake = { t with decoding := d, socket } := by
      rw [hstep, pollRecv, hpoll]
    rw [hsame] at haligned ⊢
    exact ⟨⟨haligned, h.running, hending.trans h.ending, h.counter, h.front, h.payloads⟩, rfl,
      fun hwhole => .inl (hall hwhole)⟩
  · rw [hpoll] at hready
    have hresult : result = .ready (.ok (S.ciphertext ⟨key, t.handed.length⟩ msg)) := hready
    subst hresult
    have hmem : msg ∈ msgs := hnext.subset (List.mem_append_right _ List.mem_cons_self)
    have hnonce : (S.receiving t.transport).nonce < noiseMaxNonce := by
      rw [h.counter]
      have hlength := hnext.length_le
      rw [List.length_append, List.length_singleton] at hlength
      exact Nat.lt_of_lt_of_le hlength hcount
    obtain ⟨t', hdecrypt, hreceiving, hsending⟩ := hcomplete.decrypt (hmsgs msg hmem) hnonce
    rw [h.counter] at hdecrypt hreceiving
    rcases takeFrame_does outside peer snow
        (S.ciphertext ⟨key, t.handed.length⟩ msg) t.world with
      ⟨e, t'', hfails, -⟩ | ⟨msg', t'', hok, taken, o, hhandOver, htake⟩
    · have hboth := hdecrypt.symm.trans hfails
      cases hboth
    · obtain ⟨hmsg, ht⟩ := Prod.mk.inj (hdecrypt.symm.trans hok)
      cases hmsg
      subst ht
      obtain ⟨o', htakes, -⟩ := hreliable.takes msg t.world.1.outside
      rw [hhandOver] at htakes
      obtain ⟨rfl, rfl⟩ := Prod.mk.inj htakes
      have hsame : t.step snow outside peer .wake
          = { t with
              decoding := .fresh
              socket
              payloads := t.payloads ++ [S.ciphertext ⟨key, t.handed.length⟩ msg]
              world :=
                ({ t.world.1 with transport := t', outside := o }, t.world.2 ++ [msg]) } := by
        rw [hstep, pollRecv, hpoll]
        simp only [htake]
        rfl
      rw [hsame] at haligned ⊢
      refine ⟨⟨haligned, h.running, hending.trans h.ending, ?_, hnext, ?_⟩, hsending,
        fun _ => .inr ?_⟩
      · simp only [transport, handed]
        rw [hreceiving, List.length_append]
        rfl
      · simp only [handed]
        rw [frames_concat, h.payloads]
        rfl
      · simp only [handed]
        rw [List.length_append]
        rfl

/-- Each event at an end that receives a session, and is left in peace. -/
theorem Receiving.step (hcomplete : S.Complete) (hreliable : outside.Reliable written)
    (h : Receiving S key msgs bytes t) (hmsgs : ∀ msg ∈ msgs, Fits msg)
    (hcount : msgs.length ≤ noiseMaxNonce) {e : Event} (hcalm : Calm e)
    (hcut : Harmless (Station.link snow outside peer).recording t e)
    (hbytes : bytes ++ arrived [e] <+: Framing.stream encode (frames S key msgs))
    (hspare : (S.sending t.transport).nonce + (given [e]).length ≤ noiseMaxNonce) :
    Receiving S key msgs (bytes ++ arrived [e]) (t.step snow outside peer e) ∧
      (S.sending (t.step snow outside peer e).transport).nonce
        = (S.sending t.transport).nonce + (given [e]).length := by
  have haligned := step_aligned h.aligned hcut
  cases e with
  | arrive chunk =>
      exact ⟨⟨haligned, h.running, h.ending, h.counter, h.front, h.payloads⟩, rfl⟩
  | hangUp e => exact hcalm.elim
  | cancel => exact hcalm.elim
  | outgoing msg =>
      have hnone : arrived [.outgoing msg] = [] := rfl
      rw [hnone, List.append_nil] at haligned ⊢
      exact h.outgoing hcomplete hreliable hcalm (Nat.lt_of_succ_le hspare) haligned
  | wake =>
      have hnone : arrived [.wake] = [] := rfl
      rw [hnone, List.append_nil] at haligned hbytes ⊢
      obtain ⟨hnext, hsending, -⟩ := h.wake hcomplete hreliable hmsgs hcount hbytes haligned
      refine ⟨hnext, ?_⟩
      rw [hsending]
      rfl

theorem given_cons (e : Event) (events : List Event) :
    given (e :: events) = given [e] ++ given events :=
  List.filterMap_append (l := [e])

/-- A whole run of such events. -/
theorem Receiving.run (hcomplete : S.Complete) (hreliable : outside.Reliable written)
    (hmsgs : ∀ msg ∈ msgs, Fits msg) (hcount : msgs.length ≤ noiseMaxNonce) {events : List Event}
    (h : Receiving S key msgs bytes t) (hcalm : ∀ e ∈ events, Calm e)
    (hcut : NeverCut (Station.link snow outside peer).recording events t)
    (hbytes : bytes ++ arrived events <+: Framing.stream encode (frames S key msgs))
    (hspare : (S.sending t.transport).nonce + (given events).length ≤ noiseMaxNonce) :
    Receiving S key msgs (bytes ++ arrived events)
      (Runs.run (EndTask.step snow outside peer) events t) := by
  induction events generalizing t bytes with
  | nil =>
      rw [show arrived [] = [] from rfl, List.append_nil]
      exact h
  | cons e events ih =>
      rw [arrived_cons, ← List.append_assoc] at hbytes ⊢
      rw [given_cons, List.length_append] at hspare
      obtain ⟨he, hrest⟩ := neverCut_cons.mp hcut
      obtain ⟨hnext, hnonce⟩ := h.step hcomplete hreliable hmsgs hcount
        (hcalm e List.mem_cons_self) he ((List.prefix_append _ _).trans hbytes) (by omega)
      rw [Runs.run_cons]
      exact ih hnext (fun e' h' => hcalm e' (List.mem_cons_of_mem _ h')) hrest hbytes (by omega)

/-- Polls at the end of the stream: so many messages more, until there are none. -/
theorem Receiving.polls (hcomplete : S.Complete) (hreliable : outside.Reliable written)
    (hmsgs : ∀ msg ∈ msgs, Fits msg) (hcount : msgs.length ≤ noiseMaxNonce)
    (h : Receiving S key msgs (Framing.stream encode (frames S key msgs)) t) (n : Nat)
    (hn : msgs.length ≤ t.handed.length + n) :
    (Runs.run (EndTask.step snow outside peer) (List.replicate n .wake) t).handed = msgs ∧
      (Runs.run (EndTask.step snow outside peer) (List.replicate n .wake) t).running = true := by
  induction n generalizing t with
  | zero => exact ⟨h.front.eq_of_length_le hn, h.running⟩
  | succ n ih =>
      rw [List.replicate_succ, Runs.run_cons]
      have haligned : Aligned _ (t.step snow outside peer .wake) :=
        step_aligned h.aligned fun msg hmsg => nomatch hmsg
      rw [show arrived [.wake] = [] from rfl, List.append_nil] at haligned
      obtain ⟨hnext, -, hmore⟩ := h.wake hcomplete hreliable hmsgs hcount List.prefix_rfl haligned
      refine ih hnext ?_
      rcases hmore rfl with hall | hone
      · rw [hall]
        exact Nat.le_add_right _ _
      · rw [hone]
        omega

end

/-! ## Both ends -/

section
variable {snow : SnowTransport T} {S : Sealing snow κ} {key : κ} {outside : Outside O}
  {peer : Fingerprint} {t receiver : EndTask T O}

/-- The sending end keeps its direction in step, whatever happens to it. -/
theorem inStep_run (h : InStep S key t receiver) (events : List Event) :
    InStep S key (Runs.run (EndTask.step snow outside peer) events t) receiver := by
  induction events generalizing t with
  | nil => exact h
  | cons e events ih => exact ih (h.send (step_does outside peer snow t e))

/-- What a sending end has made are the frames of the session. -/
theorem inStep_frames (h : InStep S key t receiver) :
    t.encrypted.map Prod.snd = frames S key (t.encrypted.map Prod.fst) := by
  refine List.ext_getElem? fun n => ?_
  rw [frames, List.getElem?_mapIdx, List.getElem?_map, List.getElem?_map]
  cases hpair : t.encrypted[n]? with
  | none => rfl
  | some pair => exact congrArg some (h.sealed n pair hpair)

/-- On a network that loses nothing and adds nothing every message arrives. -/
theorem delivered {outside' : Outside O} {peer' : Fingerprint} {written written' : O → List UInt8}
    {a b : T} {o o' : O} {sent events : List Event} (hcomplete : S.Complete)
    (hreliable : outside.Reliable written) (hreliable' : outside'.Reliable written')
    (hsending : S.sending a = ⟨key, 0⟩) (hreceiving : S.receiving b = ⟨key, 0⟩)
    (hown : (S.sending b).nonce = 0) (hempty : written o = [])
    (hfits : ∀ msg ∈ given sent, Fits msg) (hcount : (given sent).length ≤ noiseMaxNonce)
    (hrun : (Runs.run (EndTask.step snow outside peer) sent (start a o)).running = true)
    (harrived : arrived events
      = written (Runs.run (EndTask.step snow outside peer) sent (start a o)).world.1.outside)
    (hcalm : ∀ e ∈ events, Calm e) (hspare : (given events).length ≤ noiseMaxNonce)
    (hcut : NeverCut (Station.link snow outside' peer').recording events (start b o')) :
    (Runs.run (EndTask.step snow outside' peer')
        (events ++ List.replicate (given sent).length .wake) (start b o')).handed = given sent ∧
      (Runs.run (EndTask.step snow outside' peer')
        (events ++ List.replicate (given sent).length .wake) (start b o')).running = true := by
  have hinStep : InStep S key (start a o) (start b o') :=
    ⟨fun _ _ hp => (nomatch hp), fun _ => hsending, fun _ => hreceiving, List.nil_prefix⟩
  have hencrypted : (Runs.run (EndTask.step snow outside peer) sent
      (start a o)).encrypted.map Prod.fst = given sent := by
    rcases run_given outside peer snow (start a o) sent with
      hall | ⟨hstopped, -⟩
    · exact hall
    · rw [hrun] at hstopped
      cases hstopped
  have hwrote : Wrote written (Runs.run (EndTask.step snow outside peer) sent (start a o)) := by
    have hstart : Wrote written (start a o : EndTask T O) :=
      fun _ => ⟨fun _ h => (nomatch h), hempty⟩
    exact (Runs.always_of_invariant hstart (fun _ e h => step_wrote peer hreliable h e) sent).last
  have hstream : arrived events = Framing.stream encode (frames S key (given sent)) := by
    rw [harrived, (hwrote hrun).2, inStep_frames (inStep_run hinStep sent), hencrypted]
  have hfresh : Receiving S key (given sent) [] (start b o') :=
    ⟨aligned_start _, rfl, rfl, hreceiving, List.nil_prefix, rfl⟩
  have hmiddle := hfresh.run hcomplete hreliable' hfits hcount hcalm hcut
    (by rw [List.nil_append, hstream]) (by
      rw [show S.sending (start b o' : EndTask T O).transport = S.sending b from rfl, hown]
      omega)
  rw [List.nil_append, hstream] at hmiddle
  rw [Runs.run_append]
  exact hmiddle.polls hcomplete hreliable' hfits hcount _ (Nat.le_add_left _ _)

/-- Two messages, the bytes of which arrive in three chunks, and an answer in
between. -/
def twoMessages : List Event := [.outgoing [7], .outgoing []]

def threeChunks : List Event :=
  [.arrive (encode ([7] ++ Security.counterTag ⟨1, 0⟩)), .wake, .outgoing [8],
    .arrive ((encode (Security.counterTag ⟨1, 1⟩)).take 6), .wake,
    .arrive ((encode (Security.counterTag ⟨1, 1⟩)).drop 6)]

theorem delivered_twoMessages :
    (Runs.run (EndTask.step counterSnow openStream ⟨Vector.replicate 20 2⟩)
        (threeChunks ++ List.replicate 2 .wake) (start (⟨2, 0⟩, ⟨1, 0⟩) [])).handed = [[7], []] ∧
      (Runs.run (EndTask.step counterSnow openStream ⟨Vector.replicate 20 2⟩)
        (threeChunks ++ List.replicate 2 .wake) (start (⟨2, 0⟩, ⟨1, 0⟩) [])).running = true := by
  have hreliable : openStream.Reliable id :=
    ⟨fun bytes o => ⟨o ++ bytes, rfl, rfl⟩, fun _ o => ⟨o, rfl, rfl⟩⟩
  have hrun : (Runs.run (EndTask.step counterSnow openStream ⟨Vector.replicate 20 1⟩) twoMessages
      (start (⟨1, 0⟩, ⟨2, 0⟩) [])).running = true := rfl
  refine delivered counterSealing_complete hreliable hreliable rfl rfl rfl rfl (by decide)
    (by decide) hrun (by decide +kernel) (by decide) (by decide) ?_
  rw [threeChunks]
  refine neverCut_cons.mpr ⟨fun _ h => (nomatch h), neverCut_cons.mpr ⟨fun _ h => (nomatch h), ?_⟩⟩
  refine neverCut_cons.mpr ⟨fun _ _ _ _ => rfl, neverCut_cons.mpr ⟨fun _ h => (nomatch h), ?_⟩⟩
  refine neverCut_cons.mpr ⟨fun _ h => (nomatch h), neverCut_cons.mpr ⟨fun _ h => (nomatch h), ?_⟩⟩
  exact neverCut_nil

end

end EndTask

end Rubix.Networking
