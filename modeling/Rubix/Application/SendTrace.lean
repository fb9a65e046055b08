/-
# `Rubix.Application.SendTrace` — what a send does, and in which order

    encrypt_for_peer      first, of the content, for the recipient
    save_message          the ciphertext, Pending
    load_peer             the recipient
    connect               to an address of what was loaded, expecting the recipient
    send_to_peer  ⎫       the same ciphertext, over that connection
    sleep         ⎭       at most three times between at most four
    save_message          the same message, Pending no more

`Due` says of each call which calls must stand before it.  Every call of every
run is due (`calls_due`), whatever the ports answer: in particular nothing but
the ciphertext encrypted for the recipient is stored or sent, and it is sent
only where the recipient was expected, and only once it is stored.
-/
import Rubix.Application.SendMessage
import Rubix.Domain.Timestamps
import Rubix.Lib.Past

namespace Rubix

variable {W : Type}

open Effect (Prog)

namespace SendMessage

/-- A request and the instant it is made. -/
def handle [Chrono] (ports : Ports W) (call : Instant × SendMessageRequest) :
    UseCase W MessageResponse :=
  startedAt call.1 (execute ports call.2)

/-! ## When a call is due -/

/-- `content` is what the plaintext was encrypted to for the recipient. -/
def Encrypted (plaintext : List UInt8) (fp : Fingerprint) (past : List Call)
    (content : List UInt8) : Prop :=
  .encryptForPeer plaintext fp (.ok content) ∈ past

/-- A pending message with this content for this recipient has been saved. -/
def Recorded (fp : Fingerprint) (past : List Call) (content : List UInt8) : Prop :=
  ∃ m : Message, .saveMessage m (.ok ()) ∈ past ∧ m.state = .pending ∧ m.content = content ∧
    m.recipientFingerprints = [fp]

/-- The connection was made with the recipient's fingerprint expected. -/
def Expected (fp : Fingerprint) (past : List Call) (conn : ConnectionId) : Prop :=
  ∃ start addr took peer, .connect start addr (some fp) ⟨took, .ok (conn, peer)⟩ ∈ past

/-- The first save is of the pending message, the second of that message in
another state, and there is no third. -/
def SaveDue (past : List Call) (m : Message) : Prop :=
  (saves past = [] ∧ m.state = .pending) ∨
    ∃ first, saves past = [first] ∧ first.SameLetter m ∧ m.state ≠ .pending

/-- When a send of `plaintext` to `fp` makes a call. -/
def Due (ports : Ports W) (plaintext : List UInt8) (fp : Fingerprint) (past : List Call) :
    Call → Prop
  | .encryptForPeer text recipient _ => past = [] ∧ text = plaintext ∧ recipient = fp
  | .saveMessage m _ =>
      Encrypted plaintext fp past m.content ∧ m.recipientFingerprints = [fp] ∧ SaveDue past m
  | .loadPeer who _ => who = fp ∧ ∃ content, Recorded fp past content
  | .connect _ addr expected _ =>
      expected = some fp ∧ ∃ found, .loadPeer fp found ∈ past ∧ addressOf ports found = .ok addr
  | .sendToPeer conn ciphertext _ =>
      Encrypted plaintext fp past ciphertext ∧ Recorded fp past ciphertext ∧
        Expected fp past conn ∧ .ok () ∉ sends past ∧ (sends past).length ≤ maxRetries ∧
        ∀ n, (sends past).length = n + 1 → past.getLast? = some (.sleep (backoff n))
  | .sleep d => .ok () ∉ sends past ∧ ∃ n < maxRetries, (sends past).length = n + 1 ∧ d = backoff n
  | _ => False

section
variable {plaintext : List UInt8} {fp : Fingerprint} {past : List Call}
  {content : List UInt8} {conn : ConnectionId}

theorem Encrypted.append (h : Encrypted plaintext fp past content) (l : List Call) :
    Encrypted plaintext fp (past ++ l) content := List.mem_append_left _ h

theorem Recorded.append (h : Recorded fp past content) (l : List Call) :
    Recorded fp (past ++ l) content := by
  obtain ⟨m, hm, hrest⟩ := h
  exact ⟨m, List.mem_append_left _ hm, hrest⟩

theorem Expected.append (h : Expected fp past conn) (l : List Call) :
    Expected fp (past ++ l) conn := by
  obtain ⟨start, addr, took, peer, hconnect⟩ := h
  exact ⟨start, addr, took, peer, List.mem_append_left _ hconnect⟩

end

/-- What gets past step 7, and what was called until then. -/
def Ready (plaintext : List UInt8) (fp : Fingerprint) (p : Prepared) (log : List Call) : Prop :=
  p.message.state = .pending ∧ p.message.recipientFingerprints = [fp] ∧
    p.message.content = p.ciphertext ∧ p.recipientFp = fp ∧
    log = [.encryptForPeer plaintext fp (.ok p.ciphertext), .saveMessage p.message (.ok ())]

theorem built_one {identity fp : Fingerprint} {content : List UInt8} {contentType : ContentType}
    {id : Uuid} {now : DateTime} {m : Message}
    (h : MessageBuilder.build
      { senderFingerprint := some identity, recipientFingerprints := [fp], content := some content,
        contentType } id now = .ok m) :
    m.state = .pending ∧ m.recipientFingerprints = [fp] ∧ m.content = content := by
  obtain ⟨sender, content', -, -, -, hcontent, -, rfl⟩ := MessageBuilder.build_eq_ok_iff.mp h
  cases hcontent
  exact ⟨rfl, rfl, rfl⟩

/-! ## The loop -/

/-- A connection is one call, its start the first part of the answer. -/
theorem connect_bind_eq {α : Type} (ports : Ports W) (addr : SocketAddr)
    (expected : Option Fingerprint)
    (g : Timed (Except NetworkError (ConnectionId × Peer)) → UseCase W α) :
    (ports.connect addr expected >>= g) =
      (Prog.call (fun r : Instant × Timed (Except NetworkError (ConnectionId × Peer)) =>
          Call.connect r.1 addr expected r.2) fun s : App W =>
        ((s.now, (ports.network.connect addr expected s.env).1),
          { s with env := (ports.network.connect addr expected s.env).2 })) >>= fun r => g r.2 := by
  funext s
  exact ports.connect_bind addr expected g s

/-- The past of the attempt number `k`. -/
structure Attempting (plaintext : List UInt8) (fp : Fingerprint) (ciphertext : List UInt8)
    (conn : ConnectionId) (k : Nat) (past : List Call) : Prop where
  encrypted : Encrypted plaintext fp past ciphertext
  recorded : Recorded fp past ciphertext
  expected : Expected fp past conn
  failed : .ok () ∉ sends past
  count : (sends past).length = k
  slept : ∀ n, k = n + 1 → past.getLast? = some (.sleep (backoff n))

section
variable {ports : Ports W} {plaintext ciphertext : List UInt8} {fp : Fingerprint}
  {conn : ConnectionId} {past : List Call} {k : Nat}

theorem Attempting.due (h : Attempting plaintext fp ciphertext conn k past) (hk : k ≤ maxRetries)
    (answer : Except NetworkError Unit) :
    Due ports plaintext fp past (.sendToPeer conn ciphertext answer) := by
  refine ⟨h.encrypted, h.recorded, h.expected, h.failed, ?_, ?_⟩
  · rw [h.count]
    exact hk
  · rw [h.count]
    exact h.slept

/-- After a failed attempt and the pause comes the next one. -/
theorem Attempting.next (h : Attempting plaintext fp ciphertext conn k past) (e : NetworkError) :
    Attempting plaintext fp ciphertext conn (k + 1)
      (past ++ [.sendToPeer conn ciphertext (.error e)] ++ [.sleep (backoff k)]) := by
  have hsends : sends (past ++ [.sendToPeer conn ciphertext (.error e)] ++ [.sleep (backoff k)]) =
      sends past ++ [.error e] := by
    rw [sends_append, sends_append]
    exact List.append_nil _
  refine ⟨(h.encrypted.append _).append _, (h.recorded.append _).append _,
    (h.expected.append _).append _, ?_, ?_, ?_⟩
  · rw [hsends]
    intro hok
    rcases List.mem_append.mp hok with hpast | hlast
    · exact h.failed hpast
    · exact nomatch List.mem_singleton.mp hlast
  · rw [hsends, List.length_append, h.count]
    rfl
  · intro n hn
    cases hn
    exact List.getLast?_concat

theorem Attempting.pause (h : Attempting plaintext fp ciphertext conn k past) (hk : k < maxRetries)
    (e : NetworkError) :
    Due ports plaintext fp (past ++ [.sendToPeer conn ciphertext (.error e)])
      (.sleep (backoff k)) := by
  have hsends : sends (past ++ [.sendToPeer conn ciphertext (.error e)]) =
      sends past ++ [.error e] := sends_append _ _
  refine ⟨?_, k, hk, ?_, rfl⟩
  · rw [hsends]
    intro hok
    rcases List.mem_append.mp hok with hpast | hlast
    · exact h.failed hpast
    · exact nomatch List.mem_singleton.mp hlast
  · rw [hsends, List.length_append, h.count]
    rfl

end

/-! ## Marking keeps the letter -/

section
variable [Chrono]

theorem sameLetter_of_transition {m m' : Message} {target : MessageState}
    (h : m.transitionState target = .ok m') : m.SameLetter m' := by
  have hsame := Message.SameLetter.attempt m target
  rw [Message.attempt_eq, h] at hsame
  exact hsame

theorem state_of_transition {m m' : Message} {target : MessageState}
    (h : m.transitionState target = .ok m') : m'.state = target := by
  cases hvalid : m.state.validTransition target with
  | true =>
      obtain ⟨m'', hm'', hstate, -⟩ := Message.transitionState_ok hvalid
      rw [h] at hm''
      cases hm''
      exact hstate
  | false =>
      rw [Message.transitionState_error hvalid] at h
      cases h

variable {ports : Ports W} {plaintext ciphertext : List UInt8} {fp : Fingerprint}
  {conn : ConnectionId}

/-! ## The run of a send -/

theorem sendLoop_heeds (msg : Message) (n : Nat) :
    ∀ (k : Nat) (past : List Call), k + n = maxRetries + 1 →
      Attempting plaintext fp ciphertext conn k past →
      Prog.Heeds (Due ports plaintext fp) past
        (sendLoop ports conn ciphertext (List.range' k n) msg) := by
  induction n with
  | zero =>
      intro k past _ _
      exact .abort _
  | succ n ih =>
      intro k past hk h
      refine .call_bind (fun answer => h.due (by omega) answer) ?_
      intro answer
      cases answer with
      | ok u =>
          refine .silent_bind ?_
          intro now
          cases msg.markSent now with
          | ok msg => exact .pure _
          | error e => exact .pure _
      | error e =>
          show Prog.Heeds _ _ (if k < maxRetries then _ else _)
          split
          · next hlt =>
              refine .call_bind (fun _ => h.pause hlt e) ?_
              intro _
              exact ih (k + 1) _ (by omega) (h.next e)
          · refine .silent_bind ?_
            intro now
            cases msg.markFailed true now with
            | ok msg => exact .pure _
            | error e => exact .pure _

/-- What the sending hands back: the letter it was given, not pending any more,
and nothing saved meanwhile. -/
def HandedBack (msg : Message) (r : Message × Except ApplicationError Unit) (log : List Call) :
    Prop :=
  saves log = [] ∧ msg.SameLetter r.1 ∧ r.1.state ≠ .pending

theorem sendLoop_traces (msg : Message) (hmsg : msg.state ≠ .pending) (attempts : List Nat) :
    Prog.Traces (HandedBack msg) (sendLoop ports conn ciphertext attempts msg) := by
  induction attempts with
  | nil =>
      intro w a ha
      exact nomatch ha
  | cons attempt rest ih =>
      refine .call_bind ?_
      intro answer
      cases answer with
      | ok u =>
          refine .silent_bind ?_
          intro now
          cases hmarked : msg.markSent now with
          | ok final =>
              refine .pure ⟨rfl, sameLetter_of_transition hmarked, ?_⟩
              rw [state_of_transition hmarked]
              exact nofun
          | error e => exact .pure ⟨rfl, .refl msg, hmsg⟩
      | error e =>
          show Prog.Traces _ (if attempt < maxRetries then _ else _)
          split
          · exact .call_bind fun _ => ih
          · refine .silent_bind ?_
            intro now
            cases hmarked : msg.markFailed true now with
            | ok final =>
                refine .pure ⟨rfl, sameLetter_of_transition hmarked, ?_⟩
                rw [state_of_transition hmarked]
                exact nofun
            | error e => exact .pure ⟨rfl, .refl msg, hmsg⟩

theorem sendWithRetry_traces {msg : Message} (hmsg : msg.state = .pending) :
    Prog.Traces (HandedBack msg) (sendWithRetry ports msg fp ciphertext) := by
  have hvalid : msg.state.validTransition .sending = true := by rw [hmsg]; rfl
  obtain ⟨marked, hmarked, hsending, -⟩ := Message.transitionState_ok hvalid
  have hsame : msg.SameLetter marked := sameLetter_of_transition hmarked
  have hstate : marked.state ≠ .pending := by rw [hsending]; exact nofun
  simp only [sendWithRetry, Message.markSending, hmarked]
  refine .call_bind ?_
  intro found
  cases addressOf ports found with
  | error e => exact .pure ⟨rfl, hsame, hstate⟩
  | ok addr =>
      show Prog.Traces _ (ports.connect addr (some fp) >>= fun answer => _)
      rw [connect_bind_eq ports]
      refine .call_bind ?_
      rintro ⟨start, took, value⟩
      cases value with
      | error e => exact .pure ⟨rfl, hsame, hstate⟩
      | ok c =>
          intro w a ha
          obtain ⟨hsaves, hletter, hne⟩ := sendLoop_traces marked hstate _ w a ha
          exact ⟨hsaves, hsame.trans hletter, hne⟩

theorem sendWithRetry_heeds {msg : Message} {past : List Call} (hmsg : msg.state = .pending)
    (hencrypted : Encrypted plaintext fp past ciphertext) (hrecorded : Recorded fp past ciphertext)
    (hsends : sends past = []) :
    Prog.Heeds (Due ports plaintext fp) past (sendWithRetry ports msg fp ciphertext) := by
  have hvalid : msg.state.validTransition .sending = true := by rw [hmsg]; rfl
  obtain ⟨marked, hmarked, -, -⟩ := Message.transitionState_ok hvalid
  simp only [sendWithRetry, Message.markSending, hmarked]
  refine .call_bind (fun found => ⟨rfl, ciphertext, hrecorded⟩) ?_
  intro found
  cases haddr : addressOf ports found with
  | error e => exact .pure _
  | ok addr =>
      show Prog.Heeds _ _ (ports.connect addr (some fp) >>= fun answer => _)
      rw [connect_bind_eq ports]
      refine .call_bind (fun _ => ⟨rfl, found, List.mem_concat_self, haddr⟩) ?_
      rintro ⟨start, took, value⟩
      cases value with
      | error e => exact .pure _
      | ok c =>
          obtain ⟨conn, peer⟩ := c
          rw [List.range_eq_range']
          refine sendLoop_heeds marked (maxRetries + 1) 0 _ (Nat.zero_add _) ?_
          have hnone : sends (past ++ [.loadPeer fp found] ++
              [.connect start addr (some fp) ⟨took, .ok (conn, peer)⟩]) = [] := by
            rw [sends_append, sends_append, hsends]
            rfl
          exact
            { encrypted := (hencrypted.append _).append _
              recorded := (hrecorded.append _).append _
              expected := ⟨start, addr, took, peer, List.mem_concat_self⟩
              failed := by rw [hnone]; exact List.not_mem_nil
              count := by rw [hnone]; rfl
              slept := by intro n hn; cases hn }

omit [Chrono] in
/-- Steps 1 to 7 of a request that is valid. -/
theorem prepare_heeds {request : SendMessageRequest} (hvalid : validate request = .ok fp) :
    Prog.Heeds (Due ports (Utf8.encode request.content.toList) fp) [] (prepare ports request) := by
  refine .orFail_bind ?_
  intro who hwho
  obtain rfl : fp = who := Except.ok.inj (hvalid.symm.trans hwho)
  refine .silent_bind ?_
  intro allowed
  split
  · refine .silent_bind fun identity => .call_bind (fun _ => ⟨rfl, rfl, rfl⟩) ?_
    intro encrypted
    refine .orFail_bind ?_
    intro ciphertext hct
    refine .silent_bind fun id => .silent_bind fun now => .orFail_bind ?_
    intro message hbuilt
    obtain ⟨hstate, hto, hcontent⟩ := built_one hbuilt
    refine .call_bind (fun saved => ⟨?_, hto, .inl ⟨rfl, hstate⟩⟩) ?_
    · rw [hcontent, hct]
      exact List.mem_concat_self
    · intro saved
      exact .orFail_bind fun _ _ => .pure _
  · exact .fail _

omit [Chrono] in
theorem prepare_ready {request : SendMessageRequest} (hvalid : validate request = .ok fp) :
    Prog.Traces (Ready (Utf8.encode request.content.toList) fp) (prepare ports request) := by
  refine .orFail_bind ?_
  intro who hwho
  obtain rfl : fp = who := Except.ok.inj (hvalid.symm.trans hwho)
  refine .silent_bind ?_
  intro allowed
  split
  · refine .silent_bind fun identity => .call_bind ?_
    intro encrypted
    refine .orFail_bind ?_
    intro ciphertext hct
    refine .silent_bind fun id => .silent_bind fun now => .orFail_bind ?_
    intro message hbuilt
    obtain ⟨hstate, hto, hcontent⟩ := built_one hbuilt
    refine .call_bind ?_
    intro saved
    refine .orFail_bind ?_
    intro _ hsaved
    rw [hct, hsaved]
    exact .pure ⟨hstate, hto, hcontent, rfl, rfl⟩
  · exact .fail _

/-- The response calls nothing. -/
theorem fromMessage_heeds {P : List Call → Call → Prop} {past : List Call} (m : Message)
    (text : List Char) :
    Prog.Heeds P past (MessageResponse.fromMessage (W := W) m text) := by
  refine .of_silent ?_
  intro s
  rcases MessageResponse.fromMessage_run m text s with ⟨shown, hrun⟩ | hrun
  · rw [hrun]
  · rw [hrun]

/-- Steps 8 to 10. -/
theorem finish_heeds {p : Prepared} {past : List Call} (h : Ready plaintext fp p past) :
    Prog.Heeds (Due ports plaintext fp) past (finish ports p) := by
  obtain ⟨hstate, hto, hcontent, rfl, rfl⟩ := h
  have hencrypted : Encrypted plaintext p.recipientFp
      [.encryptForPeer plaintext p.recipientFp (.ok p.ciphertext), .saveMessage p.message (.ok ())]
      p.ciphertext := List.mem_cons_self
  refine .bind (sendWithRetry_heeds hstate hencrypted
    ⟨p.message, List.mem_cons_of_mem _ List.mem_cons_self, hstate, hcontent, hto⟩ rfl)
    (sendWithRetry_traces hstate) ?_
  rintro ⟨msg, result⟩ l ⟨hquiet, hletter, hne⟩
  refine .call_bind (fun saved => ⟨?_, ?_, .inr ⟨p.message, ?_, hletter, hne⟩⟩) ?_
  · rw [hletter.content, hcontent]
    exact hencrypted.append l
  · rw [hletter.recipientFingerprints, hto]
  · rw [saves_append, hquiet]
    rfl
  · intro saved
    exact .orFail_bind fun _ _ => fromMessage_heeds msg _

theorem execute_heeds {request : SendMessageRequest} (hvalid : validate request = .ok fp) :
    Prog.Heeds (Due ports (Utf8.encode request.content.toList) fp) [] (execute ports request) := by
  refine .bind (prepare_heeds hvalid) (prepare_ready hvalid) ?_
  intro p l hready
  exact finish_heeds hready

/-- In every run of every sequence of sends, whatever the ports answer, each
call is due where it stands: the request named a recipient, and the calls
before it are those of the same send to that recipient. -/
theorem calls_due (ports : Ports W) (calls : List (Instant × SendMessageRequest)) (s : App W) :
    ∀ e ∈ Prog.serve (handle ports) calls s, ∀ before k after, e.run.log = before ++ k :: after →
      ∃ fp, validate e.request.2 = .ok fp ∧
        Due ports (Utf8.encode e.request.2.content.toList) fp before k := by
  refine Prog.serve_heeds (P := fun (call : Instant × SendMessageRequest) past k =>
    ∃ fp, validate call.2 = .ok fp ∧
      Due ports (Utf8.encode call.2.content.toList) fp past k) ?_
  rintro ⟨now, request⟩ w before k after hlog
  cases hvalid : validate request with
  | ok fp => exact ⟨fp, rfl, execute_heeds hvalid _ before k after hlog⟩
  | error e =>
      -- an invalid request calls nothing
      have hnone : (handle ports (now, request) w).log = [] := by
        show (execute ports request { w with now := now }).log = []
        simp only [execute, prepare, hvalid, Prog.orFail_error, Prog.bind_run, Prog.fail_run]
      rw [hnone] at hlog
      exact absurd hlog.symm (List.append_ne_nil_of_right_ne_nil _ (List.cons_ne_nil _ _))

end

section
open Memory

/-- The first attempt fails, and the second comes half a second later. -/
theorem calls_due_reachable :
    ∃ fp, validate request = .ok fp ∧
      Due Memory.ports (Utf8.encode request.content.toList) fp
        ((handle Memory.ports (0, request) reachable).log.take 5) (.sleep (backoff 0)) :=
  calls_due Memory.ports [(0, request)] reachable
    ⟨(0, request), reachable, handle Memory.ports (0, request) reachable⟩ List.mem_cons_self
    ((handle Memory.ports (0, request) reachable).log.take 5) (.sleep (backoff 0))
    ((handle Memory.ports (0, request) reachable).log.drop 6) (by decide +kernel)

end

end SendMessage
end Rubix
