/-
# `Rubix.Application.SendWindow` — how often a recipient can be sent to

A send asks the limiter once, before it touches any port, and nothing resets
the limiter of the sends.  A run of sends is therefore a run of checks:

    fewer than 5 in (now - 60 s, now]     the content is encrypted
    5 of them                             RateLimited, and no port is called

with the sends to the same fingerprint counted, in whatever spelling they name
it, and also those that failed later on (`window_exact`).  A send is placed at
the instant at which it asks; its retries come after and do not count.
-/
import Rubix.Application.SendLimits
import Rubix.Application.SendTrace
import Rubix.Lib.Runs

namespace Rubix

variable {W : Type}

open Effect (Prog)

namespace SendMessage

/-- The content was encrypted for `fp`. -/
def encryptsFor (fp : Fingerprint) (log : List Call) : Bool :=
  log.any fun
    | .encryptForPeer _ recipient _ => decide (recipient = fp)
    | _ => false

/-- The instants of the sends that got past the limiter to `fp`. -/
def encryptedAt (fp : Fingerprint)
    (served : List (Prog.Served (Instant × SendMessageRequest) (App W) Call ApplicationError Panic
      MessageResponse)) : List Instant :=
  (served.filter fun e => encryptsFor fp e.run.log).map fun e => e.request.1

/-- Steps 4 to 7. -/
def encryptAndSave (ports : Ports W) (request : SendMessageRequest) (fp : Fingerprint) :
    UseCase W Prepared := do
  let identity ← Prog.silent fun s => (s.identity, s)
  let encrypted ← ports.encryptForPeer (Utf8.encode request.content.toList) fp
  let ciphertext ← Prog.orFail (fun _ => .security) encrypted
  buildAndSave ports request identity.fingerprint fp ciphertext

theorem rateKey_injective {fp fp' : Fingerprint} (h : rateKey fp = rateKey fp') : fp = fp' := by
  refine Fingerprint.toFormattedString_injective ?_
  have hlist := congrArg String.toList h
  rw [rateKey, rateKey, String.toList_append, String.toList_append] at hlist
  exact String.toList_inj.mp (List.append_cancel_left hlist)

section
variable [Chrono] (ports : Ports W) {request : SendMessageRequest} {fp : Fingerprint}
  {s : App W}

/-! ## One send -/

theorem execute_invalid {e : ApplicationError} (hvalid : validate request = .error e) (s : App W) :
    execute ports request s = ⟨.err e, s, []⟩ := by
  simp only [execute, prepare, hvalid, Prog.orFail_error, Prog.bind_run, Prog.fail_run, id]

/-- The limiter is asked first, and decides whether there is anything else. -/
theorem execute_valid (hvalid : validate request = .ok fp) (s : App W) :
    execute ports request s =
      ((if (s.sendLimiter.check s.now (rateKey fp)).1 then encryptAndSave ports request fp
        else Prog.fail .rateLimited) >>= finish ports)
        { s with sendLimiter := (s.sendLimiter.check s.now (rateKey fp)).2 } := by
  have hprepare : prepare ports request s =
      (if (s.sendLimiter.check s.now (rateKey fp)).1 then encryptAndSave ports request fp
        else Prog.fail .rateLimited)
        { s with sendLimiter := (s.sendLimiter.check s.now (rateKey fp)).2 } := by
    simp only [prepare, hvalid, Prog.orFail_ok, Prog.pure_bind_run, checkLimiter, Prog.silent_bind]
    rfl
  rw [execute, Prog.bind_run, hprepare, Prog.bind_run]

/-- Refused, the send calls no port. -/
theorem execute_refused (hvalid : validate request = .ok fp)
    (hno : (s.sendLimiter.check s.now (rateKey fp)).1 = false) :
    execute ports request s =
      ⟨.err .rateLimited, { s with sendLimiter := (s.sendLimiter.check s.now (rateKey fp)).2 },
        []⟩ := by
  rw [execute_valid ports hvalid, hno]
  rfl

/-- Allowed, it encrypts first. -/
theorem execute_allowed (hvalid : validate request = .ok fp)
    (hyes : (s.sendLimiter.check s.now (rateKey fp)).1 = true) :
    ∃ answer rest, (execute ports request s).log =
      .encryptForPeer (Utf8.encode request.content.toList) fp answer :: rest := by
  rw [execute_valid ports hvalid, hyes, if_pos rfl]
  obtain ⟨l, hlog, -⟩ := Prog.Logs.after (P := fun _ => True)
    (x := encryptAndSave ports request fp) (f := finish ports) (fun _ _ _ _ => trivial)
    { s with sendLimiter := (s.sendLimiter.check s.now (rateKey fp)).2 }
  rw [hlog]
  exact ⟨_, _, rfl⟩

/-- Behind the first call nothing is encrypted. -/
theorem encryptsFor_execute (hvalid : validate request = .ok fp) (who : Fingerprint) :
    encryptsFor who (execute ports request s).log =
      (decide (fp = who) && (s.sendLimiter.check s.now (rateKey fp)).1) := by
  cases hallowed : (s.sendLimiter.check s.now (rateKey fp)).1 with
  | false =>
      rw [execute_refused ports hvalid hallowed, Bool.and_false]
      rfl
  | true =>
      obtain ⟨answer, rest, hlog⟩ := execute_allowed ports hvalid hallowed
      have hrest : ∀ k ∈ rest, ∀ text who answer', k ≠ .encryptForPeer text who answer' := by
        rintro k hk text who answer' rfl
        obtain ⟨before, after, rfl⟩ := List.append_of_mem hk
        have hheeds : Prog.Heeds (Due ports (Utf8.encode request.content.toList) fp) []
            (execute ports request) := execute_heeds hvalid
        have hdue := hheeds s (_ :: before) _ after hlog
        exact absurd hdue.1 (List.cons_ne_nil _ _)
      have hnone : encryptsFor who rest = false := by
        rw [encryptsFor, List.any_eq_false]
        intro k hk
        cases k with
        | encryptForPeer text who answer' => exact absurd rfl (hrest _ hk text who answer')
        | _ => exact Bool.false_ne_true
      rw [hlog, Bool.and_true]
      show (decide (fp = who) || encryptsFor who rest) = _
      rw [hnone, Bool.or_false]

/-! ## The limiter behind a send

Only the check changes it. -/

theorem sendLoop_keeps {I : App W → Prop} (hI : Blind I) (conn : ConnectionId)
    (ciphertext : List UInt8) (attempts : List Nat) (msg : Message) :
    Prog.Keeps I (sendLoop ports conn ciphertext attempts msg) := by
  induction attempts with
  | nil => exact fun _ h => h
  | cons attempt rest ih =>
      refine (keeps_ask hI _ _).bind ?_
      intro answer
      cases answer with
      | ok u =>
          refine (keeps_draw hI _).bind ?_
          intro now
          cases msg.markSent now with
          | ok final => exact .pure _
          | error e => exact .pure _
      | error e =>
          show Prog.Keeps I (if attempt < maxRetries then _ else _)
          split
          · exact (Prog.Keeps.call fun _ h => h).bind fun _ => ih
          · refine (keeps_draw hI _).bind ?_
            intro now
            cases msg.markFailed true now with
            | ok final => exact .pure _
            | error e => exact .pure _

theorem sendWithRetry_keeps {I : App W → Prop} (hI : Blind I) (msg : Message)
    (ciphertext : List UInt8) : Prog.Keeps I (sendWithRetry ports msg fp ciphertext) := by
  rw [sendWithRetry]
  cases msg.markSending with
  | error e => exact .pure _
  | ok marked =>
      refine (keeps_ask hI _ _).bind ?_
      intro found
      cases addressOf ports found with
      | error e => exact .pure _
      | ok addr =>
          have hconnect : Prog.Keeps I (ports.connect addr (some fp)) :=
            (Prog.Keeps.call fun s hs => hI s _ hs).bind fun _ => .pure _
          refine hconnect.bind ?_
          rintro ⟨took, value⟩
          cases value with
          | error e => exact .pure _
          | ok c => exact sendLoop_keeps ports hI c.1 ciphertext _ marked

theorem finish_keeps {I : App W → Prop} (hI : Blind I) (p : Prepared) :
    Prog.Keeps I (finish ports p) := by
  refine (sendWithRetry_keeps ports hI p.message p.ciphertext).bind ?_
  rintro ⟨msg, result⟩
  refine (keeps_ask hI _ _).bind fun saved => (Prog.Keeps.orFail _ _).bind fun _ => ?_
  intro s hs
  rcases MessageResponse.fromMessage_run msg (Utf8.lossy p.plaintext) s with ⟨shown, hrun⟩ | hrun
  · rw [hrun]
    exact hs
  · rw [hrun]
    exact hs

omit [Chrono] in
theorem encryptAndSave_keeps {I : App W → Prop} (hI : Blind I) (request : SendMessageRequest) :
    Prog.Keeps I (encryptAndSave ports request fp) := by
  refine (Prog.Keeps.silent fun _ h => h).bind ?_
  intro identity
  refine (keeps_ask hI _ _).bind ?_
  intro encrypted
  refine (Prog.Keeps.orFail _ _).bind ?_
  intro ciphertext
  refine (keeps_draw hI _).bind ?_
  intro id
  refine (keeps_draw hI _).bind ?_
  intro now
  refine (Prog.Keeps.orFail _ _).bind ?_
  intro message
  exact (keeps_ask hI _ _).bind fun saved => (Prog.Keeps.orFail _ _).bind fun _ => .pure _

theorem sendLimiter_execute (hvalid : validate request = .ok fp) (s : App W) :
    (execute ports request s).world.sendLimiter = (s.sendLimiter.check s.now (rateKey fp)).2 := by
  have hblind : Blind fun s' : App W =>
      s'.sendLimiter = (s.sendLimiter.check s.now (rateKey fp)).2 := fun _ _ h => h
  cases hallowed : (s.sendLimiter.check s.now (rateKey fp)).1 with
  | false => rw [execute_refused ports hvalid hallowed]
  | true =>
      rw [execute_valid ports hvalid, hallowed, if_pos rfl]
      exact (encryptAndSave_keeps ports hblind request).bind (finish_keeps ports hblind) _ rfl

/-! ## Runs -/

abbrev Sent (W : Type) : Type :=
  Prog.Served (Instant × SendMessageRequest) (App W) Call ApplicationError Panic MessageResponse

omit [Chrono] in
/-- One more send, recorded if it got past the limiter. -/
theorem append_encryptedAt_cons (fp : Fingerprint) (admitted : List Instant) (e : Sent W)
    (served : List (Sent W)) :
    admitted ++ encryptedAt fp (e :: served) =
      SlidingWindow.record (encryptsFor fp e.run.log) e.request.1 admitted ++
        encryptedAt fp served := by
  rw [encryptedAt, List.filter_cons, SlidingWindow.record]
  split
  · rw [List.map_cons, List.append_assoc]
    rfl
  · rfl

/-- One send: what it does to the limiter is what it does to the history of
every recipient. -/
theorem handle_enforces {call : Instant × SendMessageRequest} {admitted : List Instant}
    {t : Instant} (h : s.sendLimiter.Enforces (rateKey fp) admitted t) (ht : t ≤ call.1) :
    (handle ports call s).world.sendLimiter.Enforces (rateKey fp)
      (SlidingWindow.record (encryptsFor fp (handle ports call s).log) call.1 admitted) call.1 := by
  obtain ⟨now, request⟩ := call
  have hlater : s.sendLimiter.Enforces (rateKey fp) admitted now := h.later ht
  show (execute ports request { s with now := now }).world.sendLimiter.Enforces (rateKey fp)
    (SlidingWindow.record (encryptsFor fp (execute ports request { s with now := now }).log) now
      admitted) now
  cases hvalid : validate request with
  | error e =>
      rw [execute_invalid ports hvalid]
      exact hlater
  | ok who =>
      rw [sendLimiter_execute ports hvalid, encryptsFor_execute ports hvalid]
      by_cases hwho : who = fp
      · subst hwho
        rw [decide_eq_true rfl, Bool.true_and]
        exact hlater.check
      · rw [decide_eq_false hwho, Bool.false_and]
        exact hlater.check_of_ne fun hkey => hwho (rateKey_injective hkey).symm

/-- From a limiter that enforces its window about `fp`, every run leaves one
that does so about the sends of the run as well. -/
theorem serve_enforces {calls : List (Instant × SendMessageRequest)} {s : App W}
    {admitted : List Instant} {t now : Instant}
    (h : s.sendLimiter.Enforces (rateKey fp) admitted t)
    (horder : (t :: calls.map Prod.fst ++ [now]).Pairwise (· ≤ ·)) :
    (Prog.leaves (handle ports) calls s).sendLimiter.Enforces (rateKey fp)
      (admitted ++ encryptedAt fp (Prog.serve (handle ports) calls s)) now := by
  induction calls generalizing s admitted t with
  | nil =>
      rw [show encryptedAt fp (Prog.serve (handle ports) [] s) = [] from rfl, List.append_nil]
      exact h.later ((List.pairwise_cons.mp horder).1 now List.mem_cons_self)
  | cons call rest ih =>
      obtain ⟨hfirst, hrest⟩ := List.pairwise_cons.mp horder
      have hstep := handle_enforces ports h (hfirst call.1 List.mem_cons_self)
      have hlast := ih hstep hrest
      rw [Prog.serve, append_encryptedAt_cons]
      exact hlast

/-- The limiter keeps its settings. -/
theorem handle_settings (call : Instant × SendMessageRequest) :
    Prog.Keeps (fun s : App W => s.sendLimiter.window = seconds 60 ∧ s.sendLimiter.maxAttempts = 5)
      (handle ports call) := by
  intro s hs
  obtain ⟨now, request⟩ := call
  show (execute ports request { s with now := now }).world.sendLimiter.window = _ ∧ _
  cases hvalid : validate request with
  | error e =>
      rw [handle, startedAt, execute_invalid ports hvalid]
      exact hs
  | ok who =>
      rw [handle, startedAt, sendLimiter_execute ports hvalid]
      exact hs

/-- For every run of sends at instants that do not go back, of any requests to
any recipients over any ports:

* a send to `fp` encrypts exactly if fewer than five sends to `fp` have done so
  in the minute up to it; otherwise it is `RateLimited` and calls no port;
* in any interval of a minute at most five sends to one recipient encrypt. -/
theorem window_exact (calls : List (Instant × SendMessageRequest)) (s : App W)
    (hfresh : s.sendLimiter = .new) (horder : (calls.map Prod.fst).Pairwise (· ≤ ·)) :
    (∀ before e after, Prog.serve (handle ports) calls s = before ++ e :: after →
      ∀ fp, validate e.request.2 = .ok fp →
        if ((encryptedAt fp before).filter fun t =>
            decide (e.request.1 - seconds 60 < t)).length < 5 then
          ∃ answer rest, e.run.log =
            .encryptForPeer (Utf8.encode e.request.2.content.toList) fp answer :: rest
        else e.run.outcome = .err .rateLimited ∧ e.run.log = []) ∧
    ∀ fp start, ((encryptedAt fp (Prog.serve (handle ports) calls s)).filter fun t =>
      decide (start ≤ t ∧ t < start + seconds 60)).length ≤ 5 := by
  obtain ⟨t, hstart⟩ := Runs.exists_before horder
  have hbegin : ∀ fp, s.sendLimiter.Enforces (rateKey fp) [] t := fun fp => by
    rw [hfresh]
    exact .fresh _ _ _ t
  have hsettings : s.sendLimiter.window = seconds 60 ∧ s.sendLimiter.maxAttempts = 5 := by
    rw [hfresh]
    exact ⟨rfl, rfl⟩
  constructor
  · intro before e after hserve fp hvalid
    obtain ⟨ys, call, zs, rfl, rfl, rfl, rfl⟩ := Prog.serve_eq_append_cons hserve
    obtain ⟨now, request⟩ := call
    have hnow : (t :: ys.map Prod.fst ++ [now]).Pairwise (· ≤ ·) := by
      refine hstart.sublist ?_
      rw [List.map_append, List.map_cons]
      exact List.Sublist.cons_cons t
        ((List.Sublist.refl _).append (List.Sublist.cons_cons now (List.nil_sublist _)))
    have henforces := serve_enforces ports (hbegin fp) hnow
    obtain ⟨hwindow, hmax⟩ := Prog.leaves_keeps (handle_settings ports) ys hsettings
    have hcheck := henforces.check_iff
    rw [hwindow, hmax, List.nil_append] at hcheck
    show if ((encryptedAt fp (Prog.serve (handle ports) ys s)).filter
      (RateLimiter.live (seconds 60) · now)).length < 5 then _ else _
    split
    · next hroom => exact execute_allowed ports hvalid (hcheck.mpr hroom)
    · next hfull =>
        have hno := Bool.eq_false_iff.mpr (mt hcheck.mp hfull)
        have hrun := execute_refused ports
          (s := { Prog.leaves (handle ports) ys s with now := now }) hvalid hno
        rw [handle, startedAt, hrun]
        exact ⟨rfl, rfl⟩
  · intro fp start
    obtain ⟨now, hend⟩ := Runs.exists_behind hstart
    have hsparse := (serve_enforces ports (hbegin fp) hend).sparse
    obtain ⟨hwindow, hmax⟩ := Prog.leaves_keeps (handle_settings ports) calls hsettings
    rw [hwindow, hmax, List.nil_append] at hsparse
    exact RateLimiter.length_window_le hsparse start

end

section
open Memory

/-- Six sends to a peer within six seconds, and one a minute after the first. -/
def burst : List (Instant × SendMessageRequest) :=
  [(0, request), (seconds 1, request), (seconds 2, request), (seconds 3, request),
    (seconds 4, request), (seconds 5, request), (seconds 60, request)]

theorem window_exact_burst :
    (∀ before e after, Prog.serve (handle Memory.ports) burst refusing = before ++ e :: after →
      ∀ fp, validate e.request.2 = .ok fp →
        if ((encryptedAt fp before).filter fun t =>
            decide (e.request.1 - seconds 60 < t)).length < 5 then
          ∃ answer rest, e.run.log =
            .encryptForPeer (Utf8.encode e.request.2.content.toList) fp answer :: rest
        else e.run.outcome = .err .rateLimited ∧ e.run.log = []) ∧
    ∀ fp start, ((encryptedAt fp (Prog.serve (handle Memory.ports) burst refusing)).filter fun t =>
      decide (start ≤ t ∧ t < start + seconds 60)).length ≤ 5 :=
  window_exact Memory.ports burst refusing rfl (by decide)

end
end SendMessage
end Rubix
