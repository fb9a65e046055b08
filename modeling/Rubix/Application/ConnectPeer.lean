/-
# `Rubix.Application.ConnectPeer` — the connect use case and its rate limit

`execute` validates the request, asks the limiter, connects within
`connectTimeout`, and stores the peer it got.  The limiter is touched in two
places only: `check` before the connection, and `reset` when the connection
times out.

The second is where the limit is lost.  What one run does to the limiter and
which attempts it starts is `execute_attempts`; over a sequence of runs none
of which times out for a fingerprint, the limiter enforces its window about
it (`runs_enforces`).
-/
import Rubix.Application.Dto
import Rubix.Application.Memory

namespace Rubix

variable {W : Type}

open Effect (Prog)

namespace ConnectPeer

def connectTimeout : Duration := seconds 5

/-- Max connection attempts per minute per peer. -/
def connectRateLimit : Nat := 3

/-- `format!("connect:{}", ...)` -/
def rateKey (fp : Fingerprint) : String := "connect:" ++ fp.toFormattedString

/-- However a request spells it, one fingerprint has one key. -/
theorem rateKey_injective {a b : Fingerprint} (h : rateKey a = rateKey b) : a = b := by
  have hlist := congrArg String.toList h
  simp only [rateKey, String.toList_append, List.append_cancel_left_eq] at hlist
  exact Fingerprint.toFormattedString_injective (String.toList_inj.mp hlist)

def checkLimiter (key : String) : UseCase W Bool :=
  Prog.silent fun s =>
    ((s.connectLimiter.check s.now key).1,
      { s with connectLimiter := (s.connectLimiter.check s.now key).2 })

def resetLimiter (key : String) : UseCase W Unit :=
  Prog.silent fun s => ((), { s with connectLimiter := s.connectLimiter.reset key })

/-! ## The attempts a log shows -/

/-- The log entry of a started connection. -/
def IsConnect : Call → Prop
  | .connect _ _ _ _ => True
  | _ => False

/-- When the connections a log started for `fp` were started. -/
def attempts (fp : Fingerprint) (log : List Call) : List Instant :=
  log.filterMap fun
    | .connect start _ expected _ => if expected = some fp then some start else none
    | _ => none

theorem attempts_append (fp : Fingerprint) (l l' : List Call) :
    attempts fp (l ++ l') = attempts fp l ++ attempts fp l' := List.filterMap_append

theorem attempts_eq_nil {fp : Fingerprint} {log : List Call} (h : ∀ k ∈ log, ¬ IsConnect k) :
    attempts fp log = [] := by
  refine List.filterMap_eq_nil_iff.mpr ?_
  intro k hk
  cases k with
  | connect start addr expected answer => exact absurd trivial (h _ hk)
  | _ => rfl

/-! ## The steps of `execute` -/

/-- Steps 1 and 2: the address and the expected fingerprint. -/
def validate (ports : Ports W) (request : ConnectPeerRequest) :
    Except ApplicationError (SocketAddr × Fingerprint) :=
  match ports.parseSocketAddr request.address with
  | none => .error (.validation "address" "invalid socket address format")
  | some addr =>
      match Fingerprint.fromHex request.fingerprint with
      | .error _ => .error (.validation "fingerprint" "invalid hex format")
      | .ok fp => .ok (addr, fp)

/-- The second `map_err` of step 4. -/
def networkError : NetworkError → ApplicationError
  | .handshakeFailed => .security
  | .connectionRefused => .network
  | _ => .network

/-- The `map_err`s of step 4: a timeout gives the key its attempts back. -/
def connected (key : String) :
    Option (Except NetworkError (ConnectionId × Peer)) → UseCase W Peer
  | none => do
      resetLimiter key
      Prog.fail .timeout
  | some (.ok (_, peer)) => pure peer
  | some (.error e) => Prog.fail (networkError e)

/-- Step 4: connect within the deadline. -/
def connectWithTimeout (ports : Ports W) (addr : SocketAddr) (expectedFp : Fingerprint) :
    UseCase W Peer := do
  let answer ← ports.connect addr (some expectedFp)
  connected (rateKey expectedFp) (answer.within connectTimeout)

/-- `peer.set_status(PeerStatus::online_now())`: two readings of the clock. -/
def setOnlineNow (ports : Ports W) (peer : Peer) : UseCase W Peer := do
  let seen ← draw ports.utcNow
  let now ← draw ports.utcNow
  pure (peer.setStatus (.onlineNow seen) now)

theorem connected_logs {P : Call → Prop} (key : String) :
    ∀ answer, Prog.Logs P (connected (W := W) key answer)
  | none => (Prog.Logs.silent _).bind fun _ => Prog.Logs.fail _
  | some (.ok (_, peer)) => Prog.Logs.pure peer
  | some (.error _) => Prog.Logs.fail _

theorem connected_keeps {I : App W → Prop} (key : String)
    (hreset : ∀ s, I s → I { s with connectLimiter := s.connectLimiter.reset key }) :
    ∀ answer, Prog.Keeps I (connected key answer)
  | none => (Prog.Keeps.silent hreset).bind fun _ => Prog.Keeps.fail _
  | some (.ok (_, peer)) => Prog.Keeps.pure peer
  | some (.error _) => Prog.Keeps.fail _

/-- Only a timeout touches the limiter, and only for its own key. -/
theorem connected_enforces {key k : String} {admitted : List Instant} {t : Instant} {s : App W}
    (h : s.connectLimiter.Enforces k admitted t) :
    ∀ {answer : Option (Except NetworkError (ConnectionId × Peer))}, answer ≠ none ∨ k ≠ key →
      (connected key answer s).world.connectLimiter.Enforces k admitted t
  | none, hk => h.reset_of_ne (hk.resolve_left fun hne => hne rfl)
  | some (.ok _), _ => h
  | some (.error _), _ => h

/-- A connection is logged with the instant it starts at. -/
theorem connectWithTimeout_run (ports : Ports W) (addr : SocketAddr) (efp : Fingerprint)
    (s : App W) :
    connectWithTimeout ports addr efp s =
      let answer := ports.network.connect addr (some efp) s.env
      let r := connected (rateKey efp) (answer.1.within connectTimeout) { s with env := answer.2 }
      ⟨r.outcome, r.world, .connect s.now addr (some efp) answer.1 :: r.log⟩ :=
  ports.connect_bind _ _ _ s

theorem attempts_connectWithTimeout (ports : Ports W) (fp : Fingerprint) (addr : SocketAddr)
    (efp : Fingerprint) (s : App W) :
    attempts fp (connectWithTimeout ports addr efp s).log = if efp = fp then [s.now] else [] := by
  have hrest : attempts fp (connected (rateKey efp)
      ((ports.network.connect addr (some efp) s.env).1.within connectTimeout)
      { s with env := (ports.network.connect addr (some efp) s.env).2 }).log = [] :=
    attempts_eq_nil (connected_logs (P := (¬ IsConnect ·)) (rateKey efp) _ _)
  rw [connectWithTimeout_run]
  rw [attempts] at hrest ⊢
  rw [List.filterMap_cons, hrest]
  by_cases hfp : efp = fp
  · simp only [hfp, if_true]
  · have hne : some efp ≠ some fp := fun h => hfp (Option.some.inj h)
    simp only [if_neg hfp, if_neg hne]

theorem setOnlineNow_logs {P : Call → Prop} (ports : Ports W) (peer : Peer) :
    Prog.Logs P (setOnlineNow ports peer) :=
  (Prog.Logs.silent _).bind fun _ => (Prog.Logs.silent _).bind fun _ => Prog.Logs.pure _

theorem setOnlineNow_keeps {I : App W → Prop} (ports : Ports W) (hI : Blind I) (peer : Peer) :
    Prog.Keeps I (setOnlineNow ports peer) :=
  (keeps_draw hI _).bind fun _ => (keeps_draw hI _).bind fun _ => Prog.Keeps.pure _

section
variable [Chrono]

/-- Steps 5 and 6: mark the peer verified if it is trusted, and store it. -/
def store (ports : Ports W) (connected : Peer) : UseCase W PeerResponse := do
  let trusted ← ports.isTrusted connected.fingerprint
  let peer := if trusted.toOption.getD false then connected.verify else connected
  let found ← ports.loadPeer peer.fingerprint
  let existing? ← orPersistence found
  match existing? with
  | some existing => do
      let now ← draw ports.utcNow
      let existing ← Prog.orFail (fun _ => .validation "addresses" "too many addresses")
        (existing.setAddresses peer.addresses now)
      let existing ← setOnlineNow ports existing
      let existing := if peer.verified then existing.verify else existing
      let saved ← ports.savePeer existing
      orPersistence saved
      pure (.fromPeer peer)
  | none => do
      let peer ← setOnlineNow ports peer
      let saved ← ports.savePeer peer
      orPersistence saved
      pure (.fromPeer peer)

/-- `ConnectPeerUseCase::execute` -/
def execute (ports : Ports W) (request : ConnectPeerRequest) : UseCase W PeerResponse := do
  let (addr, expectedFp) ← Prog.orFail id (validate ports request)
  let allowed ← checkLimiter (rateKey expectedFp)
  if allowed then do
    let peer ← connectWithTimeout ports addr expectedFp
    store ports peer
  else Prog.fail .rateLimited

/-! ## What one run does to the limiter

Storing a peer starts no connection and leaves the limiter alone, so a run is
decided by its first three calls. -/

section
variable (ports : Ports W)

theorem store_logs (peer : Peer) : Prog.Logs (¬ IsConnect ·) (store ports peer) := by
  rw [store]
  refine (Prog.Logs.call fun _ => id).bind ?_
  intro trusted
  refine (Prog.Logs.call fun _ => id).bind ?_
  intro found
  refine (Prog.Logs.orFail _ _).bind fun existing? => ?_
  cases existing? with
  | some existing =>
      refine (Prog.Logs.silent _).bind ?_
      intro now
      refine (Prog.Logs.orFail _ _).bind ?_
      intro existing
      refine (setOnlineNow_logs ports existing).bind ?_
      intro existing
      refine (Prog.Logs.call fun _ => id).bind ?_
      intro saved
      exact (Prog.Logs.orFail _ _).bind fun _ => Prog.Logs.pure _
  | none =>
      refine (setOnlineNow_logs ports _).bind ?_
      intro peer
      refine (Prog.Logs.call fun _ => id).bind ?_
      intro saved
      exact (Prog.Logs.orFail _ _).bind fun _ => Prog.Logs.pure _

theorem store_keeps {I : App W → Prop} (hI : Blind I) (peer : Peer) :
    Prog.Keeps I (store ports peer) := by
  rw [store]
  refine (keeps_ask hI _ _).bind ?_
  intro trusted
  refine (keeps_ask hI _ _).bind ?_
  intro found
  refine (Prog.Keeps.orFail _ _).bind fun existing? => ?_
  cases existing? with
  | some existing =>
      refine (keeps_draw hI _).bind ?_
      intro now
      refine (Prog.Keeps.orFail _ _).bind ?_
      intro existing
      refine (setOnlineNow_keeps ports hI existing).bind ?_
      intro existing
      refine (keeps_ask hI _ _).bind ?_
      intro saved
      exact (Prog.Keeps.orFail _ _).bind fun _ => Prog.Keeps.pure _
  | none =>
      refine (setOnlineNow_keeps ports hI _).bind ?_
      intro peer
      refine (keeps_ask hI _ _).bind ?_
      intro saved
      exact (Prog.Keeps.orFail _ _).bind fun _ => Prog.Keeps.pure _

/-- The run times out for `fp`: the request names `fp`, the limiter admits it,
and the connection does not answer within the deadline. -/
def timesOut (fp : Fingerprint) (s : App W) (request : ConnectPeerRequest) : Bool :=
  match validate ports request with
  | .error _ => false
  | .ok (addr, efp) =>
      decide (efp = fp) && (s.connectLimiter.check s.now (rateKey efp)).1 &&
        ((ports.network.connect addr (some efp) s.env).1.within connectTimeout).isNone

/-- The peer the run's connection ends up at, if it gets that far. -/
def connectsTo (s : App W) (request : ConnectPeerRequest) : Option Peer :=
  match validate ports request with
  | .error _ => none
  | .ok (addr, efp) =>
      if (s.connectLimiter.check s.now (rateKey efp)).1 then
        match (ports.network.connect addr (some efp) s.env).1.within connectTimeout with
        | some (.ok (_, peer)) => some peer
        | _ => none
      else none

theorem execute_invalid {request : ConnectPeerRequest} {e : ApplicationError}
    (hv : validate ports request = .error e) (s : App W) :
    execute ports request s = ⟨.err e, s, []⟩ := by
  simp only [execute, hv, Prog.orFail_error, Prog.bind_run, Prog.fail_run, id]

theorem execute_valid {request : ConnectPeerRequest} {addr : SocketAddr} {efp : Fingerprint}
    (hv : validate ports request = .ok (addr, efp)) (s : App W) :
    execute ports request s =
      (if (s.connectLimiter.check s.now (rateKey efp)).1 then
          connectWithTimeout ports addr efp >>= store ports
        else Prog.fail .rateLimited)
        { s with connectLimiter := (s.connectLimiter.check s.now (rateKey efp)).2 } := by
  simp only [execute, hv, Prog.orFail_ok, Prog.bind_run, Prog.pure_run, checkLimiter,
    Prog.silent_run, List.nil_append]

theorem attempts_admitted (fp : Fingerprint) (addr : SocketAddr) (efp : Fingerprint) (s : App W) :
    attempts fp ((connectWithTimeout ports addr efp >>= store ports) s).log
      = if efp = fp then [s.now] else [] := by
  obtain ⟨l, hlog, hl⟩ := Prog.Logs.after (x := connectWithTimeout ports addr efp)
    (store_logs ports) s
  rw [hlog, attempts_append, attempts_eq_nil hl, List.append_nil, attempts_connectWithTimeout]

theorem admitted_enforces {fp efp : Fingerprint} {admitted : List Instant} {t : Instant}
    {addr : SocketAddr} {s : App W} (h : s.connectLimiter.Enforces (rateKey fp) admitted t)
    (hintime : efp = fp → (ports.network.connect addr (some efp) s.env).1.within connectTimeout
      ≠ none) :
    ((connectWithTimeout ports addr efp >>= store ports) s).world.connectLimiter.Enforces
      (rateKey fp) admitted t := by
  let I : App W → Prop := fun s' => s'.connectLimiter.Enforces (rateKey fp) admitted t
  have hblind : Blind I := fun _ _ h => h
  have hconnect : I (connectWithTimeout ports addr efp s).world := by
    rw [connectWithTimeout_run]
    refine connected_enforces
      (s := { s with env := (ports.network.connect addr (some efp) s.env).2 }) h ?_
    by_cases hfp : efp = fp
    · exact .inl (hintime hfp)
    · exact .inr fun hkey => hfp (rateKey_injective hkey).symm
  exact Prog.bind_world (I := I) hconnect fun peer _ => store_keeps ports hblind peer _ hconnect

/-- One run: the attempts it starts for `fp` are added to those the limiter
enforces its window about, unless it times out for `fp`. -/
theorem execute_enforces {fp : Fingerprint} {admitted : List Instant} {t : Instant} {s : App W}
    {request : ConnectPeerRequest} (h : s.connectLimiter.Enforces (rateKey fp) admitted t)
    (ht : t ≤ s.now) (hno : timesOut ports fp s request = false) :
    (execute ports request s).world.connectLimiter.Enforces (rateKey fp)
      (admitted ++ attempts fp (execute ports request s).log) s.now := by
  cases hv : validate ports request with
  | error e =>
      rw [execute_invalid ports hv]
      exact (List.append_nil admitted).symm ▸ h.later ht
  | ok v =>
      obtain ⟨addr, efp⟩ := v
      rw [execute_valid ports hv]
      have hlater := h.later ht
      by_cases hfp : efp = fp
      · subst hfp
        have hchecked := hlater.check
        -- the limiter's verdict decides whether the run connects at all
        cases hok : (s.connectLimiter.check s.now (rateKey efp)).1 with
        | false =>
            rw [hok] at hchecked
            exact (List.append_nil admitted).symm ▸ hchecked
        | true =>
            rw [hok] at hchecked
            simp only [if_true]
            rw [attempts_admitted, if_pos rfl]
            refine admitted_enforces ports hchecked ?_
            intro _ hout
            simp only [timesOut, hv, hok, hout, Option.isNone_none, decide_true, Bool.and_self,
              Bool.true_eq_false] at hno
      · have hchecked : (s.connectLimiter.check s.now (rateKey efp)).2.Enforces (rateKey fp)
            admitted s.now :=
          hlater.check_of_ne fun hkey => hfp (rateKey_injective hkey).symm
        cases (s.connectLimiter.check s.now (rateKey efp)).1 with
        | false => exact (List.append_nil admitted).symm ▸ hchecked
        | true =>
            simp only [if_true]
            rw [attempts_admitted, if_neg hfp, List.append_nil]
            exact admitted_enforces ports hchecked fun h => absurd h hfp

/-- A run changes the limiter by checks and resets only. -/
theorem execute_keeps {I : App W → Prop} (hI : Blind I)
    (hcheck : ∀ s key, I s →
      I { s with connectLimiter := (s.connectLimiter.check s.now key).2 })
    (hreset : ∀ s key, I s → I { s with connectLimiter := s.connectLimiter.reset key })
    (request : ConnectPeerRequest) : Prog.Keeps I (execute ports request) := by
  refine (Prog.Keeps.orFail _ _).bind ?_
  rintro ⟨addr, expectedFp⟩
  refine (Prog.Keeps.silent fun s hs => hcheck s _ hs).bind ?_
  intro allowed
  cases allowed with
  | false => exact Prog.Keeps.fail _
  | true =>
      have hconnect : Prog.Keeps I (ports.connect addr (some expectedFp)) :=
        (Prog.Keeps.call fun s hs => hI s _ hs).bind fun _ => Prog.Keeps.pure _
      refine (hconnect.bind fun answer => ?_).bind fun peer => store_keeps ports hI peer
      exact connected_keeps _ (fun s hs => hreset s _ hs) _

/-! ## Sequences of runs

A run is placed at the instant its limiter is checked.  Runs may overlap: all
a run does to the limiter happens at that instant, the reset of a timeout
apart. -/

/-- A request and the instant it is made. -/
def handle (call : Instant × ConnectPeerRequest) : UseCase W PeerResponse :=
  startedAt call.1 (execute ports call.2)

/-- A limiter that enforces its window about `fp` when the first run starts
has done so about all the attempts after the last. -/
theorem serve_sparse {fp : Fingerprint} {window : Duration} {max : Nat}
    {calls : List (Instant × ConnectPeerRequest)} {s : App W} {admitted : List Instant} {t : Instant}
    (h : s.connectLimiter.Enforces (rateKey fp) admitted t)
    (hcfg : s.connectLimiter.window = window ∧ s.connectLimiter.maxAttempts = max)
    (horder : (t :: calls.map Prod.fst).Pairwise (· ≤ ·))
    (hno : ∀ e ∈ Prog.serve (handle ports) calls s,
      timesOut ports fp { e.before with now := e.request.1 } e.request.2 = false) :
    SlidingWindow.Sparse (RateLimiter.live window) max
      (admitted ++ attempts fp (Prog.history (Prog.serve (handle ports) calls s))) := by
  induction calls generalizing s admitted t with
  | nil =>
      rw [← hcfg.1, ← hcfg.2]
      exact (List.append_nil admitted).symm ▸ h.sparse
  | cons call rest ih =>
      obtain ⟨now, request⟩ := call
      have hrest := (List.pairwise_cons.mp horder).2
      have hnow : t ≤ now := (List.pairwise_cons.mp horder).1 now List.mem_cons_self
      -- the limiter's settings survive a run, so one window serves the whole sequence
      have hcfg' := execute_keeps ports
        (I := fun s => s.connectLimiter.window = window ∧ s.connectLimiter.maxAttempts = max)
        (fun _ _ h => h) (fun _ _ h => h) (fun _ _ h => h) request { s with now := now } hcfg
      have hfirst : timesOut ports fp { s with now := now } request = false :=
        hno ⟨(now, request), s, handle ports (now, request) s⟩ List.mem_cons_self
      have henf := execute_enforces ports (s := { s with now := now }) h hnow hfirst
      have hsparse := ih henf hcfg' hrest fun e he => hno e (List.mem_cons_of_mem _ he)
      rw [List.append_assoc, ← attempts_append] at hsparse
      exact hsparse

/-- In any 60-second window at most `connectRateLimit` connections for one
fingerprint are started, as long as none of them times out. -/
theorem rate_limited (fp : Fingerprint) (s : App W) (calls : List (Instant × ConnectPeerRequest))
    (hfresh : s.connectLimiter = .withConfig (seconds 60) connectRateLimit)
    (horder : (calls.map Prod.fst).Pairwise (· ≤ ·))
    (hno : ∀ e ∈ Prog.serve (handle ports) calls s,
      timesOut ports fp { e.before with now := e.request.1 } e.request.2 = false)
    (start : Instant) :
    ((attempts fp (Prog.history (Prog.serve (handle ports) calls s))).filter
      fun t => decide (start ≤ t ∧ t < start + seconds 60)).length ≤ connectRateLimit := by
  have hcfg : s.connectLimiter.window = seconds 60 ∧
      s.connectLimiter.maxAttempts = connectRateLimit := by
    rw [hfresh]
    exact ⟨rfl, rfl⟩
  have hstart : ∃ t, (t :: calls.map Prod.fst).Pairwise (· ≤ ·) := by
    cases calls with
    | nil => exact ⟨0, List.pairwise_singleton _ _⟩
    | cons c rest =>
        refine ⟨c.1, List.pairwise_cons.mpr ⟨fun t ht => ?_, horder⟩⟩
        rcases List.mem_cons.mp ht with rfl | ht
        · exact Int.le_refl _
        · exact (List.pairwise_cons.mp horder).1 t ht
  obtain ⟨t, horder'⟩ := hstart
  have hfresh' : s.connectLimiter.Enforces (rateKey fp) [] t := by
    rw [hfresh]
    exact .fresh _ _ _ t
  exact RateLimiter.length_window_le (serve_sparse ports hfresh' hcfg horder' hno) start

end
end

section
open Memory

/-- A request for the example peer. -/
def request : ConnectPeerRequest := ⟨address, peer.fingerprint.toFormattedString⟩

/-- Three refused connections within a minute. -/
theorem rate_limited_refused :
    ((attempts peer.fingerprint (Prog.history (Prog.serve (handle Memory.ports)
      [(0, request), (seconds 6, request), (seconds 12, request)] (app {})))).filter
        fun t => decide (0 ≤ t ∧ t < 0 + seconds 60)).length ≤ connectRateLimit :=
  rate_limited Memory.ports peer.fingerprint (app {}) _ rfl (by decide) (by decide +kernel) 0

/-- Four connections, none of which answers within the deadline: each timeout
resets the key, so all four are started within a minute. -/
theorem four_attempts_in_a_minute :
    ¬ ((attempts peer.fingerprint (Prog.history (Prog.serve (handle Memory.ports)
      [(0, request), (seconds 6, request), (seconds 12, request), (seconds 18, request)]
      (app { connection := ⟨seconds 6, .error .timeout⟩ })))).filter
        fun t => decide (0 ≤ t ∧ t < 0 + seconds 60)).length ≤ connectRateLimit := by
  decide +kernel

end

end ConnectPeer
end Rubix
