/-
# `Rubix.Application.RateWindow` — the limiter against the full history

The limiter forgets: a check drops the expired stamps of its key, and of that
key only.  Beside it, a run keeps for each key every check that was allowed
since the key's last reset.  Under a clock that does not go back, the limiter
answers as this history does:

    allowed at now   ↔   fewer than max allowed in (now - window, now]

(`Follows.check_iff`).  A check that is refused and a check for another key
leave the key's history alone, and so every answer behind them.
-/
import Mathlib.Data.Int.Order.Basic
import Rubix.Application.RateLimit
import Rubix.Lib.Runs

namespace Rubix.RateLimiter

open Runs

/-- The limiter's interface. -/
inductive LimiterOp where
  | check
  | reset
deriving DecidableEq

/-- A call, with the reading of the clock. -/
structure LimiterCall where
  now : Instant
  key : String
  op : LimiterOp

/-- The limiter, and for each key the instants of the checks it allowed since
the last reset of the key, oldest first. -/
structure LimiterHistory where
  limiter : RateLimiter
  allowed : String → List Instant

namespace LimiterHistory

def start (window : Duration) (maxAttempts : Nat) : LimiterHistory :=
  { limiter := withConfig window maxAttempts, allowed := fun _ => [] }

/-- The answer `check(key)` has at `now`. -/
def answer (s : LimiterHistory) (now : Instant) (key : String) : Bool :=
  (s.limiter.check now key).1

def step (s : LimiterHistory) (call : LimiterCall) : LimiterHistory :=
  match call.op with
  | .check =>
      { limiter := (s.limiter.check call.now call.key).2
        allowed := fun k =>
          if k = call.key then
            SlidingWindow.record (s.answer call.now call.key) call.now (s.allowed k)
          else s.allowed k }
  | .reset =>
      { limiter := s.limiter.reset call.key
        allowed := fun k => if k = call.key then [] else s.allowed k }

/-- The checks for `key` that a run allows, from its first call to its last. -/
def allowedCalls (key : String) : List LimiterCall → LimiterHistory → List Instant
  | [], _ => []
  | call :: calls, s =>
      if call.op = .check ∧ call.key = key ∧ s.answer call.now call.key = true then
        call.now :: allowedCalls key calls (s.step call)
      else allowedCalls key calls (s.step call)

/-- The limiter's stamps stand for the history, for every key. -/
structure Follows (window : Duration) (maxAttempts : Nat) (now : Instant) (s : LimiterHistory) :
    Prop where
  window_eq : s.limiter.window = window
  maxAttempts_eq : s.limiter.maxAttempts = maxAttempts
  enforces : ∀ key, s.limiter.Enforces key (s.allowed key) now

variable {window : Duration} {maxAttempts : Nat} {now : Instant} {s s' : LimiterHistory}

theorem Follows.start (window : Duration) (maxAttempts : Nat) (now : Instant) :
    Follows window maxAttempts now (start window maxAttempts) where
  window_eq := rfl
  maxAttempts_eq := rfl
  enforces := fun key => Enforces.fresh window maxAttempts key now

/-- The answer of a check, off the history. -/
theorem Follows.answer_iff (h : Follows window maxAttempts now s) (key : String) :
    s.answer now key = true ↔
      ((s.allowed key).filter fun t => decide (now - window < t)).length < maxAttempts := by
  have hcheck := (h.enforces key).check_iff
  rw [h.window_eq, h.maxAttempts_eq] at hcheck
  exact hcheck

theorem Follows.step {call : LimiterCall} (h : Follows window maxAttempts call.now s) :
    Follows window maxAttempts call.now (s.step call) := by
  obtain ⟨now, key, op⟩ := call
  cases op with
  | check =>
      refine ⟨h.window_eq, h.maxAttempts_eq, ?_⟩
      intro k
      show (s.limiter.check now key).2.Enforces k (if k = key then _ else _) now
      by_cases hk : k = key
      · subst hk
        rw [if_pos rfl]
        exact (h.enforces k).check
      · rw [if_neg hk]
        exact (h.enforces k).check_of_ne hk
  | reset =>
      refine ⟨h.window_eq, h.maxAttempts_eq, ?_⟩
      intro k
      show (s.limiter.reset key).Enforces k (if k = key then _ else _) now
      by_cases hk : k = key
      · subst hk
        rw [if_pos rfl]
        exact Enforces.reset
      · rw [if_neg hk]
        exact (h.enforces k).reset_of_ne hk

theorem Follows.clocked : Clocked LimiterHistory.step LimiterCall.now (Follows window maxAttempts) where
  later := fun h hle => ⟨h.window_eq, h.maxAttempts_eq, fun key => (h.enforces key).later hle⟩
  step := Follows.step

/-! ## What a run allows -/

/-- On a run that does not reset the key, the history grows by what the run
allows. -/
theorem allowed_run {key : String} {calls : List LimiterCall} (s : LimiterHistory)
    (hreset : ∀ call ∈ calls, call.op = .reset → call.key ≠ key) :
    (run step calls s).allowed key = s.allowed key ++ allowedCalls key calls s := by
  induction calls generalizing s with
  | nil => exact (List.append_nil _).symm
  | cons call calls ih =>
      have hrest := ih (s.step call) fun c hc => hreset c (List.mem_cons_of_mem _ hc)
      rw [run_cons, hrest, allowedCalls]
      obtain ⟨now, k, op⟩ := call
      cases op with
      | check =>
          show (if key = k then SlidingWindow.record _ _ _ else _) ++ _ = _
          by_cases hk : key = k
          · subst hk
            cases hanswer : s.answer now key with
            | true => simp [SlidingWindow.record]
            | false => simp [SlidingWindow.record]
          · rw [if_neg hk, if_neg (fun hcond => hk hcond.2.1.symm)]
      | reset =>
          have hk : key ≠ k := fun heq => hreset _ List.mem_cons_self rfl heq.symm
          show (if key = k then _ else _) ++ _ = _
          rw [if_neg hk, if_neg (fun hcond => nomatch hcond.1)]

/-! ## Two limiters with one history -/

/-- Both follow the same history. -/
structure Agree (window : Duration) (maxAttempts : Nat) (now : Instant)
    (p : LimiterHistory × LimiterHistory) : Prop where
  left : Follows window maxAttempts now p.1
  right : Follows window maxAttempts now p.2
  allowed_eq : p.1.allowed = p.2.allowed

theorem Agree.answer_eq (h : Agree window maxAttempts now (s, s')) (key : String) :
    s.answer now key = s'.answer now key := by
  rw [Bool.eq_iff_iff, h.left.answer_iff, h.right.answer_iff, h.allowed_eq]

theorem Agree.clocked : Clocked (both LimiterHistory.step) LimiterCall.now (Agree window maxAttempts) where
  later := fun h hle =>
    ⟨Follows.clocked.later h.left hle, Follows.clocked.later h.right hle, h.allowed_eq⟩
  step := by
    rintro ⟨s, s'⟩ call h
    refine ⟨h.left.step, h.right.step, ?_⟩
    have hanswer := h.answer_eq call.key
    have hallowed : s.allowed = s'.allowed := h.allowed_eq
    show (s.step call).allowed = (s'.step call).allowed
    rw [step, step]
    cases call.op with
    | check => simp only [hanswer, hallowed]
    | reset => simp only [hallowed]

/-- A refused check is not in the history. -/
theorem allowed_step_of_refused {call : LimiterCall} (hop : call.op = .check)
    (hrefused : s.answer call.now call.key = false) : (s.step call).allowed = s.allowed := by
  funext k
  rw [step, hop]
  show (if k = call.key then SlidingWindow.record _ _ _ else _) = _
  rw [hrefused]
  split
  · rfl
  · rfl

/-! ## The calls for one key -/

/-- The two limiters have the same stamps for `key`. -/
structure SameFor (key : String) (l l' : RateLimiter) : Prop where
  window_eq : l.window = l'.window
  maxAttempts_eq : l.maxAttempts = l'.maxAttempts
  state_eq : l.state key = l'.state key

theorem SameFor.answer_eq {key : String} (h : SameFor key s.limiter s'.limiter) (now : Instant) :
    s.answer now key = s'.answer now key := by
  rw [answer, answer, check, check, h.window_eq, h.maxAttempts_eq, h.state_eq]

theorem SameFor.step {key : String} (h : SameFor key s.limiter s'.limiter) (call : LimiterCall) :
    SameFor key (s.step call).limiter (s'.step call).limiter := by
  obtain ⟨now, k, op⟩ := call
  cases op with
  | check =>
      refine ⟨h.window_eq, h.maxAttempts_eq, ?_⟩
      show (if key = k then _ else _) = (if key = k then _ else _)
      by_cases hk : key = k
      · subst hk
        rw [if_pos rfl, if_pos rfl, h.window_eq, h.maxAttempts_eq, h.state_eq]
      · rw [if_neg hk, if_neg hk]
        exact h.state_eq
  | reset =>
      refine ⟨h.window_eq, h.maxAttempts_eq, ?_⟩
      show (if key = k then _ else _) = (if key = k then _ else _)
      rw [h.state_eq]

theorem SameFor.step_of_ne {key : String} (h : SameFor key s.limiter s'.limiter)
    {call : LimiterCall} (hk : call.key ≠ key) :
    SameFor key (s.step call).limiter s'.limiter := by
  obtain ⟨now, k, op⟩ := call
  cases op with
  | check => exact ⟨h.window_eq, h.maxAttempts_eq, (if_neg hk.symm).trans h.state_eq⟩
  | reset => exact ⟨h.window_eq, h.maxAttempts_eq, (if_neg hk.symm).trans h.state_eq⟩

/-- A run does for the key what its calls for the key do. -/
theorem SameFor.run_filter {key : String} (h : SameFor key s.limiter s'.limiter)
    (calls : List LimiterCall) :
    SameFor key (run LimiterHistory.step calls s).limiter
      (run LimiterHistory.step (calls.filter fun call => call.key = key) s').limiter := by
  induction calls generalizing s s' with
  | nil => exact h
  | cons call calls ih =>
      by_cases hk : call.key = key
      · rw [List.filter_cons, if_pos (decide_eq_true hk)]
        exact ih (h.step call)
      · rw [List.filter_cons, if_neg (by rwa [decide_eq_true_eq])]
        exact ih (h.step_of_ne hk)

/-! ## The limiter is an exact window for each key -/

theorem Agree.of_refused {call : LimiterCall} (h : Follows window maxAttempts call.now s)
    (hop : call.op = .check) (hrefused : s.answer call.now call.key = false) :
    Agree window maxAttempts call.now (s.step call, s) :=
  ⟨h.step, h, allowed_step_of_refused hop hrefused⟩

/-- For every window and limit, and every run of checks and resets of any keys
under a clock that does not go back:

* a check is allowed exactly if fewer than `maxAttempts` checks of its key,
  allowed since the key's last reset, are younger than the window;
* if the key is not reset, at most `maxAttempts` of the checks allowed for it
  lie in any interval of one window, closed on either side;
* what is answered behind a refused check is what would be answered without
  it;
* and the answers for a key are those of its own calls. -/
theorem exact_window (window : Duration) (maxAttempts : Nat) {calls : List LimiterCall}
    (hclock : (calls.map LimiterCall.now).Pairwise (· ≤ ·)) :
    Guarded step (fun s call => s.answer call.now call.key = true ↔
        ((s.allowed call.key).filter fun t => decide (call.now - window < t)).length < maxAttempts)
      calls (start window maxAttempts) ∧
    (∀ key, (∀ call ∈ calls, call.op = .reset → call.key ≠ key) → ∀ lower : Instant,
      ((allowedCalls key calls (start window maxAttempts)).filter fun t =>
          decide (lower ≤ t ∧ t < lower + window)).length ≤ maxAttempts ∧
      ((allowedCalls key calls (start window maxAttempts)).filter fun t =>
          decide (lower < t ∧ t ≤ lower + window)).length ≤ maxAttempts) ∧
    (∀ before call after last, before ++ call :: after ++ [last] <+: calls → call.op = .check →
      (run step before (start window maxAttempts)).answer call.now call.key = false →
      (run step (before ++ call :: after) (start window maxAttempts)).answer last.now last.key =
        (run step (before ++ after) (start window maxAttempts)).answer last.now last.key) ∧
    (∀ before call, before ++ [call] <+: calls →
      (run step before (start window maxAttempts)).answer call.now call.key =
        (run step (before.filter fun c => c.key = call.key)
          (start window maxAttempts)).answer call.now call.key) := by
  obtain ⟨t, hstart⟩ := exists_before hclock
  have hbegin : Follows window maxAttempts t (start window maxAttempts) :=
    Follows.start window maxAttempts t
  have hfollows := Follows.clocked.guarded hbegin hstart
  refine ⟨?_, ?_, ?_, ?_⟩
  · intro before call hbefore
    exact (hfollows before call hbefore).answer_iff call.key
  · intro key hreset lower
    obtain ⟨t', hlast⟩ := (Follows.clocked.always hbegin hstart).last
    have hall := allowed_run (start window maxAttempts) hreset
    rw [show (start window maxAttempts).allowed key = [] from rfl, List.nil_append] at hall
    have hsparse := (hlast.enforces key).sparse
    rw [hlast.window_eq, hlast.maxAttempts_eq, hall] at hsparse
    exact ⟨length_window_le hsparse lower, length_window_le' hsparse lower⟩
  · intro before call after last hprefix hop hrefused
    have hcall : before ++ [call] <+: calls := by
      refine List.IsPrefix.trans ⟨after ++ [last], ?_⟩ hprefix
      simp
    have hagree := Agree.of_refused (hfollows before call hcall) hop hrefused
    -- from the refused call on, the readings go up
    have hbehind : (call.now :: (after ++ [last]).map LimiterCall.now).Pairwise (· ≤ ·) := by
      refine hclock.sublist ?_
      have hsub : (call :: (after ++ [last])).Sublist calls := by
        refine List.Sublist.trans ?_ hprefix.sublist
        rw [List.append_assoc, List.cons_append]
        exact List.sublist_append_right _ _
      exact hsub.map LimiterCall.now
    have hlast := Agree.clocked.both_guarded hagree hbehind List.prefix_rfl
    rw [run_append, run_cons, run_append]
    exact hlast.answer_eq last.key
  · intro before call _
    have hsame : SameFor call.key (start window maxAttempts).limiter
        (start window maxAttempts).limiter := ⟨rfl, rfl, rfl⟩
    exact (hsame.run_filter before).answer_eq call.now

/-- Two keys, a limit of two, and a check just at the window's edge. -/
def edge : List LimiterCall :=
  [⟨0, "peer_a", .check⟩, ⟨1, "peer_a", .check⟩, ⟨9, "peer_a", .check⟩, ⟨9, "peer_b", .check⟩,
    ⟨10, "peer_a", .check⟩]

theorem edge_window :
    Guarded step (fun s call => s.answer call.now call.key = true ↔
        ((s.allowed call.key).filter fun t => decide (call.now - 10 < t)).length < 2)
      edge (start 10 2) ∧
    (∀ key, (∀ call ∈ edge, call.op = .reset → call.key ≠ key) → ∀ lower : Instant,
      ((allowedCalls key edge (start 10 2)).filter fun t =>
          decide (lower ≤ t ∧ t < lower + 10)).length ≤ 2 ∧
      ((allowedCalls key edge (start 10 2)).filter fun t =>
          decide (lower < t ∧ t ≤ lower + 10)).length ≤ 2) ∧
    (∀ before call after last, before ++ call :: after ++ [last] <+: edge → call.op = .check →
      (run step before (start 10 2)).answer call.now call.key = false →
      (run step (before ++ call :: after) (start 10 2)).answer last.now last.key =
        (run step (before ++ after) (start 10 2)).answer last.now last.key) ∧
    (∀ before call, before ++ [call] <+: edge →
      (run step before (start 10 2)).answer call.now call.key =
        (run step (before.filter fun c => c.key = call.key)
          (start 10 2)).answer call.now call.key) :=
  exact_window 10 2 (by decide)

example : allowedCalls "peer_a" edge (start 10 2) = [0, 1, 10] := by decide

end LimiterHistory
end Rubix.RateLimiter
