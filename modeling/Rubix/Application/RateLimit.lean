/-
# `Rubix.Application.RateLimit` — the in-memory rate limiter

A sliding window of stamps for each key.  A key that is absent from the map
and a key with no stamps behave alike, so the map is a total function.

`Enforces` is the invariant a limiter keeps about one key: the attempts it
admitted for the key are what its stamps stand for, and no `maxAttempts + 1`
of them lie within one window.  `check` keeps it for every key; `reset` keeps
it for every key but its own, for which it starts over.
-/
import Rubix.Domain.Basic
import Rubix.Lib.SlidingWindow

namespace Rubix

/-- `tokio::time::Instant`, in nanoseconds.  As on Linux, an instant may lie
before the process started, so subtracting a window never fails. -/
abbrev Instant := Int

/-- Simple sliding-window rate limiter. -/
structure RateLimiter where
  state : String → List Instant
  window : Duration
  maxAttempts : Nat

namespace RateLimiter

def defaultWindow : Duration := seconds 60
def defaultMaxAttempts : Nat := 5

/-- `RateLimiter::with_config` -/
def withConfig (window : Duration) (maxAttempts : Nat) : RateLimiter :=
  { state := fun _ => [], window, maxAttempts }

/-- `RateLimiter::new`, the limiter of the send use case. -/
def new : RateLimiter := withConfig defaultWindow defaultMaxAttempts

/-- A stamp counts while it is younger than the window. -/
def live (window : Duration) (t now : Instant) : Bool := decide (now - window < t)

/-- `RateLimiter::check` -/
def check (l : RateLimiter) (now : Instant) (key : String) : Bool × RateLimiter :=
  let r := SlidingWindow.attempt (live l.window) l.maxAttempts now (l.state key)
  (r.1, { l with state := fun k => if k = key then r.2 else l.state k })

/-- `RateLimiter::reset` -/
def reset (l : RateLimiter) (key : String) : RateLimiter :=
  { l with state := fun k => if k = key then [] else l.state k }

theorem check_state_of_ne (l : RateLimiter) (now : Instant) {key k : String} (h : k ≠ key) :
    (l.check now key).2.state k = l.state k := if_neg h

/-- A later instant comes after. -/
theorem live_after (window : Duration) {now now' : Instant} (h : now ≤ now') :
    SlidingWindow.After (live window) now now' := by
  intro t ht
  simp only [live, decide_eq_true_eq] at ht ⊢
  exact Int.lt_of_le_of_lt (Int.sub_le_sub_right h window) ht

/-! ## What a limiter enforces -/

/-- The limiter's stamps for `key` stand for the attempts admitted for it up
to `now`, and these are sparse. -/
structure Enforces (l : RateLimiter) (key : String) (admitted : List Instant) (now : Instant) :
    Prop where
  tracks : SlidingWindow.Tracks (live l.window) (l.state key) admitted now
  sparse : SlidingWindow.Sparse (live l.window) l.maxAttempts admitted

theorem Enforces.fresh (window : Duration) (maxAttempts : Nat) (key : String) (now : Instant) :
    (withConfig window maxAttempts).Enforces key [] now :=
  ⟨fun _ _ => rfl, SlidingWindow.Sparse.nil⟩

theorem Enforces.later {l : RateLimiter} {key : String} {admitted : List Instant}
    {now now' : Instant} (h : l.Enforces key admitted now) (hn : now ≤ now') :
    l.Enforces key admitted now' :=
  ⟨h.tracks.later (live_after l.window hn), h.sparse⟩

/-- A check for the key itself: admitted or not, the invariant holds of what
has been admitted then. -/
theorem Enforces.check {l : RateLimiter} {key : String} {admitted : List Instant} {now : Instant}
    (h : l.Enforces key admitted now) :
    (l.check now key).2.Enforces key
      (SlidingWindow.record (l.check now key).1 now admitted) now := by
  constructor
  · show SlidingWindow.Tracks _ (if key = key then _ else _) _ _
    rw [if_pos rfl]
    exact h.tracks.attempt
  · exact h.sparse.attempt h.tracks

/-- A check for another key changes nothing. -/
theorem Enforces.check_of_ne {l : RateLimiter} {key k : String} {admitted : List Instant}
    {now now' : Instant} (h : l.Enforces k admitted now) (hk : k ≠ key) :
    (l.check now' key).2.Enforces k admitted now := by
  constructor
  · rw [check_state_of_ne l now' hk]
    exact h.tracks
  · exact h.sparse

/-- Nor does a reset of another key. -/
theorem Enforces.reset_of_ne {l : RateLimiter} {key k : String} {admitted : List Instant}
    {now : Instant} (h : l.Enforces k admitted now) (hk : k ≠ key) :
    (l.reset key).Enforces k admitted now := by
  refine ⟨?_, h.sparse⟩
  have hstate : (l.reset key).state k = l.state k := if_neg hk
  rw [hstate]
  exact h.tracks

/-- A reset of the key itself starts over. -/
theorem Enforces.reset {l : RateLimiter} {key : String} {now : Instant} :
    (l.reset key).Enforces key [] now := by
  refine ⟨?_, SlidingWindow.Sparse.nil⟩
  have hstate : (l.reset key).state key = [] := if_pos rfl
  intro n _
  rw [hstate]

/-- The answer of a check, off the attempts admitted for its key. -/
theorem Enforces.check_iff {l : RateLimiter} {key : String} {admitted : List Instant}
    {now : Instant} (h : l.Enforces key admitted now) :
    (l.check now key).1 = true ↔
      (admitted.filter (live l.window · now)).length < l.maxAttempts :=
  h.tracks.attempt_iff

/-- Of sparse attempts, at most `max` lie in `[start, start + window)`. -/
theorem length_window_le {window : Duration} {max : Nat} {admitted : List Instant}
    (h : SlidingWindow.Sparse (live window) max admitted) (start : Instant) :
    (admitted.filter fun t => decide (start ≤ t ∧ t < start + window)).length ≤ max := by
  refine h.length_filter_le ?_
  intro a b ha hb
  simp only [live, decide_eq_true_eq] at ha hb ⊢
  exact Int.sub_right_lt_of_lt_add (Int.lt_of_lt_of_le hb.2 (Int.add_le_add_right ha.1 _))

/-- And at most `max` in `(start, start + window]`. -/
theorem length_window_le' {window : Duration} {max : Nat} {admitted : List Instant}
    (h : SlidingWindow.Sparse (live window) max admitted) (start : Instant) :
    (admitted.filter fun t => decide (start < t ∧ t ≤ start + window)).length ≤ max := by
  refine h.length_filter_le ?_
  intro a b ha hb
  simp only [live, decide_eq_true_eq] at ha hb ⊢
  exact Int.lt_of_le_of_lt (Int.sub_right_le_of_le_add hb.2) ha.1

end RateLimiter
end Rubix
