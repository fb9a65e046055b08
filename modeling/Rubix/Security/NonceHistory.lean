/-
# `Rubix.Security.NonceHistory` — what the replay cache remembers of a run

Beside the cache, a run keeps every pair that was ever accepted, with the
instant of its acceptance.  Under a clock that does not go back, the queue of
the cache is a window of this history:

    order = the last `max_entries` accepted, less those that have expired

at the reading of the last call (`Remembers.order_eq`).  Capacity eviction and
expiry take from the front of the same sequence, and a pair that comes again
after it has expired is a new entry at the back.
-/
import Rubix.Lib.Runs
import Rubix.Security.NonceCache

namespace Rubix.Security.NonceCache

open Runs ExpiringQueue

/-- The cache and all it ever accepted, oldest first. -/
structure History where
  cache : NonceCache
  accepted : List (NonceKey × Instant)

/-- A call of `check_and_insert`: the reading of the clock and the pair. -/
abbrev Call := Instant × NonceKey

namespace History

def start (maxEntries : Nat) : History := { cache := new maxEntries, accepted := [] }

/-- The answer of the next call. -/
def answer (s : History) (call : Call) : Bool := (s.cache.checkAndInsert call.1 call.2).1

def step (s : History) (call : Call) : History :=
  { cache := (s.cache.checkAndInsert call.1 call.2).2
    accepted := if s.answer call then s.accepted ++ [(call.2, call.1)] else s.accepted }

/-- The set and the queue are in step, and the queue is in order and bounded. -/
structure InStep (maxEntries : Nat) (c : NonceCache) : Prop where
  inner_eq : c.inner = (c.order.map Prod.fst).toFinset
  nodup : (c.order.map Prod.fst).Nodup
  sorted : (c.order.map Prod.snd).Pairwise (· ≤ ·)
  bounded : c.order.length ≤ maxEntries

/-- The pair is among the last `maxEntries` accepted, at most 60 seconds ago. -/
def SeenLately (maxEntries : Nat) (s : History) (call : Call) : Prop :=
  ∃ t, (call.2, t) ∈ s.accepted.rtake maxEntries ∧ call.1 - t ≤ nonceCacheTtl

/-- What the cache has of the history at `now`. -/
structure Remembers (maxEntries : Nat) (now : Instant) (s : History) : Prop where
  wellFormed : s.cache.WellFormed
  maxEntries_eq : s.cache.maxEntries = maxEntries
  sorted : (s.accepted.map Prod.snd).Pairwise (· ≤ ·)
  past : ∀ t ∈ s.accepted.map Prod.snd, t ≤ now
  order_eq : ∃ last, last ≤ now ∧ s.cache.order = window expired maxEntries last s.accepted

end History

theorem ages_expired : Ages expired where
  fresh_now t := by simp [expired, nonceCacheTtl, seconds]
  mono := by
    intro t t' now now' ht hnow h
    simp only [expired, decide_eq_true_eq] at h ⊢
    show nonceCacheTtl < now' - t'
    have ht' : (t' : Int) ≤ t := ht
    have hnow' : (now : Int) ≤ now' := hnow
    have h' : (nonceCacheTtl : Int) < now - t := h
    exact Int.lt_of_lt_of_le h' (Int.sub_le_sub hnow' ht')

namespace History

variable {maxEntries : Nat} {now : Instant} {s : History}

theorem Remembers.start (maxEntries : Nat) (now : Instant) :
    Remembers maxEntries now (start maxEntries) where
  wellFormed := wellFormed_new maxEntries
  maxEntries_eq := rfl
  sorted := List.Pairwise.nil
  past := fun _ ht => absurd ht List.not_mem_nil
  order_eq := ⟨now, le_rfl, by simp [window, fresh, History.start, new]⟩

theorem Remembers.inStep (h : Remembers maxEntries now s) : InStep maxEntries s.cache := by
  obtain ⟨last, -, horder⟩ := h.order_eq
  have hsuffix : s.cache.order <:+ s.accepted := horder ▸ window_suffix _ _ _ _
  refine ⟨h.wellFormed.inner_eq, h.wellFormed.nodup, ?_, ?_⟩
  · exact h.sorted.sublist (hsuffix.sublist.map Prod.snd)
  · rw [horder]
    exact length_window_le _ _ _ _

/-- The answer of a call, off the history. -/
theorem Remembers.answer_iff {call : Call} (h : Remembers maxEntries call.1 s) :
    s.answer call = false ↔ SeenLately maxEntries s call := by
  obtain ⟨last, hlast, horder⟩ := h.order_eq
  obtain ⟨hanswer, -⟩ := checkAndInsert_eq h.wellFormed call.1 call.2
  rw [answer, hanswer, h.maxEntries_eq, horder, offer_refuses_iff ages_expired h.sorted hlast]
  refine exists_congr ?_
  intro t
  rw [expired, decide_eq_false_iff_not, Int.not_lt]

theorem step_accepted (s : History) (call : Call) :
    (s.step call).accepted = s.accepted ∨
      (s.step call).accepted = s.accepted ++ [(call.2, call.1)] := by
  rw [step]
  cases s.answer call with
  | false => exact .inl rfl
  | true => exact .inr rfl

/-- A call keeps the window. -/
theorem Remembers.step {call : Call} (hmax : 1 ≤ maxEntries)
    (h : Remembers maxEntries call.1 s) : Remembers maxEntries call.1 (s.step call) := by
  obtain ⟨last, hlast, horder⟩ := h.order_eq
  obtain ⟨hanswer, hnext, hmaxEntries, hwell⟩ := checkAndInsert_eq h.wellFormed call.1 call.2
  rw [h.maxEntries_eq, horder] at hanswer hnext
  refine ⟨hwell, hmaxEntries.trans h.maxEntries_eq, ?_, ?_, call.1, le_rfl, ?_⟩
  · rcases step_accepted s call with hsame | hmore
    · exact hsame ▸ h.sorted
    · rw [hmore, List.map_append, List.pairwise_append]
      refine ⟨h.sorted, List.pairwise_singleton _ _, ?_⟩
      intro t ht t' ht'
      rw [List.map_singleton, List.mem_singleton] at ht'
      exact ht' ▸ h.past t ht
  · intro t ht
    rcases step_accepted s call with hsame | hmore
    · exact h.past t (hsame ▸ ht)
    · rw [hmore, List.map_append, List.mem_append, List.map_singleton, List.mem_singleton] at ht
      rcases ht with ht | rfl
      · exact h.past t ht
      · exact le_rfl
  · show (s.cache.checkAndInsert call.1 call.2).2.order = _
    rw [hnext, offer_window ages_expired hmax h.sorted hlast, ← hanswer]
    rfl

theorem Remembers.clocked (hmax : 1 ≤ maxEntries) :
    Clocked History.step Prod.fst (Remembers maxEntries) where
  later := by
    intro now now' s h hle
    obtain ⟨last, hlast, horder⟩ := h.order_eq
    exact ⟨h.wellFormed, h.maxEntries_eq, h.sorted, fun t ht => (h.past t ht).trans hle,
      last, hlast.trans hle, horder⟩
  step := Remembers.step hmax

/-- On every run under a clock that does not go back, the two collections stay
in step, in order and bounded, and a call is refused exactly if its pair is
among the last `maxEntries` accepted and was accepted at most 60 seconds ago. -/
theorem check_and_insert_spec (hmax : 1 ≤ maxEntries) {calls : List Call}
    (hclock : (calls.map Prod.fst).Pairwise (· ≤ ·)) :
    Always step (fun s => InStep maxEntries s.cache) calls (start maxEntries) ∧
      Guarded step (fun s call => s.answer call = false ↔ SeenLately maxEntries s call) calls
        (start maxEntries) := by
  obtain ⟨t, hstart⟩ := exists_before hclock
  have hbegin : Remembers maxEntries t (start maxEntries) := Remembers.start maxEntries t
  constructor
  · refine ((Remembers.clocked hmax).always hbegin hstart).imp ?_
    rintro s ⟨now, h⟩
    exact h.inStep
  · intro before call hbefore
    exact ((Remembers.clocked hmax).guarded hbegin hstart before call hbefore).answer_iff

/-- A pair that comes three times, the third time after it has expired, in a
cache with room for two. -/
def repeated : List Call :=
  let key : UInt8 → NonceKey := fun b => (⟨Vector.replicate 20 b⟩, Vector.replicate 12 b)
  [(seconds 0, key 1), (seconds 60, key 1), (seconds 61, key 1), (seconds 62, key 2),
    (seconds 62, key 3), (seconds 62, key 1)]

theorem repeated_spec :
    Always step (fun s => InStep 2 s.cache) repeated (start 2) ∧
      Guarded step (fun s call => s.answer call = false ↔ SeenLately 2 s call) repeated (start 2) :=
  check_and_insert_spec (by decide) (by decide)

end History
end Rubix.Security.NonceCache
