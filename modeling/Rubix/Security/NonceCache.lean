/-
# `Rubix.Security.NonceCache` — the replay cache of the handshakes

A set of (fingerprint, nonce) pairs for membership and a queue of the same
pairs with the instants they were inserted at, oldest first.  The code keeps
the two in step by hand; `WellFormed` says that they are, and over a
well-formed cache `check_and_insert` is one admission to the expiring queue
(`checkAndInsert_eq`).
-/
import Mathlib.Data.Finset.Card
import Rubix.Domain.Fingerprint
import Rubix.Lib.ExpiringQueue

namespace Rubix.Security

/-- `std::time::Instant`, in nanoseconds. -/
abbrev Instant := Int

def nonceCacheTtl : Duration := seconds 60

abbrev NonceKey := Fingerprint × Vector UInt8 12

/-- Shared nonce cache to prevent replay attacks across handshakes. -/
structure NonceCache where
  inner : Finset NonceKey
  order : List (NonceKey × Instant)
  maxEntries : Nat

namespace NonceCache

/-- `NonceCache::new` -/
def new (maxEntries : Nat) : NonceCache := { inner := ∅, order := [], maxEntries }

/-- An entry of the queue is older than the cache keeps it. -/
def expired (t now : Instant) : Bool := decide (nonceCacheTtl < now - t)

/-- The `while let` loop: evict expired entries from the front. -/
def evictExpired (now : Instant) (inner : Finset NonceKey) :
    List (NonceKey × Instant) → Finset NonceKey × List (NonceKey × Instant)
  | [] => (inner, [])
  | (k, t) :: rest =>
      if expired t now then evictExpired now (inner.erase k) rest else (inner, (k, t) :: rest)

/-- Evict the oldest entry if at capacity. -/
def evictOldest (maxEntries : Nat) (inner : Finset NonceKey) (order : List (NonceKey × Instant)) :
    Finset NonceKey × List (NonceKey × Instant) :=
  if maxEntries ≤ inner.card then
    match order with
    | [] => (inner, [])
    | (k, _) :: rest => (inner.erase k, rest)
  else (inner, order)

/-- `NonceCache::check_and_insert`, with one reading of the clock. -/
def checkAndInsert (c : NonceCache) (now : Instant) (key : NonceKey) : Bool × NonceCache :=
  let (inner, order) := evictExpired now c.inner c.order
  if key ∈ inner then (false, { c with inner, order })
  else
    let (inner, order) := evictOldest c.maxEntries inner order
    (true, { c with inner := insert key inner, order := order ++ [(key, now)] })

/-- The pairs that the cache still has at `now`. -/
def remembered (c : NonceCache) (now : Instant) : Finset NonceKey :=
  (evictExpired now c.inner c.order).1

theorem checkAndInsert_refuses {c : NonceCache} {now : Instant} {key : NonceKey} :
    (c.checkAndInsert now key).1 = false ↔ key ∈ c.remembered now := by
  rw [checkAndInsert, remembered]
  dsimp only
  split
  · next hkey => exact iff_of_true rfl hkey
  · next hkey => exact iff_of_false Bool.true_eq_false.mp hkey

theorem evictExpired_subset (now : Instant) (inner : Finset NonceKey)
    (order : List (NonceKey × Instant)) : (evictExpired now inner order).1 ⊆ inner := by
  induction order generalizing inner with
  | nil => exact Finset.Subset.refl _
  | cons e rest ih =>
      obtain ⟨k, t⟩ := e
      rw [evictExpired]
      split
      · exact (ih _).trans (Finset.erase_subset _ _)
      · exact Finset.Subset.refl _

theorem evictOldest_subset (maxEntries : Nat) (inner : Finset NonceKey)
    (order : List (NonceKey × Instant)) : (evictOldest maxEntries inner order).1 ⊆ inner := by
  simp only [evictOldest]
  split
  · cases order with
    | nil => exact Finset.Subset.refl _
    | cons e rest => exact Finset.erase_subset _ _
  · exact Finset.Subset.refl _

/-- A pair that the cache has not seen is inserted. -/
theorem checkAndInsert_new {c : NonceCache} {now : Instant} {key : NonceKey} (h : key ∉ c.inner) :
    (c.checkAndInsert now key).1 = true := by
  refine Bool.eq_true_of_not_eq_false ?_
  intro hrefused
  exact h (evictExpired_subset now _ _ (checkAndInsert_refuses.mp hrefused))

/-- No other pair gets into the cache. -/
theorem checkAndInsert_subset (c : NonceCache) (now : Instant) (key : NonceKey) :
    (c.checkAndInsert now key).2.inner ⊆ insert key c.inner := by
  have hevicted := evictExpired_subset now c.inner c.order
  rw [checkAndInsert]
  dsimp only
  split
  · exact hevicted.trans (Finset.subset_insert _ _)
  · exact Finset.insert_subset_insert _ ((evictOldest_subset _ _ _).trans hevicted)

/-- The set holds the queue's pairs, and the queue holds none twice. -/
structure WellFormed (c : NonceCache) : Prop where
  inner_eq : c.inner = (c.order.map Prod.fst).toFinset
  nodup : (c.order.map Prod.fst).Nodup

theorem wellFormed_new (maxEntries : Nat) : (new maxEntries).WellFormed := ⟨rfl, List.nodup_nil⟩

/-! ## The three steps of an insertion -/

/-- Taking the key at the front of the queue out of the set. -/
theorem erase_front {k : NonceKey} {t : Instant} {rest : List (NonceKey × Instant)}
    (h : (((k, t) :: rest).map Prod.fst).Nodup) :
    (((k, t) :: rest).map Prod.fst).toFinset.erase k = (rest.map Prod.fst).toFinset := by
  have hk : k ∉ rest.map Prod.fst := (List.nodup_cons.mp h).1
  rw [List.map_cons, List.toFinset_cons, Finset.erase_insert]
  rwa [List.mem_toFinset]

theorem evictExpired_eq (now : Instant) {order : List (NonceKey × Instant)}
    (h : (order.map Prod.fst).Nodup) :
    evictExpired now (order.map Prod.fst).toFinset order
      = (((ExpiringQueue.fresh expired now order).map Prod.fst).toFinset,
          ExpiringQueue.fresh expired now order) := by
  induction order with
  | nil => rfl
  | cons e rest ih =>
      obtain ⟨k, t⟩ := e
      have hrest : (rest.map Prod.fst).Nodup := (List.nodup_cons.mp h).2
      rw [evictExpired]
      cases ht : expired t now with
      | true =>
          have hdrop : ExpiringQueue.fresh expired now ((k, t) :: rest)
              = ExpiringQueue.fresh expired now rest := List.dropWhile_cons_of_pos ht
          rw [if_pos rfl, erase_front h, hdrop]
          exact ih hrest
      | false =>
          have hkeep : ExpiringQueue.fresh expired now ((k, t) :: rest) = (k, t) :: rest := by
            refine List.dropWhile_cons_of_neg ?_
            rw [ht]
            exact Bool.false_ne_true
          rw [if_neg Bool.false_ne_true, hkeep]

theorem evictOldest_eq (maxEntries : Nat) {order : List (NonceKey × Instant)}
    (h : (order.map Prod.fst).Nodup) :
    evictOldest maxEntries (order.map Prod.fst).toFinset order
      = (((if maxEntries ≤ order.length then order.drop 1 else order).map Prod.fst).toFinset,
          if maxEntries ≤ order.length then order.drop 1 else order) := by
  have hcard : (order.map Prod.fst).toFinset.card = order.length := by
    rw [List.toFinset_card_of_nodup h, List.length_map]
  simp only [evictOldest]
  rw [hcard]
  split
  · cases order with
    | nil => rfl
    | cons e rest =>
        obtain ⟨k, t⟩ := e
        exact congrArg (·, rest) (erase_front h)
  · rfl

/-- Over a well-formed cache, `check_and_insert` is an admission to the queue,
and leaves the cache well formed. -/
theorem checkAndInsert_eq {c : NonceCache} (h : c.WellFormed) (now : Instant) (key : NonceKey) :
    (c.checkAndInsert now key).1
        = (ExpiringQueue.offer expired c.maxEntries now key c.order).1 ∧
      (c.checkAndInsert now key).2.order
        = (ExpiringQueue.offer expired c.maxEntries now key c.order).2 ∧
      (c.checkAndInsert now key).2.maxEntries = c.maxEntries ∧
      (c.checkAndInsert now key).2.WellFormed := by
  have hfresh : ((ExpiringQueue.fresh expired now c.order).map Prod.fst).Nodup :=
    h.nodup.sublist ((List.dropWhile_sublist _).map _)
  rw [checkAndInsert, ExpiringQueue.offer, h.inner_eq, evictExpired_eq now h.nodup]
  simp only [List.mem_toFinset]
  split
  · exact ⟨rfl, rfl, rfl, rfl, hfresh⟩
  · next hkey =>
      rw [evictOldest_eq c.maxEntries hfresh]
      have hsub : (if c.maxEntries ≤ (ExpiringQueue.fresh expired now c.order).length
          then (ExpiringQueue.fresh expired now c.order).drop 1
          else ExpiringQueue.fresh expired now c.order).Sublist
            (ExpiringQueue.fresh expired now c.order) := by
        split
        · exact List.drop_sublist _ _
        · exact List.Sublist.refl _
      generalize (if c.maxEntries ≤ (ExpiringQueue.fresh expired now c.order).length
        then (ExpiringQueue.fresh expired now c.order).drop 1
        else ExpiringQueue.fresh expired now c.order) = kept at hsub
      refine ⟨rfl, rfl, rfl, ?_, ?_⟩
      · show insert key (kept.map Prod.fst).toFinset = ((kept ++ [(key, now)]).map Prod.fst).toFinset
        refine Finset.ext ?_
        intro a
        rw [Finset.mem_insert, List.mem_toFinset, List.mem_toFinset, List.map_append,
          List.map_singleton, List.mem_append, List.mem_singleton]
        exact Or.comm
      · show ((kept ++ [(key, now)]).map Prod.fst).Nodup
        rw [List.map_append, List.map_singleton]
        refine List.nodup_append.mpr ⟨hfresh.sublist (hsub.map _), List.nodup_singleton _, ?_⟩
        intro a ha b hb hab
        have hak : a = key := hab.trans (List.mem_singleton.mp hb)
        exact hkey (hak ▸ (hsub.map Prod.fst).subset ha)

/-! ## How long a key is refused -/

section
variable {c : NonceCache} {now t : Instant} {key : NonceKey} {m : Nat}
open ExpiringQueue (Behind)

theorem behind_inserted (h : c.WellFormed) (hnew : (c.checkAndInsert now key).1 = true) :
    Behind (c.checkAndInsert now key).2.order key now 0 := by
  obtain ⟨hverdict, horder, -, -⟩ := checkAndInsert_eq h now key
  rw [hverdict] at hnew
  rw [horder]
  exact ExpiringQueue.behind_admitted hnew

theorem refused (h : c.WellFormed) (hbehind : Behind c.order key t m)
    (ht : expired t now = false) : (c.checkAndInsert now key).1 = false := by
  rw [(checkAndInsert_eq h now key).1]
  exact hbehind.refused ht

/-- An entry that has not expired stays while fewer than `maxEntries` keys
have been inserted after it. -/
theorem behind_checkAndInsert (h : c.WellFormed) (hbehind : Behind c.order key t m)
    (ht : expired t now = false) (key' : NonceKey)
    (hroom : (c.checkAndInsert now key').1 = true → m + 1 < c.maxEntries) :
    Behind (c.checkAndInsert now key').2.order key t
      (if (c.checkAndInsert now key').1 then m + 1 else m) := by
  obtain ⟨hverdict, horder, -, -⟩ := checkAndInsert_eq h now key'
  rw [hverdict] at hroom ⊢
  rw [horder]
  exact hbehind.offer ht key' hroom

end

end NonceCache
end Rubix.Security
