/-
# `Rubix.Lib.ExpiringQueue` — a bounded first-in first-out set whose entries expire

Entries are keys with stamps, oldest first.  Admitting a key at `now` takes
three steps: the expired entries at the front are dropped, a key still present
is refused, and otherwise the key goes to the back, at the cost of the oldest
entry if there are `max` already.

What the queue is for is that a key admitted is refused for a while.  An entry
with `m` entries behind it (`Behind q k t m`) is dropped by no admission as
long as its own stamp has not expired and fewer than `max` others have come
after it, and while it is there its key is refused (`Behind.offer`,
`Behind.refused`).

Where stamps are readings of a clock that does not go back, the queue is a
window of all that was ever admitted: of its last `max` entries, those that
have not expired (`offer_window`), and so it refuses exactly their keys
(`offer_refuses_iff`).

A sequence in which equal elements are always `max` apart has `max` others,
counted once each, between equal elements (`others_between`): within the
shortest such stretch nothing is repeated.
-/
import Mathlib.Data.Finset.Card
import Mathlib.Data.List.DropRight

namespace ExpiringQueue

variable {K T : Type}

/-- The queue after the expired entries at its front are dropped. -/
def fresh (expired : T → T → Bool) (now : T) (q : List (K × T)) : List (K × T) :=
  q.dropWhile fun e => expired e.2 now

/-- One admission: the verdict and the queue after it. -/
def offer [DecidableEq K] (expired : T → T → Bool) (max : Nat) (now : T) (k : K)
    (q : List (K × T)) : Bool × List (K × T) :=
  let q' := fresh expired now q
  if k ∈ q'.map Prod.fst then (false, q')
  else (true, (if max ≤ q'.length then q'.drop 1 else q') ++ [(k, now)])

/-- The key `k`, stamped `t`, is in the queue with `m` entries behind it. -/
def Behind (q : List (K × T)) (k : K) (t : T) (m : Nat) : Prop :=
  ∃ front back, q = front ++ (k, t) :: back ∧ back.length = m

section
variable {expired : T → T → Bool} {now : T} {k : K} {t : T}

/-- Dropping expired entries does not get past an entry that is not. -/
theorem fresh_append (ht : expired t now = false) (back front : List (K × T)) :
    ∃ front', fresh expired now (front ++ (k, t) :: back) = front' ++ (k, t) :: back := by
  induction front with
  | nil =>
      refine ⟨[], ?_⟩
      have hneg : ¬ expired (k, t).2 now = true := by
        rw [ht]
        exact Bool.false_ne_true
      exact List.dropWhile_cons_of_neg hneg
  | cons e front ih =>
      obtain ⟨front', hfront'⟩ := ih
      cases he : expired e.2 now with
      | true =>
          refine ⟨front', ?_⟩
          rw [← hfront']
          exact List.dropWhile_cons_of_pos he
      | false =>
          refine ⟨e :: front, ?_⟩
          have hneg : ¬ expired e.2 now = true := by
            rw [he]
            exact Bool.false_ne_true
          exact List.dropWhile_cons_of_neg hneg

theorem Behind.fresh {q : List (K × T)} {m : Nat} (h : Behind q k t m)
    (ht : expired t now = false) : Behind (fresh expired now q) k t m := by
  obtain ⟨front, back, rfl, hm⟩ := h
  obtain ⟨front', hfront'⟩ := fresh_append (k := k) ht back front
  exact ⟨front', back, hfront', hm⟩

theorem Behind.mem {q : List (K × T)} {m : Nat} (h : Behind q k t m) : k ∈ q.map Prod.fst := by
  obtain ⟨front, back, rfl, -⟩ := h
  exact List.mem_map.mpr ⟨(k, t), List.mem_append_right _ List.mem_cons_self, rfl⟩

variable [DecidableEq K] {max : Nat}

/-- A key in the queue whose stamp has not expired is refused. -/
theorem Behind.refused {q : List (K × T)} {m : Nat} (h : Behind q k t m)
    (ht : expired t now = false) : (offer expired max now k q).1 = false := by
  have hmem := (h.fresh ht).mem
  rw [offer, if_pos hmem]

/-- A key just admitted has nothing behind it. -/
theorem behind_admitted {q : List (K × T)} (h : (offer expired max now k q).1 = true) :
    Behind (offer expired max now k q).2 k now 0 := by
  simp only [offer] at h ⊢
  split at h
  · exact absurd h Bool.false_ne_true
  · next hk =>
      rw [if_neg hk]
      exact ⟨_, [], rfl, rfl⟩

/-- One admission of any key: an entry that has not expired stays, and an
admitted key goes behind it, as long as fewer than `max` have come after it. -/
theorem Behind.offer {q : List (K × T)} {m : Nat} (h : Behind q k t m)
    (ht : expired t now = false) (k' : K)
    (hroom : (offer expired max now k' q).1 = true → m + 1 < max) :
    Behind (offer expired max now k' q).2 k t
      (if (offer expired max now k' q).1 then m + 1 else m) := by
  obtain ⟨front, back, hq, hm⟩ := h.fresh ht
  unfold ExpiringQueue.offer at hroom ⊢
  dsimp only at hroom ⊢
  rw [hq] at hroom ⊢
  split
  · exact ⟨front, back, rfl, hm⟩
  · next hk =>
      have hlt : m + 1 < max := by
        rw [if_neg hk] at hroom
        exact hroom rfl
      have hback : (back ++ [(k', now)]).length = m + 1 := by
        rw [List.length_append, hm, List.length_singleton]
      rw [if_pos rfl]
      split
      · next hfull =>
          -- the queue is full, so the entry has one before it to make room
          cases front with
          | nil =>
              rw [List.nil_append, List.length_cons, hm] at hfull
              omega
          | cons e front =>
              exact ⟨front, back ++ [(k', now)], by simp, hback⟩
      · exact ⟨front, back ++ [(k', now)], by simp, hback⟩

end

/-! ## The queue as a window of the history -/

/-- Entries expire in the order of their stamps, stay expired, and are not
expired when they are made. -/
structure Ages [LE T] (expired : T → T → Bool) : Prop where
  fresh_now : ∀ t, expired t t = false
  mono : ∀ {t t' now now'}, t' ≤ t → now ≤ now' → expired t now = true → expired t' now' = true

/-- What is left at `now` of the last `max` entries admitted. -/
def window (expired : T → T → Bool) (max : Nat) (now : T) (admitted : List (K × T)) :
    List (K × T) :=
  fresh expired now (admitted.rtake max)

theorem rtake_suffix (n : Nat) (l : List K) : l.rtake n <:+ l := List.drop_suffix _ _

theorem length_rtake_le (n : Nat) (l : List K) : (l.rtake n).length ≤ n := by
  rw [List.rtake, List.length_drop]
  omega

/-- One more entry from the back, if there is one. -/
theorem rtake_succ (n : Nat) (l : List K) :
    l.rtake (n + 1) = l.rtake n ∨ ∃ a, l.rtake (n + 1) = a :: l.rtake n := by
  by_cases hn : l.length ≤ n
  · left
    have h₁ : l.length - (n + 1) = 0 := by omega
    have h₂ : l.length - n = 0 := by omega
    rw [List.rtake, List.rtake, h₁, h₂]
  · right
    have hlt : l.length - (n + 1) < l.length := by omega
    have hnext : l.length - (n + 1) + 1 = l.length - n := by omega
    refine ⟨l[l.length - (n + 1)], ?_⟩
    rw [List.rtake, List.rtake, List.drop_eq_getElem_cons hlt, hnext]

theorem window_suffix (expired : T → T → Bool) (max : Nat) (now : T) (admitted : List (K × T)) :
    window expired max now admitted <:+ admitted :=
  (List.dropWhile_suffix _).trans (rtake_suffix max admitted)

theorem length_window_le (expired : T → T → Bool) (max : Nat) (now : T)
    (admitted : List (K × T)) : (window expired max now admitted).length ≤ max :=
  (List.dropWhile_suffix _).length_le.trans (length_rtake_le max admitted)

section
variable [Preorder T] {expired : T → T → Bool} {max : Nat} {now now' : T} {k : K}
  {q admitted : List (K × T)}

/-- Among entries in order of their stamps, those expired are the front. -/
theorem fresh_eq_filter (h : Ages expired) (hq : (q.map Prod.snd).Pairwise (· ≤ ·)) :
    fresh expired now q = q.filter fun e => !expired e.2 now := by
  induction q with
  | nil => rfl
  | cons e q ih =>
      obtain ⟨hfirst, hrest⟩ := List.pairwise_cons.mp hq
      cases he : expired e.2 now with
      | true =>
          have hdrop : fresh expired now (e :: q) = fresh expired now q :=
            List.dropWhile_cons_of_pos he
          rw [hdrop, ih hrest, List.filter_cons_of_neg (by simp [he])]
      | false =>
          have hkeep : fresh expired now (e :: q) = e :: q :=
            List.dropWhile_cons_of_neg (by simp [he])
          have hall : ∀ a ∈ e :: q, (!expired a.2 now) = true := by
            intro a ha
            have hle : a = e ∨ e.2 ≤ a.2 := by
              rcases List.mem_cons.mp ha with rfl | ha
              · exact .inl rfl
              · exact .inr (hfirst a.2 (List.mem_map_of_mem ha))
            rcases hle with rfl | hle
            · simp [he]
            · rw [Bool.not_eq_true', ← Bool.not_eq_true]
              intro hexpired
              have hearlier := h.mono hle le_rfl hexpired
              rw [he] at hearlier
              exact Bool.false_ne_true hearlier
          rw [hkeep, List.filter_eq_self.mpr hall]

/-- What has expired once need not be kept for later. -/
theorem fresh_fresh (h : Ages expired) (hnow : now ≤ now') (q : List (K × T)) :
    fresh expired now' (fresh expired now q) = fresh expired now' q := by
  induction q with
  | nil => rfl
  | cons e q ih =>
      cases he : expired e.2 now with
      | true =>
          have hdrop : fresh expired now (e :: q) = fresh expired now q :=
            List.dropWhile_cons_of_pos he
          have hdrop' : fresh expired now' (e :: q) = fresh expired now' q :=
            List.dropWhile_cons_of_pos (h.mono le_rfl hnow he)
          rw [hdrop, hdrop', ih]
      | false =>
          have hkeep : fresh expired now (e :: q) = e :: q :=
            List.dropWhile_cons_of_neg (by simp [he])
          rw [hkeep]

theorem fresh_concat (h : Ages expired) (q : List (K × T)) :
    fresh expired now (q ++ [(k, now)]) = fresh expired now q ++ [(k, now)] := by
  induction q with
  | nil => exact List.dropWhile_cons_of_neg (by simp [h.fresh_now])
  | cons e q ih =>
      cases he : expired e.2 now with
      | true =>
          have hdrop : ∀ l, fresh expired now (e :: l) = fresh expired now l :=
            fun _ => List.dropWhile_cons_of_pos he
          rw [List.cons_append, hdrop, hdrop, ih]
      | false =>
          have hkeep : ∀ l, fresh expired now (e :: l) = e :: l :=
            fun _ => List.dropWhile_cons_of_neg (by simp [he])
          rw [List.cons_append, hkeep, hkeep, List.cons_append]

/-- Making room in a full window leaves the window that is one shorter. -/
theorem makeRoom_window (h : Ages expired) (hsorted : (admitted.map Prod.snd).Pairwise (· ≤ ·))
    (n : Nat) :
    (if n + 1 ≤ (window expired (n + 1) now admitted).length
      then (window expired (n + 1) now admitted).drop 1
      else window expired (n + 1) now admitted) = window expired n now admitted := by
  have hshort := length_window_le expired n now admitted
  rcases rtake_succ n admitted with hsame | ⟨e, hmore⟩
  · have hwindow : window expired (n + 1) now admitted = window expired n now admitted := by
      rw [window, window, hsame]
    rw [hwindow, if_neg (by omega)]
  · cases he : expired e.2 now with
    | true =>
        have hwindow : window expired (n + 1) now admitted = window expired n now admitted := by
          rw [window, window, hmore]
          exact List.dropWhile_cons_of_pos he
        rw [hwindow, if_neg (by omega)]
    | false =>
        -- the oldest of the window has not expired, so none of it has
        have hwindow : window expired (n + 1) now admitted = e :: admitted.rtake n := by
          rw [window, hmore]
          exact List.dropWhile_cons_of_neg (by simp [he])
        have hrest : window expired n now admitted = admitted.rtake n := by
          have hsub : admitted.rtake (n + 1) <:+ admitted := rtake_suffix (n + 1) admitted
          rw [hmore] at hsub
          have hin := hsorted.sublist (hsub.sublist.map Prod.snd)
          have hall : fresh expired now (e :: admitted.rtake n) = _ := fresh_eq_filter h hin
          rw [show fresh expired now (e :: admitted.rtake n) = e :: admitted.rtake n from
            List.dropWhile_cons_of_neg (by simp [he])] at hall
          have hkept := List.filter_eq_self.mp hall.symm
          rw [window, fresh_eq_filter h (List.pairwise_cons.mp hin).2]
          exact List.filter_eq_self.mpr fun a ha => hkept a (List.mem_cons_of_mem e ha)
        have hfull : admitted.length - n ≠ 0 := by
          intro hzero
          have hlen := congrArg List.length hmore
          rw [List.rtake, List.rtake, List.length_cons, List.length_drop, List.length_drop] at hlen
          omega
        have hlen : (admitted.rtake n).length = n := by
          rw [List.rtake, List.length_drop]
          omega
        rw [hwindow, List.length_cons, hlen, if_pos le_rfl, hrest, List.drop_one, List.tail_cons]

variable [DecidableEq K]

/-- The queue refuses the keys of the window, and no others. -/
theorem offer_refuses_iff (h : Ages expired)
    (hsorted : (admitted.map Prod.snd).Pairwise (· ≤ ·)) (hnow : now ≤ now') :
    (offer expired max now' k (window expired max now admitted)).1 = false ↔
      ∃ t, (k, t) ∈ admitted.rtake max ∧ expired t now' = false := by
  have hin : ((admitted.rtake max).map Prod.snd).Pairwise (· ≤ ·) :=
    hsorted.sublist ((rtake_suffix max admitted).sublist.map Prod.snd)
  have hkeys : (offer expired max now' k (window expired max now admitted)).1 = false ↔
      k ∈ (fresh expired now' (window expired max now admitted)).map Prod.fst := by
    rw [offer]
    split
    · next hk => exact iff_of_true rfl hk
    · next hk => exact iff_of_false Bool.true_eq_false.mp hk
  rw [hkeys, window, fresh_fresh h hnow, fresh_eq_filter h hin, List.mem_map]
  constructor
  · rintro ⟨⟨k', t⟩, hmem, rfl⟩
    obtain ⟨hmem, hexpired⟩ := List.mem_filter.mp hmem
    exact ⟨t, hmem, by simpa using hexpired⟩
  · rintro ⟨t, hmem, hexpired⟩
    exact ⟨(k, t), List.mem_filter.mpr ⟨hmem, by simp [hexpired]⟩, rfl⟩

/-- One admission to the window of a history gives the window of the history
with what was admitted. -/
theorem offer_window (h : Ages expired) (hmax : 1 ≤ max)
    (hsorted : (admitted.map Prod.snd).Pairwise (· ≤ ·)) (hnow : now ≤ now') :
    (offer expired max now' k (window expired max now admitted)).2 =
      window expired max now'
        (if (offer expired max now' k (window expired max now admitted)).1
          then admitted ++ [(k, now')] else admitted) := by
  obtain ⟨n, rfl⟩ : ∃ n, max = n + 1 := ⟨max - 1, by omega⟩
  have hfresh : fresh expired now' (window expired (n + 1) now admitted)
      = window expired (n + 1) now' admitted := fresh_fresh h hnow _
  rw [offer, hfresh]
  split
  · rfl
  · dsimp only
    rw [makeRoom_window h hsorted, if_pos rfl, window, window, List.rtake_concat_succ,
      fresh_concat h]

end

/-! ## Repetitions in a sequence -/

section
variable [DecidableEq K] {max : Nat}

/-- Between two equal elements of `l` there are at least `max` others. -/
def Spaced (max : Nat) (l : List K) : Prop :=
  ∀ before k between after, l = before ++ k :: (between ++ k :: after) →
    max ≤ (between.toFinset.erase k).card

/-- A list with a repetition has two equal elements. -/
theorem split_of_not_nodup {l : List K} (h : ¬ l.Nodup) :
    ∃ before k between after, l = before ++ k :: (between ++ k :: after) := by
  induction l with
  | nil => exact absurd List.nodup_nil h
  | cons k l ih =>
      by_cases hk : k ∈ l
      · obtain ⟨between, after, rfl⟩ := List.append_of_mem hk
        exact ⟨[], k, between, after, rfl⟩
      · have hl : ¬ l.Nodup := fun hl => h (List.nodup_cons.mpr ⟨hk, hl⟩)
        obtain ⟨before, k', between, after, rfl⟩ := ih hl
        exact ⟨k :: before, k', between, after, rfl⟩

theorem others_between {l : List K}
    (h : ∀ before k between after, l = before ++ k :: (between ++ k :: after) →
      max ≤ between.length) : Spaced max l := by
  intro before k between
  induction hn : between.length using Nat.strong_induction_on generalizing before k between with
  | _ n ih =>
      intro after hl
      subst hn
      by_cases hk : k ∈ between
      · -- a shorter stretch between two occurrences of the same element
        obtain ⟨between, rest, rfl⟩ := List.append_of_mem hk
        refine (ih between.length ?_ before k between rfl (rest ++ k :: after) ?_).trans ?_
        · rw [List.length_append, List.length_cons]
          omega
        · rw [hl, List.append_assoc, List.cons_append]
        · refine Finset.card_le_card (Finset.erase_subset_erase k ?_)
          rw [List.toFinset_append]
          exact Finset.subset_union_left
      · rw [Finset.erase_eq_of_notMem (fun hmem => hk (List.mem_toFinset.mp hmem))]
        by_cases hnodup : between.Nodup
        · rw [List.toFinset_card_of_nodup hnodup]
          exact h before k between after hl
        · obtain ⟨front, k', inner, rest, rfl⟩ := split_of_not_nodup hnodup
          refine (ih inner.length ?_ (before ++ k :: front) k' inner rfl
            (rest ++ k :: after) ?_).trans ?_
          · rw [List.length_append, List.length_cons, List.length_append]
            omega
          · rw [hl]
            simp only [List.append_assoc, List.cons_append]
          · refine Finset.card_le_card ((Finset.erase_subset _ _).trans fun a ha => ?_)
            rw [List.mem_toFinset] at ha ⊢
            exact List.mem_append_right _ (List.mem_cons_of_mem _ (List.mem_append_left _ ha))

end
end ExpiringQueue
