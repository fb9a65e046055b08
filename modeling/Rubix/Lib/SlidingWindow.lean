/-
# `Rubix.Lib.SlidingWindow` — admission by a sliding window

A window keeps the stamps of what it admitted.  An attempt at `now` first
drops the stamps that are no longer live, then admits if fewer than `max`
are left.  Which stamps are live at an instant is a relation of its own,

    live t n      the stamp t still counts at the instant n

and time enters through it only: `n` comes after `now` if whatever counts at
`n` counts at `now` (`After`), which is to say that expiry is for good.
Dropping is then invisible: from `now` on, the stamps kept and the stamps ever
admitted have the same live ones (`Tracks`).  It follows that admitted stamps
which are live for each other, pairwise and in the order of admission, number
at most `max` (`Sparse`).
-/

namespace SlidingWindow

variable {T : Type}

/-- One attempt at `now`: the verdict, and the stamps kept. -/
def attempt (live : T → T → Bool) (max : Nat) (now : T) (stamps : List T) : Bool × List T :=
  if max ≤ (stamps.filter (live · now)).length then (false, stamps.filter (live · now))
  else (true, stamps.filter (live · now) ++ [now])

/-- The admitted stamps after an attempt. -/
def record (verdict : Bool) (now : T) (admitted : List T) : List T :=
  if verdict then admitted ++ [now] else admitted

/-- Admitted stamps that are pairwise live number at most `max`. -/
def Sparse (live : T → T → Bool) (max : Nat) (admitted : List T) : Prop :=
  ∀ w : List T, w.Sublist admitted → w.Pairwise (fun a b => live a b = true) → w.length ≤ max

section
variable {live : T → T → Bool} {max : Nat}

theorem Sparse.nil : Sparse live max [] := fun w hw _ => by
  rw [List.sublist_nil.mp hw]
  exact Nat.zero_le max

/-- Admitting keeps the admitted sparse if the live ones left room. -/
theorem Sparse.snoc {admitted : List T} {now : T} (h : Sparse live max admitted)
    (hroom : (admitted.filter (live · now)).length < max) : Sparse live max (admitted ++ [now]) := by
  intro w hw hp
  obtain ⟨w', l, rfl, hw', hl⟩ := List.sublist_append_iff.mp hw
  rcases List.sublist_cons_iff.mp hl with hl | ⟨r, rfl, hr⟩
  · rw [List.sublist_nil.mp hl, List.append_nil] at hp ⊢
    exact h w' hw' hp
  · rw [List.sublist_nil.mp hr] at hp ⊢
    -- everything before `now` in `w` is live at `now`
    have hlive : ∀ a ∈ w', live a now = true := fun a ha =>
      (List.pairwise_append.mp hp).2.2 a ha now List.mem_cons_self
    have hsub : w'.Sublist (admitted.filter (live · now)) := by
      rw [← List.filter_eq_self.mpr hlive]
      exact hw'.filter _
    rw [List.length_append, List.length_singleton]
    exact Nat.lt_of_le_of_lt hsub.length_le hroom

/-- Live pairs from a predicate: a sublist all of whose elements are live for
each other is one of the counted ones. -/
theorem Sparse.length_filter_le {admitted : List T} (h : Sparse live max admitted)
    {p : T → Bool} (hp : ∀ a b, p a = true → p b = true → live a b = true) :
    (admitted.filter p).length ≤ max := by
  refine h _ List.filter_sublist ?_
  refine List.Pairwise.imp_of_mem ?_ (List.pairwise_of_forall (R := fun _ _ => True) fun _ _ => trivial)
  intro a b ha hb _
  exact hp a b (List.mem_filter.mp ha).2 (List.mem_filter.mp hb).2

end

section
variable {live : T → T → Bool} {max : Nat}

/-- Whatever counts at `n` counts at `now`. -/
def After (live : T → T → Bool) (now n : T) : Prop := ∀ t, live t n = true → live t now = true

/-- From `now` on, the stamps kept stand for the stamps admitted. -/
def Tracks (live : T → T → Bool) (stamps admitted : List T) (now : T) : Prop :=
  ∀ n, After live now n → stamps.filter (live · n) = admitted.filter (live · n)

theorem After.refl (now : T) : After live now now := fun _ h => h

theorem After.trans {a b c : T} (hab : After live a b) (hbc : After live b c) : After live a c :=
  fun t h => hab t (hbc t h)

theorem Tracks.later {stamps admitted : List T} {now now' : T}
    (h : Tracks live stamps admitted now) (hn : After live now now') :
    Tracks live stamps admitted now' :=
  fun n hn' => h n (hn.trans hn')

/-- Dropping what expired by `now` is invisible from `now` on. -/
theorem filter_filter_live {now n : T} (hn : After live now n) (stamps : List T) :
    (stamps.filter (live · now)).filter (live · n) = stamps.filter (live · n) := by
  rw [List.filter_filter]
  refine List.filter_congr ?_
  intro t _
  cases ht : live t n with
  | false => rfl
  | true => rw [hn t ht, Bool.and_self]

/-! ## One attempt -/

theorem Tracks.attempt {stamps admitted : List T} {now : T}
    (h : Tracks live stamps admitted now) :
    Tracks live (attempt live max now stamps).2
      (record (attempt live max now stamps).1 now admitted) now := by
  intro n hn
  rw [SlidingWindow.attempt]
  split
  · rw [filter_filter_live hn]
    exact h n hn
  · show (stamps.filter (live · now) ++ [now]).filter (live · n)
      = (admitted ++ [now]).filter (live · n)
    rw [List.filter_append, filter_filter_live hn, h n hn, ← List.filter_append]

/-- The verdict, off what has been admitted. -/
theorem Tracks.attempt_iff {stamps admitted : List T} {now : T}
    (h : Tracks live stamps admitted now) :
    (SlidingWindow.attempt live max now stamps).1 = true ↔
      (admitted.filter (live · now)).length < max := by
  rw [SlidingWindow.attempt, h now (After.refl now), ← Nat.not_le]
  split
  · next hfull =>
      constructor
      · intro h'
        cases h'
      · intro h'
        exact absurd hfull h'
  · next hroom => exact iff_of_true rfl hroom

theorem Sparse.attempt {stamps admitted : List T} {now : T} (hs : Sparse live max admitted)
    (h : Tracks live stamps admitted now) :
    Sparse live max (record (attempt live max now stamps).1 now admitted) := by
  rw [SlidingWindow.attempt]
  split
  · exact hs
  · next hroom =>
      rw [h now (After.refl now), Nat.not_le] at hroom
      exact hs.snoc hroom

end
end SlidingWindow
