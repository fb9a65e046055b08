/-
# `Rubix.Lib.Semaphore` — permits, and those who wait for one

A fair semaphore hands its permits out in the order in which they are asked
for:

    acquire    takes a free permit; without one, waits in line
    release    the permit goes to the first in line, or is free again

No more permits are held than there are, and none is free while somebody waits:
both are fields of the state.  Who was given a permit and who waits for one
are, in this order, all who ever asked (`line_acquire`, `line_release`), and
those who are there change by the one who comes or goes (`present_acquire`,
`present_release`).

If nobody keeps a permit for longer than `hold`, the wait is bounded.  The
potential is the number of releases that the holders owe until a time `T`
(`owed`).  A release in time lowers it by at most one and moves the line by
one, so that whoever is owed its permit until `T` stays so (`Reaches`), and
gets it (`Reaches.le`).
-/
import Mathlib.Algebra.Order.BigOperators.Group.List
import Mathlib.Algebra.Order.Ring.Nat

structure Semaphore (ι : Type) (permits : Nat) where
  /-- Who holds a permit, and since when. -/
  holding : List (ι × Nat)
  waiting : List ι
  /-- Who was ever given a permit. -/
  granted : List ι
  bounded : holding.length ≤ permits
  busy : waiting ≠ [] → holding.length = permits

namespace Semaphore

variable {ι : Type} {permits : Nat} {s : Semaphore ι permits} {i : ι} {now : Nat}

/-- All permits are free. -/
def new : Semaphore ι permits := ⟨[], [], [], Nat.zero_le permits, fun h => absurd rfl h⟩

def Holds (s : Semaphore ι permits) (i : ι) : Prop := i ∈ s.holding.map Prod.fst

instance [DecidableEq ι] : Decidable (s.Holds i) := inferInstanceAs (Decidable (_ ∈ _))

/-- All who ever asked for a permit, in the order in which they get one. -/
def line (s : Semaphore ι permits) : List ι := s.granted ++ s.waiting

theorem length_concat_le {holding : List (ι × Nat)} (h : holding.length < permits) (p : ι × Nat) :
    (holding ++ [p]).length ≤ permits := by
  rw [List.length_append]
  exact h

def acquire (s : Semaphore ι permits) (i : ι) (now : Nat) : Semaphore ι permits :=
  if h : s.holding.length < permits then
    { s with
      holding := s.holding ++ [(i, now)]
      granted := s.granted ++ [i]
      bounded := length_concat_le h (i, now)
      busy := fun hne => absurd (s.busy hne) (Nat.ne_of_lt h) }
  else
    { s with
      waiting := s.waiting ++ [i]
      busy := fun _ => Nat.le_antisymm s.bounded (Nat.not_lt.mp h) }

/-- Who asks is the last in line. -/
theorem line_acquire (s : Semaphore ι permits) (i : ι) (now : Nat) :
    (s.acquire i now).line = s.line ++ [i] := by
  rw [acquire]
  split
  · next hfree =>
      have hnobody : s.waiting = [] := by
        apply Decidable.byContradiction
        intro hne
        exact absurd (s.busy hne) (Nat.ne_of_lt hfree)
      simp only [line]
      rw [hnobody, List.append_nil, List.append_nil]
  · simp only [line]
    rw [List.append_assoc]

section
variable [DecidableEq ι]

/-- The holders without `i`. -/
def without (s : Semaphore ι permits) (i : ι) : List (ι × Nat) :=
  s.holding.eraseP fun p => p.1 == i

theorem holds_split (h : s.Holds i) :
    ∃ since before behind, s.holding = before ++ (i, since) :: behind ∧
      s.without i = before ++ behind := by
  obtain ⟨p, hp, rfl⟩ := List.mem_map.mp h
  obtain ⟨q, before, behind, -, hq, hsplit, herase⟩ :=
    List.exists_of_eraseP (p := fun q : ι × Nat => q.1 == p.1) hp (beq_self_eq_true p.1)
  have hqi : q.1 = p.1 := eq_of_beq hq
  exact ⟨q.2, before, behind, by rw [hsplit, ← hqi], herase⟩

theorem length_without (h : s.Holds i) : (s.without i).length + 1 = s.holding.length := by
  obtain ⟨since, before, behind, hholding, hwithout⟩ := holds_split h
  rw [hholding, hwithout, List.length_append, List.length_append, List.length_cons]
  omega

def release (s : Semaphore ι permits) (i : ι) (now : Nat) : Semaphore ι permits :=
  if h : s.Holds i then
    match hw : s.waiting with
    | [] =>
        { s with
          holding := s.without i
          bounded := Nat.le_trans (Nat.le_of_lt (Nat.le_of_eq (length_without h))) s.bounded
          busy := fun hne => absurd hw hne }
    | j :: rest =>
        { holding := s.without i ++ [(j, now)]
          waiting := rest
          granted := s.granted ++ [j]
          bounded := by
            rw [List.length_append]
            exact Nat.le_trans (Nat.le_of_eq (length_without h)) s.bounded
          busy := fun _ => by
            rw [List.length_append]
            exact (length_without h).trans (s.busy (by rw [hw]; exact List.cons_ne_nil _ _)) }
  else s

/-- What a release does: it frees the permit, or passes it on. -/
theorem release_cases (h : s.Holds i) (now : Nat) :
    (s.waiting = [] ∧ (s.release i now).holding = s.without i ∧
      (s.release i now).waiting = [] ∧ (s.release i now).granted = s.granted) ∨
    ∃ j rest, s.waiting = j :: rest ∧ (s.release i now).holding = s.without i ++ [(j, now)] ∧
      (s.release i now).waiting = rest ∧ (s.release i now).granted = s.granted ++ [j] := by
  rw [release, dif_pos h]
  split
  · next hw => exact .inl ⟨hw, rfl, hw, rfl⟩
  · next j rest hw => exact .inr ⟨j, rest, hw, rfl, rfl, rfl⟩

theorem release_of_not_holds (h : ¬ s.Holds i) (now : Nat) : s.release i now = s := dif_neg h

theorem line_release (s : Semaphore ι permits) (i : ι) (now : Nat) :
    (s.release i now).line = s.line := by
  by_cases h : s.Holds i
  · rcases release_cases h now with ⟨hw, -, hw', hgranted⟩ | ⟨j, rest, hw, -, hw', hgranted⟩
    · rw [line, line, hgranted, hw, hw']
    · rw [line, line, hgranted, hw, hw', List.append_assoc]
      rfl
  · rw [release_of_not_holds h]

end

/-! ## Who is there -/

/-- Those who hold a permit, and those who wait for one. -/
def present (s : Semaphore ι permits) : List ι := s.holding.map Prod.fst ++ s.waiting

theorem holds_present (h : s.Holds i) : i ∈ s.present := List.mem_append_left _ h

theorem present_acquire (s : Semaphore ι permits) (i : ι) (now : Nat) :
    (s.acquire i now).present.Perm (i :: s.present) := by
  rw [acquire]
  split
  · simp only [present, List.map_append, List.map_cons, List.map_nil]
    rw [List.append_assoc]
    exact List.perm_middle
  · simp only [present]
    rw [← List.append_assoc]
    exact List.perm_append_singleton _ _

theorem present_release [DecidableEq ι] (h : s.Holds i) (now : Nat) :
    s.present.Perm (i :: (s.release i now).present) := by
  obtain ⟨since, before, behind, hholding, hwithout⟩ := holds_split h
  rcases release_cases h now with ⟨hw, hholding', hw', -⟩ | ⟨j, rest, hw, hholding', hw', -⟩
  · simp only [present, hw, hw', hholding, hholding', hwithout, List.map_append, List.map_cons,
      List.append_nil]
    exact List.perm_middle
  · simp only [present, hw, hw', hholding, hholding', hwithout, List.map_append, List.map_cons,
      List.map_nil, List.append_assoc, List.cons_append, List.nil_append]
    exact List.perm_middle

/-- Whoever is there, somebody holds a permit. -/
theorem exists_holds (hpermits : 0 < permits) (h : s.present ≠ []) : ∃ i, s.Holds i := by
  cases hholding : s.holding with
  | nil =>
      have hwaiting : s.waiting ≠ [] := by
        intro hnone
        rw [present, hholding, hnone] at h
        exact h rfl
      have hbusy := s.busy hwaiting
      rw [hholding, List.length_nil] at hbusy
      omega
  | cons p holding =>
      refine ⟨p.1, ?_⟩
      rw [Holds, hholding]
      exact List.mem_cons_self

/-- Nobody's permit is taken away. -/
theorem granted_acquire (s : Semaphore ι permits) (i : ι) (now : Nat) :
    s.granted <+: (s.acquire i now).granted := by
  rw [acquire]
  split
  · exact List.prefix_append _ _
  · exact List.prefix_rfl

theorem granted_release [DecidableEq ι] (s : Semaphore ι permits) (i : ι) (now : Nat) :
    s.granted <+: (s.release i now).granted := by
  by_cases h : s.Holds i
  · rcases release_cases h now with ⟨-, -, -, hgranted⟩ | ⟨j, rest, -, -, -, hgranted⟩
    · exact ⟨[], by rw [List.append_nil, hgranted]⟩
    · exact ⟨[j], hgranted.symm⟩
  · exact ⟨[], by rw [List.append_nil, release_of_not_holds h]⟩

/-! ## How long it takes -/

/-- No permit was handed out later than that. -/
def Past (now : Nat) (s : Semaphore ι permits) : Prop := ∀ p ∈ s.holding, p.2 ≤ now

theorem Past.later {later : Nat} (h : s.Past now) (hle : now ≤ later) : s.Past later :=
  fun p hp => Nat.le_trans (h p hp) hle

theorem past_acquire (h : s.Past now) (i : ι) : (s.acquire i now).Past now := by
  rw [acquire]
  split
  · intro p hp
    rcases List.mem_append.mp hp with hp | hp
    · exact h p hp
    · rw [List.mem_singleton.mp hp]
  · exact h

theorem past_release [DecidableEq ι] (h : s.Past now) (i : ι) : (s.release i now).Past now := by
  by_cases hi : s.Holds i
  · have hsub : ∀ p ∈ s.without i, p.2 ≤ now := fun p hp => h p (List.mem_of_mem_eraseP hp)
    rcases release_cases hi now with ⟨-, hholding, -⟩ | ⟨j, rest, -, hholding, -⟩
    · intro p hp
      rw [hholding] at hp
      exact hsub p hp
    · intro p hp
      rw [hholding] at hp
      rcases List.mem_append.mp hp with hp | hp
      · exact hsub p hp
      · rw [List.mem_singleton.mp hp]
  · rw [release_of_not_holds hi]
    exact h

/-- The releases that are owed until `T`. -/
def owed (s : Semaphore ι permits) (hold T : Nat) : Nat :=
  (s.holding.map fun p => (T - p.2) / hold).sum

/-- Nobody holds a permit for too long. -/
def Punctual (hold now : Nat) (s : Semaphore ι permits) : Prop :=
  ∀ p ∈ s.holding, now ≤ p.2 + hold

instance (hold : Nat) : Decidable (s.Punctual hold now) :=
  inferInstanceAs (Decidable (∀ p ∈ s.holding, _))

/-- Somebody waits, and more releases are owed until `T` than there are in
line before it. -/
def Reaches (hold T : Nat) (i : ι) (s : Semaphore ι permits) : Prop :=
  ∃ before behind, s.waiting = before ++ i :: behind ∧ before.length + 1 ≤ s.owed hold T

variable {hold T : Nat}

theorem reaches_acquire (h : Reaches hold T i s) (j : ι) (now : Nat) :
    Reaches hold T i (s.acquire j now) := by
  obtain ⟨before, behind, hw, howed⟩ := h
  have hfull : ¬ s.holding.length < permits := by
    have hbusy := s.busy (by rw [hw]; exact List.append_ne_nil_of_right_ne_nil _ (by simp))
    rw [hbusy]
    exact Nat.lt_irrefl _
  refine ⟨before, behind ++ [j], ?_, ?_⟩
  · rw [acquire, dif_neg hfull]
    show s.waiting ++ [j] = _
    rw [hw, List.append_assoc]
    rfl
  · rw [acquire, dif_neg hfull]
    exact howed

/-- A holder that releases in time owes at most one release more than the next
one does. -/
theorem div_le_div_add_one {since : Nat} (hhold : 0 < hold) (h : now ≤ since + hold) :
    (T - since) / hold ≤ (T - now) / hold + 1 := by
  have hle : T - since ≤ T - now + hold := by omega
  calc (T - since) / hold ≤ (T - now + hold) / hold := Nat.div_le_div_right hle
    _ = (T - now) / hold + 1 := Nat.add_div_right _ hhold

/-- A release in time keeps what is owed to those who wait. -/
theorem reaches_release [DecidableEq ι] (hhold : 0 < hold) (h : Reaches hold T i s)
    (hpunctual : s.Punctual hold now) (j : ι) :
    Reaches hold T i (s.release j now) ∨ i ∈ (s.release j now).granted := by
  by_cases hj : s.Holds j
  · obtain ⟨before, behind, hw, howed⟩ := h
    rcases release_cases hj now with ⟨hw', -⟩ | ⟨k, rest, hw', hholding, hwaiting, hgranted⟩
    · rw [hw'] at hw
      exact absurd hw.symm (List.append_ne_nil_of_right_ne_nil _ (by simp))
    · rw [hw'] at hw
      cases before with
      | nil =>
          obtain ⟨rfl, -⟩ := List.cons.inj hw
          rw [hgranted]
          exact .inr (List.mem_append_right _ (List.mem_singleton_self _))
      | cons first before =>
          obtain ⟨-, hrest⟩ := List.cons.inj hw
          refine .inl ⟨before, behind, by rw [hwaiting, hrest]; rfl, ?_⟩
          obtain ⟨since, front, back, hsplit, hwithout⟩ := holds_split hj
          have hlate : now ≤ since + hold := hpunctual (j, since) (by rw [hsplit]; simp)
          have hone := div_le_div_add_one (T := T) hhold hlate
          rw [owed, hsplit] at howed
          rw [owed, hholding, hwithout]
          simp only [List.map_append, List.map_cons, List.map_nil, List.sum_append, List.sum_cons,
            List.sum_nil, List.length_cons, Nat.add_zero] at howed ⊢
          omega
  · rw [release_of_not_holds hj]
    exact .inl h

/-- Nobody waits past the time until which it is owed a permit. -/
theorem Reaches.le (hhold : 0 < hold) (h : Reaches hold T i s) (hpunctual : s.Punctual hold now) :
    now ≤ T := by
  obtain ⟨before, behind, -, howed⟩ := h
  apply Nat.le_of_not_lt
  intro hlate
  have hnone : s.owed hold T = 0 := by
    apply List.sum_eq_zero
    intro n hn
    obtain ⟨p, hp, rfl⟩ := List.mem_map.mp hn
    have hp' := hpunctual p hp
    exact Nat.div_eq_of_lt (by omega)
  omega

/-- Who joins the line is owed a permit until so much later. -/
theorem reaches_of_acquire (hhold : 0 < hold) (hfull : ¬ s.holding.length < permits)
    (hpast : s.Past now) (hpermits : 0 < permits) (i : ι) :
    Reaches hold (now + hold * (s.waiting.length / permits + 1)) i (s.acquire i now) := by
  have hacquire : s.acquire i now = { s with
      waiting := s.waiting ++ [i]
      busy := fun _ => Nat.le_antisymm s.bounded (Nat.not_lt.mp hfull) } := dif_neg hfull
  rw [hacquire]
  refine ⟨s.waiting, [], rfl, ?_⟩
  have heach : ∀ n ∈ s.holding.map fun p =>
      (now + hold * (s.waiting.length / permits + 1) - p.2) / hold,
      s.waiting.length / permits + 1 ≤ n := by
    intro n hn
    obtain ⟨p, hp, rfl⟩ := List.mem_map.mp hn
    have hp' := hpast p hp
    rw [Nat.le_div_iff_mul_le hhold, Nat.mul_comm]
    omega
  have hlength : s.holding.length = permits := Nat.le_antisymm s.bounded (Nat.not_lt.mp hfull)
  have hsum := List.card_nsmul_le_sum _ _ heach
  rw [List.length_map, hlength] at hsum
  calc s.waiting.length + 1 ≤ permits * (s.waiting.length / permits + 1) :=
        Nat.lt_mul_div_succ _ hpermits
    _ ≤ _ := hsum

end Semaphore
