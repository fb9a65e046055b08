/-
# `Rubix.Lib.Channel` — a bounded queue and those who wait to fill it

Who sends on a full channel waits, first come first served.  The messages in
the queue and those of the waiting senders are the pending ones:

    offer      one more is pending
    resume     the first waiting sender gets a free slot, none more is pending
    receive    one less

Without a receiver the channel suspends its senders for good: `Suspends` is
kept by whatever the senders do (`Suspends.offer`, `Suspends.resume`), and it
comes to that if and only if more messages are pending than there are slots
(`Suspends.lt_pending`, `resume_waiting`).
-/

/-- The messages in the queue, and those of the waiting senders. -/
structure Channel (α : Type) (cap : Nat) where
  queue : List α
  waiting : List α
  bounded : queue.length ≤ cap

namespace Channel

variable {α : Type} {cap : Nat} {c : Channel α cap} {a : α}

def empty : Channel α cap := ⟨[], [], Nat.zero_le cap⟩

theorem bounded_concat {queue : List α} (h : queue.length < cap) (a : α) :
    (queue ++ [a]).length ≤ cap := by
  rw [List.length_append]
  exact h

/-- A sender's first try. -/
def offer (c : Channel α cap) (a : α) : Channel α cap :=
  if h : c.waiting = [] ∧ c.queue.length < cap then
    { c with queue := c.queue ++ [a], bounded := bounded_concat h.2 a }
  else { c with waiting := c.waiting ++ [a] }

/-- The first waiting sender tries again. -/
def resume (c : Channel α cap) : Channel α cap :=
  match c.waiting with
  | [] => c
  | a :: waiting =>
      if h : c.queue.length < cap then ⟨c.queue ++ [a], waiting, bounded_concat h a⟩ else c

/-- The receiver takes a message. -/
def receive (c : Channel α cap) : Option (α × Channel α cap) :=
  match h : c.queue with
  | [] => none
  | a :: queue =>
      some (a, { c with
        queue
        bounded := by
          have hbounded := c.bounded
          rw [h] at hbounded
          exact Nat.le_of_succ_le hbounded })

def pending (c : Channel α cap) : Nat := c.queue.length + c.waiting.length

/-- A sender waits, and there is no slot for it. -/
def Suspends (c : Channel α cap) : Prop := c.waiting ≠ [] ∧ c.queue.length = cap

instance : Decidable c.Suspends := inferInstanceAs (Decidable (_ ∧ _))

@[simp] theorem pending_offer : (c.offer a).pending = c.pending + 1 := by
  rw [offer]
  split
  · simp only [pending, List.length_append, List.length_singleton]
    omega
  · simp only [pending, List.length_append, List.length_singleton]
    omega

@[simp] theorem pending_resume : c.resume.pending = c.pending := by
  rw [resume]
  split
  · rfl
  · next a waiting hwaiting =>
      split
      · simp only [pending, List.length_append, List.length_singleton]
        rw [hwaiting, List.length_cons]
        omega
      · rfl

theorem Suspends.lt_pending (h : c.Suspends) : cap < c.pending := by
  have hwaiting := List.length_pos_iff.mpr h.1
  have hqueue := h.2
  rw [pending]
  omega

/-! ## What is in it -/

/-- The messages on their way, the oldest first. -/
def contents (c : Channel α cap) : List α := c.queue ++ c.waiting

theorem contents_offer : (c.offer a).contents = c.contents ++ [a] := by
  rw [offer]
  split
  · next h => simp only [contents, h.1, List.append_nil]
  · exact (List.append_assoc _ _ _).symm

theorem contents_resume : c.resume.contents = c.contents := by
  rw [resume]
  split
  · rfl
  · next b waiting hwaiting =>
      split
      · simp only [contents, hwaiting, List.append_assoc]
        rfl
      · rfl

/-- A turn of the first waiting sender, with a slot for it or without. -/
theorem resume_cases (c : Channel α cap) :
    c.resume = c ∨ c.resume.waiting.length + 1 = c.waiting.length ∧
      c.resume.queue.length = c.queue.length + 1 := by
  rw [resume]
  split
  · exact .inl rfl
  · next b waiting hwaiting =>
      split
      · refine .inr ⟨?_, List.length_append⟩
        rw [hwaiting]
        rfl
      · exact .inl rfl

theorem waiting_of_resume (h : c.resume = c) (hroom : c.queue.length < cap) : c.waiting = [] := by
  cases hwaiting : c.waiting with
  | nil => rfl
  | cons b waiting =>
      have hqueue := congrArg (·.queue.length) h
      simp only [resume, hwaiting, dif_pos hroom, List.length_append] at hqueue
      exact absurd hqueue (Nat.succ_ne_self _)

theorem length_waiting_resume_le (c : Channel α cap) :
    c.resume.waiting.length ≤ c.waiting.length := by
  rcases c.resume_cases with hsame | ⟨hwaiting, -⟩
  · exact Nat.le_of_eq (congrArg (·.waiting.length) hsame)
  · omega

theorem length_waiting_offer_le (c : Channel α cap) (a : α) :
    (c.offer a).waiting.length ≤ c.waiting.length + 1 := by
  rw [offer]
  split
  · exact Nat.le_succ _
  · exact Nat.le_of_eq List.length_append

/-- A message needs at most two turns: for a slot, and out. -/
theorem weight_offer_le (c : Channel α cap) (a : α) :
    2 * (c.offer a).waiting.length + (c.offer a).queue.length
      ≤ 2 * c.waiting.length + c.queue.length + 2 := by
  rw [offer]
  split
  · simp only [List.length_append, List.length_singleton]
    omega
  · simp only [List.length_append, List.length_singleton]
    omega

theorem receive_eq_some {c' : Channel α cap} (h : c.receive = some (a, c')) :
    c.contents = a :: c'.contents ∧ c'.waiting = c.waiting := by
  rw [receive] at h
  split at h
  · exact nomatch h
  · next b queue hqueue =>
      cases h
      exact ⟨congrArg (· ++ c.waiting) hqueue, rfl⟩

theorem receive_eq_none (h : c.receive = none) : c.queue = [] := by
  rw [receive] at h
  split at h
  · assumption
  · exact nomatch h

/-! ## Suspended for good -/

theorem Suspends.offer (h : c.Suspends) : (c.offer a).Suspends := by
  rw [Channel.offer, dif_neg (fun hc => h.1 hc.1)]
  exact ⟨List.append_ne_nil_of_left_ne_nil h.1 _, h.2⟩

theorem Suspends.resume (h : c.Suspends) : c.resume.Suspends := by
  rw [Channel.resume]
  split
  · exact h
  · rw [dif_neg (Nat.not_lt.mpr (Nat.le_of_eq h.2.symm))]
    exact h

/-- As long as no sender is suspended and more messages are pending than there
are slots, one of those waiting gets a slot. -/
theorem resume_waiting (h : cap < c.pending) (hroom : ¬ c.Suspends) :
    c.resume.waiting.length < c.waiting.length := by
  have hbounded := c.bounded
  rw [pending] at h
  have hne : c.waiting ≠ [] := by
    intro hwaiting
    rw [hwaiting, List.length_nil] at h
    omega
  have hlt : c.queue.length < cap :=
    Nat.lt_of_le_of_ne hbounded fun heq => hroom ⟨hne, heq⟩
  rw [Channel.resume]
  split
  · next hwaiting => exact absurd hwaiting hne
  · next a waiting hwaiting =>
      rw [dif_pos hlt, hwaiting]
      exact Nat.lt_succ_self _

end Channel
