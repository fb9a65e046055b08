/-
# `Rubix.Lib.Framing` — streams of self-delimiting frames

A code is self-delimiting when a frame is settled by the front of whatever it
is followed by.  A stream of such frames is read in one way only: if the
frames of `as` are a front of the stream of `bs`, then `as` is a front of `bs`
(`SelfDelimiting.isPrefix`), wherever the stream was cut.

A decoder that reads one frame is run until it fails (`Decoder.drain`).  If it
reads the frames of a code (`Decoder.Reads`), then on a front of a stream of
frames it gives those that are there as a whole, and fails at the cut
(`Decoder.Reads.drain_front`).
-/

namespace Framing

variable {α β : Type} {P : α → Prop} {encode : α → List β}

/-- No frame is empty, and of two frames that each begin the same text neither
can be mistaken for the other. -/
structure SelfDelimiting (P : α → Prop) (encode : α → List β) : Prop where
  nonempty : ∀ a, encode a ≠ []
  settled : ∀ {a b : α} {x y : List β}, P a → P b → encode a ++ x = encode b ++ y → a = b

/-- The frames one after the other. -/
def stream (encode : α → List β) (as : List α) : List β := as.flatMap encode

theorem stream_append (as bs : List α) :
    stream encode (as ++ bs) = stream encode as ++ stream encode bs := List.flatMap_append

theorem stream_singleton (a : α) : stream encode [a] = encode a := List.flatMap_singleton ..

theorem SelfDelimiting.isPrefix (h : SelfDelimiting P encode) :
    ∀ {as bs : List α}, (∀ a ∈ as, P a) → (∀ b ∈ bs, P b) →
      stream encode as <+: stream encode bs → as <+: bs
  | [], bs, _, _, _ => List.nil_prefix
  | a :: as, [], _, _, hpre => by
      obtain ⟨rest, hrest⟩ := hpre
      have hnil : encode a = [] := (List.append_eq_nil_iff.mp (List.append_eq_nil_iff.mp hrest).1).1
      exact absurd hnil (h.nonempty a)
  | a :: as, b :: bs, has, hbs, hpre => by
      obtain ⟨rest, hrest⟩ := hpre
      have hrest' : encode a ++ (stream encode as ++ rest) = encode b ++ stream encode bs := by
        rw [← List.append_assoc]
        exact hrest
      have hab : a = b := h.settled (has a List.mem_cons_self) (hbs b List.mem_cons_self) hrest'
      subst hab
      have htail : stream encode as <+: stream encode bs := ⟨rest, List.append_cancel_left hrest'⟩
      have hsub := h.isPrefix (fun x hx => has x (List.mem_cons_of_mem _ hx))
        (fun x hx => hbs x (List.mem_cons_of_mem _ hx)) htail
      exact (List.prefix_cons_inj a).mpr hsub

/-! ## Decoders -/

/-- A decoder reads one element from the front of a text, or fails; either
way something may be left of it. -/
structure Decoder (α β ε : Type) where
  decode : List β → Except ε α × List β
  shrinks : ∀ {text rest : List β} {a : α}, decode text = (.ok a, rest) → rest.length < text.length

namespace Decoder

variable {ε : Type} (d : Decoder α β ε)

/-- Decode until it fails: what was read, the failure, and what it left. -/
def drain (text : List β) : List α × ε × List β :=
  match _h : d.decode text with
  | (.error e, rest) => ([], e, rest)
  | (.ok a, rest) => (a :: (drain rest).1, (drain rest).2)
termination_by text.length
decreasing_by all_goals exact d.shrinks _h

theorem drain_of_error {text rest : List β} {e : ε} (h : d.decode text = (.error e, rest)) :
    d.drain text = ([], e, rest) := by
  rw [drain]
  split
  · next h' =>
      cases h.symm.trans h'
      rfl
  · next h' => exact nomatch h.symm.trans h'

theorem drain_of_ok {text rest : List β} {a : α} (h : d.decode text = (.ok a, rest)) :
    d.drain text = (a :: (d.drain rest).1, (d.drain rest).2) := by
  rw [drain]
  split
  · next h' => exact nomatch h.symm.trans h'
  · next h' =>
      cases h.symm.trans h'
      rfl

/-- The decoder reads a frame of the code that is there, and fails with
`closed` at the end of the text and inside a frame that is cut off there. -/
structure Reads (P : α → Prop) (encode : α → List β) (closed : ε) : Prop where
  whole : ∀ {a : α}, P a → ∀ rest : List β, d.decode (encode a ++ rest) = (.ok a, rest)
  cut : ∀ {a : α} {front : List β}, P a → front <+: encode a → front ≠ encode a →
    d.decode front = (.error closed, [])
  nothing : d.decode [] = (.error closed, [])

variable {d} {closed : ε}

/-- On a front of a stream: the first `k` frames, where `k` is the number of
those that are there as a whole. -/
theorem Reads.drain_front (h : d.Reads P encode closed) {as : List α} (has : ∀ a ∈ as, P a)
    {front : List β} (hfront : front <+: stream encode as) :
    ∃ k, d.drain front = (as.take k, closed, []) ∧ stream encode (as.take k) <+: front ∧
      ∀ j ≤ as.length, stream encode (as.take j) <+: front → j ≤ k := by
  induction as generalizing front with
  | nil =>
      rw [List.prefix_nil.mp hfront]
      exact ⟨0, d.drain_of_error h.nothing, List.nil_prefix, fun j hj _ => hj⟩
  | cons a as ih =>
      have ha : P a := has a List.mem_cons_self
      have hwhole : stream encode (a :: as) = encode a ++ stream encode as := List.flatMap_cons
      rw [hwhole] at hfront
      by_cases hpre : encode a <+: front
      · obtain ⟨front, rfl⟩ := hpre
        have hrest : front <+: stream encode as := (List.prefix_append_right_inj _).mp hfront
        obtain ⟨k, hdrain, htake, hmost⟩ := ih (fun x hx => has x (List.mem_cons_of_mem a hx)) hrest
        refine ⟨k + 1, ?_, (List.prefix_append_right_inj _).mpr htake, fun j hj hj' => ?_⟩
        · rw [d.drain_of_ok (h.whole ha front), hdrain]
          rfl
        · cases j with
          | zero => exact Nat.zero_le _
          | succ j =>
              have htail := (List.prefix_append_right_inj _).mp hj'
              exact Nat.succ_le_succ (hmost j (Nat.le_of_succ_le_succ hj) htail)
      · -- the front ends inside the first frame
        have hinside : front <+: encode a :=
          (List.prefix_or_prefix_of_prefix hfront (List.prefix_append _ _)).resolve_right hpre
        have hne : front ≠ encode a := fun heq => hpre (heq ▸ List.prefix_rfl)
        refine ⟨0, d.drain_of_error (h.cut ha hinside hne), List.nil_prefix, fun j _ hj => ?_⟩
        cases j with
        | zero => exact Nat.le_refl 0
        | succ j => exact absurd ((List.prefix_append _ _).trans hj) hpre

/-- On a stream of frames: all of them. -/
theorem Reads.drain_stream (h : d.Reads P encode closed) {as : List α} (has : ∀ a ∈ as, P a) :
    d.drain (stream encode as) = (as, closed, []) := by
  obtain ⟨k, hdrain, -, hmost⟩ := h.drain_front has List.prefix_rfl
  have hwhole : stream encode (as.take as.length) <+: stream encode as :=
    List.take_length.symm ▸ List.prefix_rfl
  have hall : as.length ≤ k := hmost _ (Nat.le_refl _) hwhole
  rw [hdrain, List.take_of_length_le hall]

end Decoder

end Framing
