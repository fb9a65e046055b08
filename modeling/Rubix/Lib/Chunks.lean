/-
# `Rubix.Lib.Chunks` — reading from a stream that arrives in chunks

A reader that asks for `n` elements takes whole chunks until they are enough,
and leaves the rest of the last one where it was (`gather`).  What it gets, and
what it leaves, are those of the elements one after the other: where the chunks
were cut makes no difference.
-/

namespace Chunks

variable {α : Type}

/-- The first `n` elements and the chunks behind them, if there are as many. -/
def gather (n : Nat) : List (List α) → Option (List α × List (List α))
  | [] => if n = 0 then some ([], []) else none
  | chunk :: chunks =>
      if n ≤ chunk.length then some (chunk.take n, chunk.drop n :: chunks)
      else (gather (n - chunk.length) chunks).map fun r => (chunk ++ r.1, r.2)

theorem gather_of_le {n : Nat} {chunks : List (List α)} (h : n ≤ chunks.flatten.length) :
    ∃ rest, gather n chunks = some (chunks.flatten.take n, rest) ∧
      rest.flatten = chunks.flatten.drop n := by
  induction chunks generalizing n with
  | nil =>
      have hn : n = 0 := Nat.le_zero.mp h
      subst hn
      exact ⟨[], rfl, rfl⟩
  | cons chunk chunks ih =>
      rw [List.flatten_cons, List.length_append] at h
      rw [gather, List.flatten_cons]
      by_cases hn : n ≤ chunk.length
      · refine ⟨chunk.drop n :: chunks, ?_, ?_⟩
        · rw [if_pos hn, List.take_append_of_le_length hn]
        · rw [List.flatten_cons, List.drop_append_of_le_length hn]
      · obtain ⟨rest, hgather, hrest⟩ := ih (n := n - chunk.length) (by omega)
        have hwhole : chunk.length ≤ n := by omega
        refine ⟨rest, ?_, ?_⟩
        · rw [if_neg hn, hgather, List.take_append, List.take_of_length_le hwhole]
          rfl
        · rw [hrest, List.drop_append, List.drop_of_length_le hwhole, List.nil_append]

theorem gather_of_lt {n : Nat} {chunks : List (List α)} (h : chunks.flatten.length < n) :
    gather n chunks = none := by
  induction chunks generalizing n with
  | nil => exact if_neg (Nat.ne_of_gt h)
  | cons chunk chunks ih =>
      rw [List.flatten_cons, List.length_append] at h
      rw [gather, if_neg (by omega), ih (by omega)]
      rfl

theorem length_of_gather {n : Nat} {chunks rest : List (List α)} {front : List α}
    (h : gather n chunks = some (front, rest)) : front.length = n := by
  by_cases hn : n ≤ chunks.flatten.length
  · obtain ⟨rest', hgather, -⟩ := gather_of_le hn
    cases h.symm.trans hgather
    exact List.length_take_of_le hn
  · rw [gather_of_lt (Nat.not_le.mp hn)] at h
    cases h

end Chunks
