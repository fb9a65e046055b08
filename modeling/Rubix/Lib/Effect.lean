/-
# `Rubix.Lib.Effect` — programs that call an environment and log the calls

A program runs against a world `W` it knows nothing about: every call to the
environment is a function `W → ρ × W`, so the answers may depend on anything
that happened before.  A run ends in one of three ways (a value, an error of
the program's own error type, a panic), leaves a world behind, and carries
the log of the calls it made, each with its answer.

Four judgements are kept about programs, each closed under sequencing:

    Keeps I x      x preserves the world invariant I, however it ends
    Logs P x       every call x logs satisfies P
    Yields Q x     if x ends in a value, the value satisfies Q
    Traces T x     if x ends in a value, T relates the value and the log

`Yields` is what lets the other two see that a branch is dead: a step that
never yields a value, for instance because it `Throws`, makes everything
sequenced after it unreachable.

`serve` runs a program for each request of a sequence, each from the world
the last one left and however that one ended.
-/

namespace Effect

/-- A sequence of fallible computations has the value its second part has on
a value of the first. -/
theorem bind_eq_ok {ε α β : Type} {x : Except ε α} {f : α → Except ε β} {b : β} :
    (x >>= f) = .ok b ↔ ∃ a, x = .ok a ∧ f a = .ok b := by
  cases x with
  | error e => exact iff_of_false (fun h => nomatch h) fun ⟨_, h, _⟩ => nomatch h
  | ok a =>
      constructor
      · intro h
        exact ⟨a, rfl, h⟩
      · rintro ⟨a', ha, h⟩
        cases ha
        exact h

/-- Errors may be translated at the end or step by step. -/
theorem mapError_bind {ε ε' α β : Type} (g : ε → ε') (x : Except ε α) (f : α → Except ε β) :
    (x >>= f).mapError g = x.mapError g >>= fun a => (f a).mapError g := by
  cases x with
  | ok a => rfl
  | error e => rfl

/-- How a run ends. -/
inductive Outcome (ε π α : Type) where
  | ok (a : α)
  | err (e : ε)
  | panic (p : π)
  deriving DecidableEq

/-- A finished run: its end, the world it leaves, the calls it made. -/
structure Run (W κ ε π α : Type) where
  outcome : Outcome ε π α
  world : W
  log : List κ

/-- Programs over a world `W`, with calls logged as `κ`. -/
def Prog (W κ ε π α : Type) : Type := W → Run W κ ε π α

namespace Prog

variable {W κ ε π δ α β ρ : Type}

protected def pure (a : α) : Prog W κ ε π α := fun w => ⟨.ok a, w, []⟩

/-- Sequencing: an error or a panic ends the run, and the logs append. -/
protected def bind (x : Prog W κ ε π α) (f : α → Prog W κ ε π β) : Prog W κ ε π β := fun w =>
  match x w with
  | ⟨.ok a, w', l⟩ => ⟨(f a w').outcome, (f a w').world, l ++ (f a w').log⟩
  | ⟨.err e, w', l⟩ => ⟨.err e, w', l⟩
  | ⟨.panic p, w', l⟩ => ⟨.panic p, w', l⟩

instance : Monad (Prog W κ ε π) where
  pure := Prog.pure
  bind := Prog.bind

/-- End with an error. -/
def fail (e : ε) : Prog W κ ε π α := fun w => ⟨.err e, w, []⟩

/-- End with a panic. -/
def abort (p : π) : Prog W κ ε π α := fun w => ⟨.panic p, w, []⟩

/-- Call the environment and log the call with its answer. -/
def call (ev : ρ → κ) (f : W → ρ × W) : Prog W κ ε π ρ := fun w =>
  ⟨.ok (f w).1, (f w).2, [ev (f w).1]⟩

/-- Read or change the world without a logged call. -/
def silent (f : W → ρ × W) : Prog W κ ε π ρ := fun w => ⟨.ok (f w).1, (f w).2, []⟩

/-- Turn an answer into a value or an error of the program. -/
def orFail (g : δ → ε) : Except δ α → Prog W κ ε π α
  | .ok a => Prog.pure a
  | .error d => fail (g d)

@[simp] theorem pure_run (a : α) (w : W) :
    (pure a : Prog W κ ε π α) w = ⟨.ok a, w, []⟩ := rfl

@[simp] theorem fail_run (e : ε) (w : W) :
    (fail e : Prog W κ ε π α) w = ⟨.err e, w, []⟩ := rfl

@[simp] theorem call_run (ev : ρ → κ) (f : W → ρ × W) (w : W) :
    (call ev f : Prog W κ ε π ρ) w = ⟨.ok (f w).1, (f w).2, [ev (f w).1]⟩ := rfl

@[simp] theorem silent_run (f : W → ρ × W) (w : W) :
    (silent f : Prog W κ ε π ρ) w = ⟨.ok (f w).1, (f w).2, []⟩ := rfl

@[simp] theorem orFail_ok (g : δ → ε) (a : α) :
    (orFail g (.ok a) : Prog W κ ε π α) = pure a := rfl

@[simp] theorem orFail_error (g : δ → ε) (d : δ) :
    (orFail g (.error d) : Prog W κ ε π α) = fail (g d) := rfl

/-- The equation of sequencing, by the end of the first part. -/
theorem bind_run (x : Prog W κ ε π α) (f : α → Prog W κ ε π β) (w : W) :
    (x >>= f) w =
      match x w with
      | ⟨.ok a, w', l⟩ => ⟨(f a w').outcome, (f a w').world, l ++ (f a w').log⟩
      | ⟨.err e, w', l⟩ => ⟨.err e, w', l⟩
      | ⟨.panic p, w', l⟩ => ⟨.panic p, w', l⟩ := rfl

/-! Sequencing after each of the primitives: the equations that run a program
step by step. -/

theorem call_bind (ev : ρ → κ) (f : W → ρ × W) (g : ρ → Prog W κ ε π β) (w : W) :
    (call ev f >>= g) w =
      ⟨(g (f w).1 (f w).2).outcome, (g (f w).1 (f w).2).world,
        ev (f w).1 :: (g (f w).1 (f w).2).log⟩ := rfl

theorem silent_bind (f : W → ρ × W) (g : ρ → Prog W κ ε π β) (w : W) :
    (silent f >>= g) w = g (f w).1 (f w).2 := rfl

theorem pure_bind_run (a : α) (g : α → Prog W κ ε π β) (w : W) : (pure a >>= g) w = g a w := rfl

theorem fail_bind (e : ε) (g : α → Prog W κ ε π β) (w : W) :
    ((fail e : Prog W κ ε π α) >>= g) w = ⟨.err e, w, []⟩ := rfl

/-- The equation of sequencing, where the end of the first part is known. -/
theorem bind_of_ok {x : Prog W κ ε π α} {w : W} {a : α} (h : (x w).outcome = .ok a)
    (g : α → Prog W κ ε π β) :
    (x >>= g) w = ⟨(g a (x w).world).outcome, (g a (x w).world).world,
      (x w).log ++ (g a (x w).world).log⟩ := by
  rw [bind_run]
  rcases hr : x w with ⟨o, w', l⟩
  rw [hr] at h
  cases h
  rfl

theorem bind_of_silent {x : Prog W κ ε π α} {w w' : W} {a : α} (h : x w = ⟨.ok a, w', []⟩)
    (g : α → Prog W κ ε π β) : (x >>= g) w = g a w' := by
  rw [bind_run, h]
  rfl

theorem bind_of_err {x : Prog W κ ε π α} {w : W} {e : ε} (h : (x w).outcome = .err e)
    (g : α → Prog W κ ε π β) : (x >>= g) w = ⟨.err e, (x w).world, (x w).log⟩ := by
  rw [bind_run]
  rcases hr : x w with ⟨o, w', l⟩
  rw [hr] at h
  cases h
  rfl

theorem bind_assoc {γ : Type} (x : Prog W κ ε π α) (f : α → Prog W κ ε π β)
    (g : β → Prog W κ ε π γ) : (x >>= f) >>= g = x >>= fun a => f a >>= g := by
  funext w
  rw [bind_run, bind_run, bind_run]
  rcases x w with ⟨o, w', l⟩
  cases o with
  | ok a =>
      dsimp only
      rw [bind_run]
      rcases f a w' with ⟨o', w'', l'⟩
      cases o' with
      | ok b => exact congrArg _ (List.append_assoc l l' _)
      | err e => rfl
      | panic p => rfl
  | err e => rfl
  | panic p => rfl

/-! A program whose value is dropped. -/

theorem discard_world (x : Prog W κ ε π α) (b : β) (w : W) :
    ((x >>= fun _ => pure b : Prog W κ ε π β) w).world = (x w).world := by
  rw [bind_run]
  rcases x w with ⟨o, w', l⟩
  cases o with
  | ok a | err e | panic p => rfl

theorem discard_log (x : Prog W κ ε π α) (b : β) (w : W) :
    ((x >>= fun _ => pure b : Prog W κ ε π β) w).log = (x w).log := by
  rw [bind_run]
  rcases x w with ⟨o, w', l⟩
  cases o with
  | ok a => exact List.append_nil l
  | err e | panic p => rfl

theorem discard_ok {x : Prog W κ ε π α} {b : β} {w : W} :
    ((x >>= fun _ => pure b : Prog W κ ε π β) w).outcome = .ok b ↔
      ∃ a, (x w).outcome = .ok a := by
  rw [bind_run]
  rcases x w with ⟨o, w', l⟩
  cases o with
  | ok a => simp
  | err e | panic p => simp

/-! ## World invariants -/

/-- `x` preserves the invariant `I`, however it ends. -/
def Keeps (I : W → Prop) (x : Prog W κ ε π α) : Prop := ∀ w, I w → I (x w).world

section Keeps
variable {I : W → Prop}

theorem Keeps.pure (a : α) : Keeps I (pure a : Prog W κ ε π α) := fun _ h => h

theorem Keeps.fail (e : ε) : Keeps I (fail e : Prog W κ ε π α) := fun _ h => h

theorem Keeps.call {ev : ρ → κ} {f : W → ρ × W} (h : ∀ w, I w → I (f w).2) :
    Keeps I (call ev f : Prog W κ ε π ρ) := h

theorem Keeps.silent {f : W → ρ × W} (h : ∀ w, I w → I (f w).2) :
    Keeps I (silent f : Prog W κ ε π ρ) := h

theorem Keeps.orFail (g : δ → ε) (r : Except δ α) :
    Keeps I (orFail g r : Prog W κ ε π α) := by
  cases r with
  | ok a => exact Keeps.pure a
  | error d => exact Keeps.fail (g d)

/-- What holds where the first part ends holds at the end, if the second part
keeps it from there on the value it is handed. -/
theorem bind_world {x : Prog W κ ε π α} {f : α → Prog W κ ε π β} {w : W} (hx : I (x w).world)
    (hf : ∀ a, (x w).outcome = .ok a → I (f a (x w).world).world) : I ((x >>= f) w).world := by
  rw [bind_run]
  rcases hr : x w with ⟨o, w', l⟩
  rw [hr] at hx hf
  cases o with
  | ok a => exact hf a rfl
  | err e => exact hx
  | panic p => exact hx

/-- Sequencing under an invariant, where the value handed on may be used:
the second part only has to keep `I` from worlds the first part can leave
with that value. -/
theorem Keeps.bind_of {x : Prog W κ ε π α} {f : α → Prog W κ ε π β} (hx : Keeps I x)
    (hf : ∀ w a, I w → (x w).outcome = .ok a → I (f a (x w).world).world) :
    Keeps I (x >>= f) :=
  fun w hw => bind_world (hx w hw) fun a ha => hf w a hw ha

theorem Keeps.bind {x : Prog W κ ε π α} {f : α → Prog W κ ε π β} (hx : Keeps I x)
    (hf : ∀ a, Keeps I (f a)) : Keeps I (x >>= f) :=
  hx.bind_of fun w a hw _ => hf a _ (hx w hw)

end Keeps

/-! ## Values and logs -/

/-- If `x` ends in a value, the value satisfies `Q`. -/
def Yields (Q : α → Prop) (x : Prog W κ ε π α) : Prop :=
  ∀ w a, (x w).outcome = .ok a → Q a

theorem Yields.fail {Q : α → Prop} (e : ε) : Yields Q (fail e : Prog W κ ε π α) :=
  fun _ _ h => nomatch h

theorem Yields.orFail {Q : α → Prop} {g : δ → ε} {r : Except δ α} (h : ∀ a, r = .ok a → Q a) :
    Yields Q (orFail g r : Prog W κ ε π α) := by
  intro w a ha
  cases r with
  | ok b =>
      cases ha
      exact h a rfl
  | error d => exact nomatch ha

/-- A value of a sequence is a value of its second part, on a value of the first. -/
theorem ok_of_bind {x : Prog W κ ε π α} {f : α → Prog W κ ε π β} {w : W} {b : β}
    (h : ((x >>= f) w).outcome = .ok b) :
    ∃ a, (x w).outcome = .ok a ∧ (f a (x w).world).outcome = .ok b := by
  rw [bind_run] at h
  rcases hr : x w with ⟨o, w', l⟩
  rw [hr] at h
  cases o with
  | ok a => exact ⟨a, rfl, h⟩
  | err e => exact nomatch h
  | panic p => exact nomatch h

theorem ok_bind {x : Prog W κ ε π α} {f : α → Prog W κ ε π β} {w : W} {a : α} {b : β}
    (hx : (x w).outcome = .ok a) (hf : (f a (x w).world).outcome = .ok b) :
    ((x >>= f) w).outcome = .ok b := by
  rw [bind_of_ok hx]
  exact hf

theorem orFail_eq_ok {g : δ → ε} {r : Except δ α} {w : W} {a : α} :
    (orFail g r w : Run W κ ε π α).outcome = .ok a ↔ r = .ok a := by
  cases r with
  | error d =>
      constructor
      · intro h
        cases h
      · intro h
        cases h
  | ok b =>
      constructor
      · intro h
        cases h
        rfl
      · intro h
        cases h
        rfl

/-- An answer that is turned into a value or an error, and what follows on it. -/
theorem orFail_bind_ok {g : δ → ε} {r : Except δ α} {f : α → Prog W κ ε π β} {w : W} {b : β} :
    ((orFail g r >>= f) w).outcome = .ok b ↔ ∃ a, r = .ok a ∧ (f a w).outcome = .ok b := by
  cases r with
  | error d =>
      constructor
      · intro h
        cases h
      · rintro ⟨a, ha, -⟩
        cases ha
  | ok a =>
      constructor
      · intro h
        exact ⟨a, rfl, h⟩
      · rintro ⟨a', ha, h⟩
        cases ha
        exact h

/-- Sequencing for values, where the second part only has to behave on the
values the first part yields. -/
theorem Yields.bind_of {P : α → Prop} {Q : β → Prop} {x : Prog W κ ε π α}
    {f : α → Prog W κ ε π β} (hx : Yields P x) (hf : ∀ a, P a → Yields Q (f a)) :
    Yields Q (x >>= f) := by
  intro w b hb
  obtain ⟨a, ha, hfa⟩ := ok_of_bind hb
  exact hf a (hx w a ha) _ b hfa

theorem Yields.bind {Q : β → Prop} {x : Prog W κ ε π α} {f : α → Prog W κ ε π β}
    (hf : ∀ a, Yields Q (f a)) : Yields Q (x >>= f) :=
  Yields.bind_of (P := fun _ => True) (fun _ _ _ => trivial) fun a _ => hf a

theorem Yields.orFail_bind {Q : β → Prop} {g : δ → ε} {r : Except δ α} {f : α → Prog W κ ε π β}
    (hf : ∀ a, r = .ok a → Yields Q (f a)) : Yields Q (Prog.orFail g r >>= f) :=
  (Yields.orFail fun _ h => h).bind_of hf

theorem Yields.pure {Q : α → Prop} {a : α} (h : Q a) : Yields Q (pure a : Prog W κ ε π α) := by
  intro w b hb
  cases hb
  exact h

/-- Sequencing under an invariant, where what the first part yields is known. -/
theorem Keeps.bind_yields {I : W → Prop} {Q : α → Prop} {x : Prog W κ ε π α}
    {f : α → Prog W κ ε π β} (hx : Keeps I x) (hQ : Yields Q x) (hf : ∀ a, Q a → Keeps I (f a)) :
    Keeps I (x >>= f) :=
  hx.bind_of fun w a hw ha => hf a (hQ w a ha) _ (hx w hw)

/-- Every call `x` logs satisfies `P`. -/
def Logs (P : κ → Prop) (x : Prog W κ ε π α) : Prop := ∀ w, ∀ k ∈ (x w).log, P k

section Logs
variable {P : κ → Prop}

theorem Logs.pure (a : α) : Logs P (pure a : Prog W κ ε π α) :=
  fun _ _ h => absurd h List.not_mem_nil

theorem Logs.fail (e : ε) : Logs P (fail e : Prog W κ ε π α) :=
  fun _ _ h => absurd h List.not_mem_nil

theorem Logs.call {ev : ρ → κ} {f : W → ρ × W} (h : ∀ r, P (ev r)) :
    Logs P (call ev f : Prog W κ ε π ρ) := by
  intro w k hk
  rw [call_run, List.mem_singleton] at hk
  exact hk ▸ h _

theorem Logs.silent (f : W → ρ × W) : Logs P (silent f : Prog W κ ε π ρ) :=
  fun _ _ h => absurd h List.not_mem_nil

theorem Logs.orFail (g : δ → ε) (r : Except δ α) : Logs P (orFail g r : Prog W κ ε π α) := by
  cases r with
  | ok a => exact Logs.pure a
  | error d => exact Logs.fail (g d)

/-- Sequencing for logs, where the second part only has to behave on the
values the first part yields. -/
theorem Logs.bind_of {Q : α → Prop} {x : Prog W κ ε π α} {f : α → Prog W κ ε π β}
    (hx : Logs P x) (hQ : Yields Q x) (hf : ∀ a, Q a → Logs P (f a)) : Logs P (x >>= f) := by
  intro w k hk
  have hxw := hx w
  have hQw := hQ w
  rw [bind_run] at hk
  rcases hr : x w with ⟨o, w', l⟩
  rw [hr] at hxw hQw hk
  cases o with
  | ok a =>
      rcases List.mem_append.mp hk with h | h
      · exact hxw k h
      · exact hf a (hQw a rfl) w' k h
  | err e => exact hxw k hk
  | panic p => exact hxw k hk

theorem Logs.bind {x : Prog W κ ε π α} {f : α → Prog W κ ε π β} (hx : Logs P x)
    (hf : ∀ a, Logs P (f a)) : Logs P (x >>= f) :=
  hx.bind_of (Q := fun _ => True) (fun _ _ _ => trivial) fun a _ => hf a

/-- The log of a sequence is the first part's log and calls of the second part. -/
theorem Logs.after {x : Prog W κ ε π α} {f : α → Prog W κ ε π β} (hf : ∀ a, Logs P (f a))
    (w : W) : ∃ l, ((x >>= f) w).log = (x w).log ++ l ∧ ∀ k ∈ l, P k := by
  rw [bind_run]
  rcases x w with ⟨o, w', l⟩
  cases o with
  | ok a => exact ⟨_, rfl, hf a w'⟩
  | err e => exact ⟨[], (List.append_nil l).symm, fun _ h => absurd h List.not_mem_nil⟩
  | panic p => exact ⟨[], (List.append_nil l).symm, fun _ h => absurd h List.not_mem_nil⟩

end Logs

/-! ## A value and the calls that led to it

The rules follow the program from its front: what is logged on the way is put
before what the rest logs. -/

/-- If `x` ends in a value, `T` holds of the value and the log. -/
def Traces (T : α → List κ → Prop) (x : Prog W κ ε π α) : Prop :=
  ∀ w a, (x w).outcome = .ok a → T a (x w).log

section Traces
variable {T : α → List κ → Prop}

theorem Traces.pure {a : α} (h : T a []) : Traces T (pure a : Prog W κ ε π α) := by
  intro w b hb
  cases hb
  exact h

theorem Traces.fail (e : ε) : Traces T (fail e : Prog W κ ε π α) := fun _ _ h => nomatch h

theorem Traces.call_bind {ev : ρ → κ} {f : W → ρ × W} {g : ρ → Prog W κ ε π α}
    (h : ∀ r, Traces (fun a l => T a (ev r :: l)) (g r)) : Traces T (call ev f >>= g) :=
  fun w a ha => h (f w).1 (f w).2 a ha

theorem Traces.silent_bind {f : W → ρ × W} {g : ρ → Prog W κ ε π α} (h : ∀ r, Traces T (g r)) :
    Traces T (silent f >>= g) :=
  fun w a ha => h (f w).1 (f w).2 a ha

theorem Traces.orFail_bind {g : δ → ε} {r : Except δ β} {f : β → Prog W κ ε π α}
    (h : ∀ b, r = .ok b → Traces T (f b)) : Traces T (orFail g r >>= f) := by
  cases r with
  | ok b => exact h b rfl
  | error d => exact Traces.fail (g d)

end Traces

/-! ## Programs that never panic, and programs that always fail -/

/-- `x` does not panic. -/
def Safe (x : Prog W κ ε π α) : Prop := ∀ w p, (x w).outcome ≠ .panic p

/-- `x` always ends in an error. -/
def Throws (x : Prog W κ ε π α) : Prop := ∀ w, ∃ e, (x w).outcome = .err e

theorem Safe.call (ev : ρ → κ) (f : W → ρ × W) : Safe (call ev f : Prog W κ ε π ρ) :=
  fun _ _ h => nomatch h

theorem Safe.silent (f : W → ρ × W) : Safe (silent f : Prog W κ ε π ρ) :=
  fun _ _ h => nomatch h

theorem Safe.orFail (g : δ → ε) (r : Except δ α) : Safe (orFail g r : Prog W κ ε π α) := by
  cases r with
  | ok a => exact fun _ _ h => nomatch h
  | error d => exact fun _ _ h => nomatch h

theorem Safe.pure (a : α) : Safe (pure a : Prog W κ ε π α) := fun _ _ h => nomatch h

theorem Safe.fail (e : ε) : Safe (fail e : Prog W κ ε π α) := fun _ _ h => nomatch h

/-- A sequence panics in its first part, or in its second part on a value of
the first. -/
theorem bind_panics {x : Prog W κ ε π α} {f : α → Prog W κ ε π β} {w : W} {p : π} :
    ((x >>= f) w).outcome = .panic p ↔ (x w).outcome = .panic p ∨
      ∃ a, (x w).outcome = .ok a ∧ (f a (x w).world).outcome = .panic p := by
  rw [bind_run]
  rcases x w with ⟨o, w', l⟩
  cases o with
  | ok a => simp
  | err e => simp
  | panic p => simp

theorem Safe.bind {x : Prog W κ ε π α} {f : α → Prog W κ ε π β} (hx : Safe x)
    (hf : ∀ a, Safe (f a)) : Safe (x >>= f) := by
  intro w p hp
  rcases bind_panics.mp hp with hp | ⟨a, -, hp⟩
  · exact hx w p hp
  · exact hf a _ p hp

theorem Throws.fail (e : ε) : Throws (fail e : Prog W κ ε π α) := fun _ => ⟨e, rfl⟩

theorem Throws.bind_left {x : Prog W κ ε π α} (hx : Throws x) (f : α → Prog W κ ε π β) :
    Throws (x >>= f) := by
  intro w
  obtain ⟨e, he⟩ := hx w
  rw [bind_run]
  rcases hr : x w with ⟨o, w', l⟩
  rw [hr] at he
  cases he
  exact ⟨e, rfl⟩

/-- Sequencing, where the second part only has to fail on the values the
first part yields. -/
theorem Throws.bind_of {Q : α → Prop} {x : Prog W κ ε π α} {f : α → Prog W κ ε π β}
    (hx : Safe x) (hQ : Yields Q x) (hf : ∀ a, Q a → Throws (f a)) : Throws (x >>= f) := by
  intro w
  have hxw := hx w
  have hQw := hQ w
  rw [bind_run]
  rcases hr : x w with ⟨o, w', l⟩
  rw [hr] at hxw hQw
  cases o with
  | ok a => exact hf a (hQw a rfl) w'
  | err e => exact ⟨e, rfl⟩
  | panic p => exact absurd rfl (hxw p)

theorem Throws.bind {x : Prog W κ ε π α} {f : α → Prog W κ ε π β} (hx : Safe x)
    (hf : ∀ a, Throws (f a)) : Throws (x >>= f) :=
  .bind_of (Q := fun _ => True) hx (fun _ _ _ => trivial) fun a _ => hf a

/-- What always fails yields no value at all. -/
theorem Throws.yields {x : Prog W κ ε π α} (hx : Throws x) : Yields (fun _ => False) x := by
  intro w a ha
  obtain ⟨e, he⟩ := hx w
  rw [ha] at he
  exact nomatch he

/-! ## Sequences of requests -/

/-- A request, the world it was served in, and the run. -/
structure Served (σ W κ ε π α : Type) where
  request : σ
  before : W
  run : Run W κ ε π α

section Serve
variable {σ : Type} {handle : σ → Prog W κ ε π α}

/-- Serve requests one after the other. -/
def serve (handle : σ → Prog W κ ε π α) : List σ → W → List (Served σ W κ ε π α)
  | [], _ => []
  | x :: xs, w => ⟨x, w, handle x w⟩ :: serve handle xs (handle x w).world

/-- The calls of all the runs, in order. -/
def history (served : List (Served σ W κ ε π α)) : List κ := served.flatMap (·.run.log)

/-- The world the last of the requests leaves. -/
def leaves (handle : σ → Prog W κ ε π α) (xs : List σ) (w : W) : W :=
  xs.foldl (fun w x => (handle x w).world) w

theorem leaves_keeps {I : W → Prop} (h : ∀ x, Keeps I (handle x)) (xs : List σ) {w : W}
    (hw : I w) : I (leaves handle xs w) := by
  induction xs generalizing w with
  | nil => exact hw
  | cons x xs ih =>
      have hnext := h x w hw
      exact ih hnext

/-- A split of what is served comes from a split of the requests. -/
theorem serve_eq_append_cons {e : Served σ W κ ε π α} {later : List (Served σ W κ ε π α)} :
    ∀ {earlier : List (Served σ W κ ε π α)} {xs : List σ} {w : W},
      serve handle xs w = earlier ++ e :: later →
      ∃ ys x zs, xs = ys ++ x :: zs ∧ earlier = serve handle ys w ∧
        e = ⟨x, leaves handle ys w, handle x (leaves handle ys w)⟩ ∧
        later = serve handle zs (handle x (leaves handle ys w)).world
  | _, [], _, h => absurd h.symm (List.append_ne_nil_of_right_ne_nil _ (List.cons_ne_nil _ _))
  | [], x :: xs, w, h => by
      obtain ⟨rfl, rfl⟩ := List.cons.inj h
      exact ⟨[], x, xs, rfl, rfl, rfl, rfl⟩
  | _ :: earlier, x :: xs, w, h => by
      obtain ⟨rfl, hrest⟩ := List.cons.inj h
      obtain ⟨ys, y, zs, rfl, rfl, rfl, rfl⟩ := serve_eq_append_cons hrest
      exact ⟨x :: ys, y, zs, rfl, rfl, rfl, rfl⟩

/-- Each of the runs is of one of the requests, from the world that those
before it leave. -/
theorem of_mem_serve {xs : List σ} {w : W} {e : Served σ W κ ε π α} (h : e ∈ serve handle xs w) :
    ∃ ys zs, xs = ys ++ e.request :: zs ∧ e.before = leaves handle ys w ∧
      e.run = handle e.request e.before := by
  obtain ⟨earlier, later, hserve⟩ := List.append_of_mem h
  obtain ⟨ys, x, zs, hxs, -, rfl, -⟩ := serve_eq_append_cons hserve
  exact ⟨ys, zs, hxs, rfl, rfl⟩

theorem request_mem_of_serve {xs : List σ} {w : W} :
    ∀ e ∈ serve handle xs w, e.request ∈ xs := by
  intro e he
  obtain ⟨ys, zs, rfl, -, -⟩ := of_mem_serve he
  exact List.mem_append_right ys List.mem_cons_self

/-- An invariant that every served request keeps, where it meets its
condition, holds before and after each of them. -/
theorem serve_keeps {I : W → Prop} {C : σ → W → Prop}
    (hstep : ∀ x w, I w → C x w → I (handle x w).world) {xs : List σ} {w : W} (hw : I w)
    (hC : ∀ e ∈ serve handle xs w, C e.request e.before) :
    ∀ e ∈ serve handle xs w, I e.before ∧ I e.run.world := by
  induction xs generalizing w with
  | nil =>
      intro e he
      exact absurd he List.not_mem_nil
  | cons x xs ih =>
      intro e he
      have hnext := hstep x w hw (hC _ List.mem_cons_self)
      rcases List.mem_cons.mp he with rfl | he
      · exact ⟨hw, hnext⟩
      · exact ih hnext (fun e he => hC e (List.mem_cons_of_mem _ he)) e he

theorem serve_logs {P : κ → Prop} (h : ∀ x, Logs P (handle x)) {xs : List σ} {w : W} :
    ∀ e ∈ serve handle xs w, ∀ k ∈ e.run.log, P k := by
  intro e he
  obtain ⟨-, -, -, -, hrun⟩ := of_mem_serve he
  rw [hrun]
  exact h e.request e.before

end Serve

end Prog
end Effect
