/-
# `Rubix.Lib.Interleaving` — processes that share a world, step by step

A process has a list of steps to take.  A step is a program (`Effect.Prog`)
over the world that all of them share, and nothing comes between its parts; an
event says which process takes its next step, and under which circumstances.
A process whose step fails or panics takes no more, and one that has no steps
left has returned.  Runs of events are those of `Runs`.

A process that nothing comes between runs its steps in sequence (`run_alone`).
-/
import Mathlib.Logic.Function.Basic
import Rubix.Lib.Effect
import Rubix.Lib.Runs

namespace Interleaving

open Effect Runs

variable {ι W κ ε π φ St : Type}

/-- The world, and for each process the steps it has left or the error or the
panic it ended in. -/
structure System (ι W ε π St : Type) where
  world : W
  stage : ι → Outcome ε π (List St)

/-- Where a step leads that has `rest` behind it. -/
def after (rest : List St) : Outcome ε π Unit → Outcome ε π (List St)
  | .ok () => .ok rest
  | .err e => .err e
  | .panic p => .panic p

/-- The step a process takes next. -/
def System.due (s : System ι W ε π St) (i : ι) : Option St :=
  match s.stage i with
  | .ok (c :: _) => some c
  | _ => none

def System.Returned (s : System ι W ε π St) (i : ι) : Prop := s.stage i = .ok []

/-- Steps in sequence, each under its own circumstances. -/
def inSequence (perform : St → φ → Prog W κ ε π Unit) : List (St × φ) → Prog W κ ε π Unit
  | [] => pure ()
  | (c, x) :: rest => do
      perform c x
      inSequence perform rest

section
variable {s : System ι W ε π St} {i : ι} {c : St} {rest : List St}

theorem due_of_stage (h : s.stage i = .ok (c :: rest)) : s.due i = some c := by
  rw [System.due, h]

theorem stage_of_due (h : s.due i = some c) : ∃ rest, s.stage i = .ok (c :: rest) := by
  unfold System.due at h
  split at h
  · rename_i c' rest hstage
    cases h
    exact ⟨rest, hstage⟩
  · cases h

/-- What a step leaves has the step's outcome in front of it. -/
theorem after_eq_ok {o : Outcome ε π Unit} {left : List St} :
    after rest o = .ok left ↔ o = .ok () ∧ left = rest := by
  cases o with
  | ok u => simp [after, eq_comm]
  | err e => simp [after]
  | panic p => simp [after]

end

variable [DecidableEq ι]

/-- One step of one process, if it has one left. -/
def step (perform : ι → St → φ → Prog W κ ε π Unit) (s : System ι W ε π St) (e : ι × φ) :
    System ι W ε π St :=
  match s.stage e.1 with
  | .ok (c :: rest) =>
      { world := (perform e.1 c e.2 s.world).world
        stage := Function.update s.stage e.1 (after rest (perform e.1 c e.2 s.world).outcome) }
  | _ => s

section
variable {perform : ι → St → φ → Prog W κ ε π Unit} {s : System ι W ε π St} {i : ι} {x : φ} {c : St}
  {rest : List St}

theorem step_of_stage (h : s.stage i = .ok (c :: rest)) : step perform s (i, x) =
    { world := (perform i c x s.world).world
      stage := Function.update s.stage i (after rest (perform i c x s.world).outcome) } := by
  rw [step, h]

theorem step_of_due_none (h : s.due i = none) : step perform s (i, x) = s := by
  unfold step
  split
  · rename_i c rest hstage
    rw [due_of_stage hstage] at h
    cases h
  · rfl

/-- An invariant is kept by a step if it is kept by each that is due. -/
theorem step_keeps {P : System ι W ε π St → Prop} (hs : P s)
    (hdue : ∀ c rest, s.stage i = .ok (c :: rest) → P
      { world := (perform i c x s.world).world
        stage := Function.update s.stage i (after rest (perform i c x s.world).outcome) }) :
    P (step perform s (i, x)) := by
  cases h : s.due i with
  | none =>
      rw [step_of_due_none h]
      exact hs
  | some c =>
      obtain ⟨rest, hstage⟩ := stage_of_due h
      rw [step_of_stage hstage]
      exact hdue c rest hstage

/-- A process that has no step due does nothing more. -/
theorem run_of_due_none (h : s.due i = none) (plan : List (St × φ)) :
    run (step perform) (plan.map fun p => (i, p.2)) s = s := by
  induction plan with
  | nil => rfl
  | cons p plan ih =>
      rw [List.map_cons, run_cons, step_of_due_none h]
      exact ih

/-- A process by itself runs its steps in sequence. -/
theorem run_alone (plan : List (St × φ)) (h : s.stage i = .ok (plan.map Prod.fst)) :
    run (step perform) (plan.map fun p => (i, p.2)) s =
      { world := (inSequence (perform i) plan s.world).world
        stage := Function.update s.stage i
          (after [] (inSequence (perform i) plan s.world).outcome) } := by
  induction plan generalizing s with
  | nil =>
      show s = ⟨s.world, Function.update s.stage i (.ok [])⟩
      have hsame : Function.update s.stage i (.ok []) = s.stage := by
        rw [Function.update_eq_self_iff]
        exact h.symm
      rw [hsame]
  | cons p plan ih =>
      obtain ⟨c, x⟩ := p
      rw [List.map_cons, run_cons, step_of_stage h, inSequence, Prog.bind_run]
      rcases hrun : perform i c x s.world with ⟨o, w, l⟩
      dsimp only
      cases o with
      | ok u =>
          rw [ih (Function.update_self i _ _), Function.update_idem]
      | err e =>
          refine run_of_due_none ?_ plan
          dsimp only [System.due]
          rw [Function.update_self]
          rfl
      | panic p =>
          refine run_of_due_none ?_ plan
          dsimp only [System.due]
          rw [Function.update_self]
          rfl

end

end Interleaving
