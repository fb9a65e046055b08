/-
# `Rubix.Persistence.Sqlite` — calls to the database

A repository method makes a fixed sequence of calls to the pool, the
connection and its statements.  Each of them can fail for reasons of the
database's own (`Faults`), and every such failure is mapped to
`DomainError::Internal`; what a statement does to the tables, and the
constraints it can violate, is the repositories' to say.

The state of a program is the tables `T`; a transaction that is not committed
leaves them as they were.
-/
import Rubix.Domain.Basic
import Rubix.Lib.Effect

namespace Rubix.Persistence

open Effect (Prog)

variable {T α : Type}

/-- Which of a method's calls to the database fail, counted from 0. -/
abbrev Faults := Nat → Bool

def Faults.none : Faults := fun _ => false

/-- Methods of a repository, over its tables. -/
abbrev Sql (T α : Type) : Type := Prog T Empty DomainError Empty α

/-- The `k`-th call, with its error mapped. -/
def attempt (faults : Faults) (k : Nat) : Sql T Unit :=
  if faults k then Prog.fail .internal else pure ()

/-- A statement that reports back without an error of its own. -/
def statement {ρ : Type} (f : T → ρ × T) : Sql T ρ := Prog.silent f

/-- `conn.transaction()`: dropped without a commit, it rolls back. -/
def transaction (body : Sql T Unit) : Sql T Unit := fun s =>
  match body s with
  | ⟨.ok (), s', l⟩ => ⟨.ok (), s', l⟩
  | ⟨.err e, _, l⟩ => ⟨.err e, s, l⟩

/-- The method has failed, and nothing has happened. -/
structure Refused (s : T) (r : Effect.Run T Empty DomainError Empty α) : Prop where
  err : ∃ e, r.outcome = .err e
  world : r.world = s

theorem refused (e : DomainError) (s : T) :
    Refused s (⟨.err e, s, []⟩ : Effect.Run T Empty DomainError Empty α) :=
  ⟨⟨e, rfl⟩, rfl⟩

theorem attempt_bind (faults : Faults) (k : Nat) (f : Unit → Sql T α) (s : T) :
    (attempt faults k >>= f) s = if faults k then ⟨.err .internal, s, []⟩ else f () s := by
  rw [attempt]
  cases faults k with
  | true => rfl
  | false => rfl

/-- After a call that did not fail comes the rest of the method. -/
theorem attempt_bind_ok {faults : Faults} {k : Nat} {f : Unit → Sql T α} {s : T} {a : α}
    (h : ((attempt faults k >>= f) s).outcome = .ok a) : (attempt faults k >>= f) s = f () s := by
  rw [attempt_bind] at h ⊢
  split at h
  · exact nomatch h
  · next hfault => exact if_neg hfault

theorem attempt_bind_cases (faults : Faults) (k : Nat) (f : Unit → Sql T α) (s : T) :
    Refused s ((attempt faults k >>= f) s) ∨ (attempt faults k >>= f) s = f () s := by
  rw [attempt_bind]
  split
  · exact .inl (refused .internal s)
  · exact .inr rfl

/-- The two calls a method begins with: it is refused at one of them, or goes on. -/
theorem attempts_bind_cases (faults : Faults) (f : Sql T α) (s : T) :
    Refused s ((attempt faults 0 >>= fun _ => attempt faults 1 >>= fun _ => f) s) ∨
      (attempt faults 0 >>= fun _ => attempt faults 1 >>= fun _ => f) s = f s := by
  rcases attempt_bind_cases faults 0 (fun _ => attempt faults 1 >>= fun _ => f) s with hfault | hnext
  · exact .inl hfault
  · rw [hnext]
    exact attempt_bind_cases faults 1 (fun _ => f) s

theorem attempt_none_bind (k : Nat) (f : Unit → Sql T α) (s : T) :
    (attempt .none k >>= f) s = f () s := rfl

theorem attempt_world (faults : Faults) (k : Nat) (s : T) : (attempt faults k s).world = s := by
  rw [attempt]
  split
  · rfl
  · rfl

theorem attempt_keeps {I : T → Prop} (faults : Faults) (k : Nat) :
    Prog.Keeps I (attempt faults k : Sql T Unit) := by
  intro s hs
  rw [attempt_world]
  exact hs

theorem statement_bind {ρ : Type} (g : T → ρ × T) (f : ρ → Sql T α) (s : T) :
    (statement g >>= f) s = f (g s).1 (g s).2 := rfl

/-- A query that was answered: three calls, and a statement that did not fail. -/
theorem query_bind_ok {ρ : Type} {faults : Faults} {g : T → ρ × T} {f : ρ → Sql T α} {s : T}
    {a : α} (h : ((attempt faults 0 >>= fun _ => attempt faults 1 >>= fun _ => attempt faults 2 >>=
      fun _ => statement g >>= f) s).outcome = .ok a) : (f (g s).1 (g s).2).outcome = .ok a := by
  rw [attempt_bind_ok h] at h
  rw [attempt_bind_ok h] at h
  rw [attempt_bind_ok h, statement_bind] at h
  exact h

/-- A transaction that fails leaves the tables as they were. -/
theorem transaction_cases (body : Sql T Unit) (s : T) :
    Refused s (transaction body s) ∨
      (transaction body s).outcome = .ok () ∧ (body s).outcome = .ok () ∧
        (transaction body s).world = (body s).world := by
  rw [transaction]
  rcases body s with ⟨o, s', l⟩
  cases o with
  | ok u => exact .inr ⟨rfl, rfl, rfl⟩
  | err e => exact .inl ⟨⟨e, rfl⟩, rfl⟩
  | panic p => cases p

theorem transaction_ok {body : Sql T Unit} {s : T} (h : (transaction body s).outcome = .ok ()) :
    (body s).outcome = .ok () ∧ (transaction body s).world = (body s).world := by
  rcases transaction_cases body s with ⟨⟨e, he⟩, -⟩ | ⟨-, hbody, hworld⟩
  · rw [he] at h
    exact nomatch h
  · exact ⟨hbody, hworld⟩

theorem transaction_keeps {I : T → Prop} {body : Sql T Unit} (h : Prog.Keeps I body) :
    Prog.Keeps I (transaction body) := by
  intro s hs
  rcases transaction_cases body s with hrefused | ⟨-, -, hworld⟩
  · rw [hrefused.world]
    exact hs
  · rw [hworld]
    exact h s hs

/-! A method followed by an answer ends as the method does. -/

section
variable {x : Sql T Unit} {s : T} (a : α)

theorem reply_world : ((x >>= fun _ => pure a) s).world = (x s).world := by
  rw [Prog.bind_run]
  rcases x s with ⟨o, s', l⟩
  cases o <;> rfl

theorem reply_ok (h : (x s).outcome = .ok ()) : ((x >>= fun _ => pure a) s).outcome = .ok a := by
  rw [Prog.bind_of_ok h]
  rfl

theorem reply_err {e : DomainError} (h : (x s).outcome = .err e) :
    ((x >>= fun _ => pure a) s).outcome = .err e := by
  rw [Prog.bind_run]
  rcases hr : x s with ⟨o, s', l⟩
  rw [hr] at h
  cases h
  rfl

end

end Rubix.Persistence
