/-
# `Rubix.Application.ResetIdentity` — overlapping resets of the identity

`execute` stops at each of its ports and at the write lock, and any number of
calls run at a time:

    generating → saving → writing → broadcasting → notifying → returned

A call saves the new identity and then writes it to memory, two steps with
others in between.  Of calls that overlap there, storage keeps the one that
saved last and memory the one that wrote last; they agree if these are the
same call, and otherwise, as no identity is generated twice, they do not
(`agree_iff`).
-/
import Rubix.Application.Ports
import Rubix.Lib.Runs

namespace Rubix.ResetIdentity

open Runs

/-- A call of `execute`, by what it waits for. -/
inductive Stage where
  | generating (newDisplayName : String)
  | saving (newIdentity : Identity)
  /-- for the write lock -/
  | writing (newIdentity : Identity)
  | broadcasting (newIdentity : Identity)
  | notifying (newIdentity : Identity)
  | returned (result : Except ApplicationError Identity)
  deriving DecidableEq

/-- The identity in memory, the successful saves from the last one back, each
with the call that made it, and the calls by number. -/
structure Resets where
  identity : Identity
  saves : List (Nat × Identity)
  calls : List Stage

/-- What happens, with the answers of the ports. -/
inductive Event where
  | execute (newDisplayName : String)
  | generated (call : Nat) (answer : Except SecurityError Identity)
  | saved (call : Nat) (answer : Except SecurityError Unit)
  /-- The call gets the lock. -/
  | written (call : Nat)
  | broadcast (call : Nat) (answer : Except NetworkError Unit)
  | notified (call : Nat) (answer : Except NotificationError Unit)
  deriving DecidableEq

namespace Resets

def start (initial : Identity) : Resets := ⟨initial, [], []⟩

def setCall (s : Resets) (i : Nat) (stage : Stage) : Resets :=
  { s with calls := s.calls.set i stage }

/-- The in-memory identity is updated. -/
def write (s : Resets) (i : Nat) (newIdentity : Identity) : Resets :=
  { identity := newIdentity
    saves := s.saves
    calls := s.calls.set i (.broadcasting newIdentity) }

/-- What the call does once it has what it waits for, up to the next wait. -/
def step (s : Resets) : Event → Resets
  | .execute newDisplayName => { s with calls := s.calls ++ [.generating newDisplayName] }
  | .generated i answer =>
      match s.calls[i]? with
      | some (.generating _) =>
          match answer with
          | .ok newIdentity => s.setCall i (.saving newIdentity)
          | .error _ => s.setCall i (.returned (.error .security))
      | _ => s
  | .saved i answer =>
      match s.calls[i]? with
      | some (.saving newIdentity) =>
          match answer with
          | .ok () =>
              { s.setCall i (.writing newIdentity) with saves := (i, newIdentity) :: s.saves }
          | .error _ => s.setCall i (.returned (.error .security))
      | _ => s
  | .written i =>
      match s.calls[i]? with
      | some (.writing newIdentity) => s.write i newIdentity
      | _ => s
  | .broadcast i answer =>
      match s.calls[i]? with
      | some (.broadcasting newIdentity) =>
          match answer with
          | .ok () => s.setCall i (.notifying newIdentity)
          | .error _ => s.setCall i (.returned (.error .network))
      | _ => s
  | .notified i _ =>
      match s.calls[i]? with
      | some (.notifying newIdentity) => s.setCall i (.returned (.ok newIdentity))
      | _ => s

/-- The call is between its save and its write. -/
def Writing (s : Resets) (i : Nat) (newIdentity : Identity) : Prop :=
  s.calls[i]? = some (.writing newIdentity)

/-- No call is. -/
def Settled (s : Resets) : Prop := ∀ i newIdentity, ¬ s.Writing i newIdentity

/-- The identity saved last, or the initial one. -/
def stored (initial : Identity) (s : Resets) : Identity :=
  (s.saves.head?.map Prod.snd).getD initial

/-- Storage and memory agree. -/
def Agree (initial : Identity) (s : Resets) : Prop := s.Settled → s.identity = s.stored initial

/-- A call that writes while no other is between its save and its write is
the one that saved last. -/
def LastToSave (s : Resets) (e : Event) : Prop :=
  ∀ i newIdentity, e = .written i → s.Writing i newIdentity →
    (∀ j newIdentity', s.Writing j newIdentity' → j = i) → s.saves.head?.map Prod.fst = some i

/-! ## What a step can do -/

/-- Memory, the saves and the calls between save and write, before and after a
step. -/
inductive Changes (s : Resets) (e : Event) (s' : Resets) : Prop where
  | none (hidentity : s'.identity = s.identity) (hsaves : s'.saves = s.saves)
      (hwriting : ∀ j new', s'.Writing j new' ↔ s.Writing j new')
  | saved (i : Nat) (newIdentity : Identity) (hidentity : s'.identity = s.identity)
      (hsaves : s'.saves = (i, newIdentity) :: s.saves)
      (hwriting : ∀ j new', s'.Writing j new' ↔
        (j = i ∧ new' = newIdentity) ∨ (j ≠ i ∧ s.Writing j new'))
  | written (i : Nat) (newIdentity : Identity) (he : e = .written i)
      (hbefore : s.Writing i newIdentity) (hidentity : s'.identity = newIdentity)
      (hsaves : s'.saves = s.saves) (hwriting : ∀ j new', s'.Writing j new' ↔
        j ≠ i ∧ s.Writing j new')

/-- A call that goes from one stage to another. -/
theorem writing_set {s : Resets} {i : Nat} {before after : Stage}
    (hbefore : s.calls[i]? = some before) (j : Nat) (new' : Identity) :
    (s.setCall i after).Writing j new' ↔
      (j = i ∧ after = .writing new') ∨ (j ≠ i ∧ s.Writing j new') := by
  have hlt : i < s.calls.length := (List.getElem?_eq_some_iff.mp hbefore).1
  rw [Writing, Writing, setCall]
  by_cases hj : j = i
  · subst hj
    simp [List.getElem?_set_self hlt]
  · simp [List.getElem?_set_ne (Ne.symm hj), hj]

/-- A call that goes from one stage to another, neither of them between its
save and its write. -/
theorem setCall_changes {s : Resets} {e : Event} {i : Nat} {before after : Stage}
    (hbefore : s.calls[i]? = some before) (hout : ∀ new, before ≠ .writing new)
    (hin : ∀ new, after ≠ .writing new) : Changes s e (s.setCall i after) := by
  refine .none rfl rfl ?_
  intro j new'
  rw [writing_set hbefore]
  constructor
  · rintro (⟨-, h⟩ | ⟨-, h⟩)
    · exact absurd h (hin new')
    · exact h
  · intro h
    refine .inr ⟨?_, h⟩
    rintro rfl
    exact hout new' (Option.some.inj (hbefore.symm.trans h))

theorem step_changes (s : Resets) (e : Event) : Changes s e (s.step e) := by
  have hsame : Changes s e s := .none rfl rfl fun _ _ => Iff.rfl
  cases e with
  | execute newDisplayName =>
      refine .none rfl rfl ?_
      intro j new'
      rw [step, Writing, Writing, List.getElem?_append]
      split
      · exact Iff.rfl
      · next hj =>
          rw [List.getElem?_eq_none (Nat.not_lt.mp hj)]
          cases j - s.calls.length <;> simp
  | generated i answer =>
      simp only [step]
      split
      · next hbefore =>
          cases answer with
          | ok newIdentity => exact setCall_changes hbefore (by simp) (by simp)
          | error err => exact setCall_changes hbefore (by simp) (by simp)
      · exact hsame
  | saved i answer =>
      rw [step]
      split
      · next newIdentity hbefore =>
          cases answer with
          | ok =>
              refine .saved i newIdentity rfl rfl ?_
              intro j new'
              refine (writing_set hbefore j new').trans ?_
              rw [Stage.writing.injEq, eq_comm (a := newIdentity)]
          | error err => exact setCall_changes hbefore (by simp) (by simp)
      · exact hsame
  | written i =>
      rw [step]
      split
      · next newIdentity hbefore =>
          refine .written i newIdentity rfl hbefore rfl rfl ?_
          intro j new'
          refine (writing_set hbefore j new').trans ?_
          simp
      · exact hsame
  | broadcast i answer =>
      rw [step]
      split
      · next hbefore =>
          cases answer with
          | ok => exact setCall_changes hbefore (by simp) (by simp)
          | error err => exact setCall_changes hbefore (by simp) (by simp)
      · exact hsame
  | notified i answer =>
      rw [step]
      split
      · next hbefore => exact setCall_changes hbefore (by simp) (by simp)
      · exact hsame

/-! ## The saves -/

/-- A call between its save and its write has saved the identity it will
write. -/
structure Recorded (s : Resets) : Prop where
  writing_saved : ∀ i new, s.Writing i new → (i, new) ∈ s.saves
  last_saved : ∀ i new old, s.saves.head? = some (i, old) → s.Writing i new → new = old

theorem recorded_start (initial : Identity) : Recorded (start initial) := by
  constructor
  · intro i new h
    simp [start, Writing] at h
  · intro i new old h
    simp [start] at h

theorem Recorded.step {s : Resets} (h : Recorded s) (e : Event) : Recorded (s.step e) := by
  obtain ⟨hsaved, hlast⟩ := h
  cases step_changes s e with
  | none hidentity hsaves hwriting =>
      constructor
      · intro j new' hj
        rw [hsaves]
        exact hsaved j new' ((hwriting j new').mp hj)
      · intro j new' old hhead hj
        rw [hsaves] at hhead
        exact hlast j new' old hhead ((hwriting j new').mp hj)
  | saved i newIdentity hidentity hsaves hwriting =>
      constructor
      · intro j new' hj
        rw [hsaves]
        rcases (hwriting j new').mp hj with ⟨rfl, rfl⟩ | ⟨-, hj⟩
        · exact List.mem_cons_self
        · exact List.mem_cons_of_mem _ (hsaved j new' hj)
      · intro j new' old hhead hj
        rw [hsaves] at hhead
        obtain ⟨rfl, rfl⟩ := Prod.mk.inj (Option.some.inj hhead)
        rcases (hwriting i new').mp hj with ⟨-, rfl⟩ | ⟨hne, -⟩
        · rfl
        · exact absurd rfl hne
  | written i newIdentity he hbefore hidentity hsaves hwriting =>
      constructor
      · intro j new' hj
        rw [hsaves]
        exact hsaved j new' ((hwriting j new').mp hj).2
      · intro j new' old hhead hj
        rw [hsaves] at hhead
        exact hlast j new' old hhead ((hwriting j new').mp hj).2

theorem head_stored (initial : Identity) {s : Resets} {i : Nat}
    (h : s.saves.head?.map Prod.fst = some i) :
    s.saves.head? = some (i, s.stored initial) := by
  rw [stored]
  cases hhead : s.saves.head? with
  | none =>
      rw [hhead] at h
      exact absurd h (by simp)
  | some save =>
      rw [hhead] at h
      obtain rfl : save.1 = i := Option.some.inj h
      rfl

/-- The step keeps storage and memory in agreement if the last write is by the
call that saved last. -/
theorem Agree.step {initial : Identity} {s : Resets} (hs : Recorded s) (hagree : s.Agree initial)
    {e : Event} (hlast : s.LastToSave e) : (s.step e).Agree initial := by
  intro hsettled
  cases step_changes s e with
  | none hidentity hsaves hwriting =>
      rw [hidentity, stored, hsaves]
      refine hagree ?_
      intro j new' hj
      exact hsettled j new' ((hwriting j new').mpr hj)
  | saved i newIdentity hidentity hsaves hwriting =>
      exact absurd ((hwriting i newIdentity).mpr (.inl ⟨rfl, rfl⟩)) (hsettled i newIdentity)
  | written i newIdentity he hbefore hidentity hsaves hwriting =>
      have halone : ∀ j new', s.Writing j new' → j = i := by
        intro j new' hj
        by_contra hne
        exact hsettled j new' ((hwriting j new').mpr ⟨hne, hj⟩)
      have hhead := head_stored initial (hlast i newIdentity he hbefore halone)
      rw [hidentity, stored, hsaves]
      exact hs.last_saved i newIdentity _ hhead hbefore

/-- A write that leaves storage and memory in agreement, with every identity
saved once, is by the call that saved last. -/
theorem LastToSave.of_agree {initial : Identity} {s : Resets} (hs : Recorded s) {e : Event}
    (hagree : (s.step e).Agree initial) (honce : (s.saves.map Prod.snd).Nodup) :
    s.LastToSave e := by
  rintro i newIdentity rfl hbefore halone
  have hstep : s.step (.written i) = s.write i newIdentity := by
    rw [Resets.step, hbefore]
  have hsettled : (s.step (.written i)).Settled := by
    intro j new' hj
    rw [hstep] at hj
    rcases (writing_set hbefore j new').mp hj with ⟨-, h⟩ | ⟨hne, hj⟩
    · exact absurd h (by simp)
    · exact hne (halone j new' hj)
  have heq := hagree hsettled
  rw [hstep] at heq
  have hmem := hs.writing_saved i newIdentity hbefore
  cases hsaves : s.saves with
  | nil =>
      rw [hsaves] at hmem
      exact absurd hmem List.not_mem_nil
  | cons save rest =>
      have hlatest : newIdentity = save.2 := by
        rw [stored, write, hsaves] at heq
        exact heq
      rw [hsaves] at hmem honce
      have hsame : (i, newIdentity) = save :=
        List.inj_on_of_nodup_map honce hmem List.mem_cons_self hlatest
      exact congrArg some (congrArg Prod.fst hsame.symm)

theorem saves_suffix (s : Resets) (e : Event) : s.saves <:+ (s.step e).saves := by
  cases step_changes s e with
  | none hidentity hsaves hwriting => exact hsaves ▸ List.suffix_rfl
  | saved i newIdentity hidentity hsaves hwriting =>
      rw [hsaves]
      exact List.suffix_cons _ _
  | written i newIdentity he hbefore hidentity hsaves hwriting =>
      exact hsaves ▸ List.suffix_rfl

theorem saves_suffix_run (events : List Event) (s : Resets) :
    s.saves <:+ (run step events s).saves := by
  induction events generalizing s with
  | nil => exact List.suffix_rfl
  | cons e events ih => exact (saves_suffix s e).trans (ih (s.step e))

/-- Storage and memory agree in a run where each last write is by the call that
saved last, and, if no identity is saved twice, in no other. -/
theorem agree_iff (initial : Identity) (events : List Event) :
    (Guarded step LastToSave events (start initial) →
      Always step (Agree initial) events (start initial)) ∧
    (((run step events (start initial)).saves.map Prod.snd).Nodup →
      Always step (Agree initial) events (start initial) →
      Guarded step LastToSave events (start initial)) := by
  have hrecorded : Always step Recorded events (start initial) :=
    always_of_invariant (recorded_start initial) (fun _ e h => h.step e) events
  constructor
  · intro hguard
    have hboth := always_of_step (P := fun s => Recorded s ∧ s.Agree initial)
      ⟨recorded_start initial, fun _ => rfl⟩
      (fun _ e h hlast => ⟨h.1.step e, h.2.step h.1 hlast⟩) hguard
    exact hboth.imp fun _ h => h.2
  · intro honce h before e hbefore
    have hfront : before <+: events := (List.prefix_append _ _).trans hbefore
    have hnext := h (before ++ [e]) hbefore
    rw [run_concat] at hnext
    refine .of_agree (hrecorded before hfront) hnext ?_
    obtain ⟨after, rfl⟩ := hfront
    rw [run_append] at honce
    exact honce.sublist ((saves_suffix_run after _).sublist.map _)

end Resets

/-- Two identities generated for two calls. -/
def identityOf (n : UInt8) : Identity where
  id := ⟨Vector.replicate 16 n⟩
  displayName := "Alice"
  ed25519Public := Vector.replicate 32 n
  x25519Public := Vector.replicate 32 n
  fingerprint := ⟨Vector.replicate 20 n⟩
  createdAt := 0
  updatedAt := 0

/-- Two calls save one after the other and write the other way round. -/
theorem reset_overtaken :
    ¬ Always Resets.step (Resets.Agree (identityOf 0))
      [.execute "Alice", .execute "Alice", .generated 0 (.ok (identityOf 1)),
        .generated 1 (.ok (identityOf 2)), .saved 0 (.ok ()), .saved 1 (.ok ()), .written 1,
        .written 0]
      (Resets.start (identityOf 0)) := by
  intro h
  have hsettled : Resets.Settled (run Resets.step
      [.execute "Alice", .execute "Alice", .generated 0 (.ok (identityOf 1)),
        .generated 1 (.ok (identityOf 2)), .saved 0 (.ok ()), .saved 1 (.ok ()), .written 1,
        .written 0]
      (Resets.start (identityOf 0))) := by
    intro i newIdentity hwriting
    have hmem := List.mem_of_getElem? hwriting
    simp [run, Resets.step, Resets.start, Resets.setCall, Resets.write] at hmem
  exact absurd (h.last hsettled) (by decide)

end Rubix.ResetIdentity
