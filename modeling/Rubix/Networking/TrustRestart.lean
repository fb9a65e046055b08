/-
# `Rubix.Networking.TrustRestart` — trust decisions across restarts

A new manager starts with no trusted peer, and a task of its own asks the
trust store for its list and inserts it some time later:

    starting → listed → finished

`trust_peer` inserts into the manager's own set and does not tell the store.
So a decision survives a restart exactly if someone else told the store before
the new manager asked for the list, or if it is made once more
(`survives_iff`).
-/
import Mathlib.Data.Finset.Lattice.Basic
import Rubix.Networking.ConnectionManager

namespace Rubix.Networking

open Runs

variable {S C : Type}

/-- A trust store that behaves as a set. -/
structure SetStore (S : Type) where
  listTrusted : S → List Fingerprint
  addTrusted : S → Fingerprint → S
  mem_addTrusted : ∀ {s fp fp'},
    fp' ∈ listTrusted (addTrusted s fp) ↔ fp' = fp ∨ fp' ∈ listTrusted s

/-- The task that loads the trusted peers into memory. -/
inductive Loader where
  | starting
  | listed (list : List Fingerprint)
  | finished
  deriving DecidableEq

/-- A store and the manager built over it last.  The other three fields record
what happened: the peers that earlier managers trusted, and those that
`trust_peer` was called for, on an earlier manager or on this one. -/
structure Process (S C : Type) where
  store : S
  manager : ConnectionManager C
  loader : Loader
  trustedEarlier : Finset Fingerprint
  toldEarlier : Finset Fingerprint
  told : Finset Fingerprint

inductive ProcessEvent where
  | trustPeer (fp : Fingerprint)
  /-- `list_trusted` answers the loading task. -/
  | list
  /-- The loading task has the lock and inserts the list. -/
  | insert
  /-- Someone else tells the store. -/
  | addTrusted (fp : Fingerprint)
  | restart
  deriving DecidableEq

namespace Process

variable (T : SetStore S)

/-- A manager built over a store, in a process without a past. -/
def start (store : S) : Process S C := ⟨store, .new, .starting, ∅, ∅, ∅⟩

def step (p : Process S C) : ProcessEvent → Process S C
  | .trustPeer fp => { p with manager := p.manager.trustPeer fp, told := insert fp p.told }
  | .list =>
      match p.loader with
      | .starting => { p with loader := .listed (T.listTrusted p.store) }
      | _ => p
  | .insert =>
      match p.loader with
      | .listed list => { p with
          manager := list.foldl ConnectionManager.trustPeer p.manager
          loader := .finished }
      | _ => p
  | .addTrusted fp => { p with store := T.addTrusted p.store fp }
  | .restart =>
      { store := p.store
        manager := .new
        loader := .starting
        trustedEarlier := p.trustedEarlier ∪ p.manager.trusted
        toldEarlier := p.toldEarlier ∪ p.told
        told := ∅ }

/-- Once the load has finished, the manager trusts all that an earlier one
trusted, and nobody that neither the store nor a manager was told to trust. -/
def Survives (p : Process S C) : Prop :=
  p.loader = .finished →
    (∀ fp ∈ p.trustedEarlier, p.manager.isTrusted fp = true) ∧
      ∀ fp, p.manager.isTrusted fp = true →
        fp ∈ T.listTrusted p.store ∨ fp ∈ p.toldEarlier ∨ fp ∈ p.told

/-- When the list goes in, it has all that an earlier manager was told, except
for what this one was told itself. -/
def ListsTold (p : Process S C) (e : ProcessEvent) : Prop :=
  ∀ list, e = .insert → p.loader = .listed list →
    ∀ fp ∈ p.toldEarlier, fp ∈ list ∨ fp ∈ p.told

theorem mem_foldl_trustPeer (list : List Fingerprint) (m : ConnectionManager C) (fp : Fingerprint) :
    fp ∈ (list.foldl ConnectionManager.trustPeer m).trusted ↔ fp ∈ list ∨ fp ∈ m.trusted := by
  induction list generalizing m with
  | nil => simp
  | cons fp' list ih =>
      rw [List.foldl_cons, ih, List.mem_cons]
      simp only [ConnectionManager.trustPeer, Finset.mem_insert]
      tauto

/-- What the fields have to do with one another, whatever happens. -/
structure Recorded (p : Process S C) : Prop where
  told_trusted : p.told ⊆ p.manager.trusted
  toldEarlier_trusted : p.toldEarlier ⊆ p.trustedEarlier
  trusted_told : ∀ fp ∈ p.manager.trusted, fp ∈ p.told ∨
    (p.loader = .finished ∧ fp ∈ T.listTrusted p.store)
  earlier_told : ∀ fp ∈ p.trustedEarlier, fp ∈ p.toldEarlier ∨ fp ∈ T.listTrusted p.store
  list_stored : ∀ list, p.loader = .listed list →
    (∀ fp ∈ list, fp ∈ T.listTrusted p.store) ∧
      ∀ fp ∈ p.trustedEarlier, fp ∈ p.toldEarlier ∨ fp ∈ list

variable {T}

theorem recorded_start (store : S) : Recorded T (start store : Process S C) := by
  constructor
  · exact Finset.empty_subset _
  · exact Finset.empty_subset _
  · intro fp h
    exact absurd h (Finset.notMem_empty fp)
  · intro fp h
    exact absurd h (Finset.notMem_empty fp)
  · intro list h
    cases h

theorem Recorded.step {p : Process S C} (h : Recorded T p) (e : ProcessEvent) :
    Recorded T (p.step T e) := by
  obtain ⟨htold, hearlier, htrusted, hpast, hlist⟩ := h
  cases e with
  | trustPeer fp =>
      refine ⟨Finset.insert_subset_insert fp htold, hearlier, ?_, hpast, hlist⟩
      intro fp' hfp'
      rcases Finset.mem_insert.mp hfp' with rfl | hfp'
      · exact .inl (Finset.mem_insert_self _ _)
      · exact (htrusted fp' hfp').imp_left (Finset.mem_insert_of_mem ·)
  | list =>
      rw [Process.step]
      split
      · next hstarting =>
          refine ⟨htold, hearlier, ?_, hpast, ?_⟩
          · intro fp hfp
            exact (htrusted fp hfp).imp_right fun h => absurd (hstarting.symm.trans h.1) (by simp)
          · intro list heq
            cases heq
            exact ⟨fun _ h => h, hpast⟩
      · exact ⟨htold, hearlier, htrusted, hpast, hlist⟩
  | insert =>
      rw [Process.step]
      split
      · next list hlisted =>
          obtain ⟨hstored, -⟩ := hlist list hlisted
          refine ⟨?_, hearlier, ?_, hpast, fun _ h => by cases h⟩
          · intro fp hfp
            exact (mem_foldl_trustPeer _ _ _).mpr (.inr (htold hfp))
          · intro fp hfp
            rcases (mem_foldl_trustPeer _ _ _).mp hfp with hfp | hfp
            · exact .inr ⟨rfl, hstored fp hfp⟩
            · exact (htrusted fp hfp).imp_right fun h => ⟨rfl, h.2⟩
      · exact ⟨htold, hearlier, htrusted, hpast, hlist⟩
  | addTrusted fp =>
      have hgrows : ∀ fp' ∈ T.listTrusted p.store, fp' ∈ T.listTrusted (T.addTrusted p.store fp) :=
        fun fp' hfp' => T.mem_addTrusted.mpr (.inr hfp')
      refine ⟨htold, hearlier, ?_, ?_, ?_⟩
      · intro fp' hfp'
        exact (htrusted fp' hfp').imp_right fun h => ⟨h.1, hgrows fp' h.2⟩
      · intro fp' hfp'
        exact (hpast fp' hfp').imp_right (hgrows fp')
      · intro list hlisted
        obtain ⟨hstored, hknown⟩ := hlist list hlisted
        exact ⟨fun fp' hfp' => hgrows fp' (hstored fp' hfp'), hknown⟩
  | restart =>
      refine ⟨Finset.empty_subset _, Finset.union_subset_union hearlier htold, ?_, ?_, ?_⟩
      · intro fp h
        exact absurd h (Finset.notMem_empty fp)
      · intro fp hfp
        rcases Finset.mem_union.mp hfp with hfp | hfp
        · exact (hpast fp hfp).imp_left (Finset.mem_union_left _ ·)
        · rcases htrusted fp hfp with hfp | ⟨-, hfp⟩
          · exact .inl (Finset.mem_union_right _ hfp)
          · exact .inr hfp
      · intro list h
        cases h

/-- The load lost no decision. -/
def Kept (p : Process S C) : Prop := p.loader = .finished → p.trustedEarlier ⊆ p.manager.trusted

theorem Kept.step {p : Process S C} (h : Recorded T p) (hkept : p.Kept) {e : ProcessEvent}
    (hlists : p.ListsTold e) : (p.step T e).Kept := by
  cases e with
  | trustPeer fp =>
      intro hfinished
      exact (hkept hfinished).trans (Finset.subset_insert fp _)
  | list =>
      rw [Process.step]
      split
      · intro hfinished
        cases hfinished
      · exact hkept
  | insert =>
      rw [Process.step]
      split
      · next list hlisted =>
          intro _ fp hfp
          refine (mem_foldl_trustPeer _ _ _).mpr ?_
          rcases (h.list_stored list hlisted).2 fp hfp with htold | hlist
          · exact (hlists list rfl hlisted fp htold).imp_right (h.told_trusted ·)
          · exact .inl hlist
      · exact hkept
  | addTrusted fp => exact hkept
  | restart => exact fun hfinished => by cases hfinished

theorem Recorded.survives {p : Process S C} (h : Recorded T p) (hkept : p.Kept) :
    p.Survives T := by
  intro hfinished
  constructor
  · intro fp hfp
    exact decide_eq_true (hkept hfinished hfp)
  · intro fp hfp
    rcases h.trusted_told fp (of_decide_eq_true hfp) with htold | ⟨-, hstored⟩
    · exact .inr (.inr htold)
    · exact .inl hstored

/-- A load after which nothing is lost had all that it needed. -/
theorem ListsTold.of_survives {p : Process S C} (h : Recorded T p) {e : ProcessEvent}
    (hsurvives : (p.step T e).Survives T) : p.ListsTold e := by
  rintro list rfl hlisted fp hfp
  have hstep : p.step T .insert = { p with
      manager := list.foldl ConnectionManager.trustPeer p.manager
      loader := .finished } := by
    rw [Process.step, hlisted]
  rw [hstep] at hsurvives
  have htrusted := (hsurvives rfl).1 fp (h.toldEarlier_trusted hfp)
  rcases (mem_foldl_trustPeer _ _ _).mp (of_decide_eq_true htrusted) with hlist | hmem
  · exact .inl hlist
  · -- before the load the manager trusts only what it was told itself
    refine .inr ((h.trusted_told fp hmem).resolve_right fun hother => ?_)
    exact absurd (hlisted.symm.trans hother.1) (by simp)

/-- Trust decisions survive a run of decisions and restarts exactly if every
list that goes in has what the earlier managers were told. -/
theorem survives_iff (T : SetStore S) (store : S) (events : List ProcessEvent) :
    Always (step T) (Survives T) events (start store : Process S C) ↔
      Guarded (step T) ListsTold events (start store : Process S C) := by
  have hrecorded : Always (step T) (Recorded T) events (start store : Process S C) :=
    always_of_invariant (recorded_start store) (fun _ e h => h.step e) events
  constructor
  · intro h before e hbefore
    have hnext := h (before ++ [e]) hbefore
    rw [run_concat] at hnext
    exact .of_survives (hrecorded before ((List.prefix_append _ _).trans hbefore)) hnext
  · intro hguard
    have hboth := always_of_step (P := fun p => Recorded T p ∧ p.Kept)
      ⟨recorded_start store, fun hfinished => by cases hfinished⟩
      (fun _ e h hlists => ⟨h.1.step e, Kept.step h.1 h.2 hlists⟩) hguard
    exact hboth.imp fun _ h => h.1.survives h.2

/-- A store held in memory. -/
def listStore : SetStore (List Fingerprint) := ⟨id, fun l fp => fp :: l, List.mem_cons⟩

/-- A peer is trusted and the application restarted. -/
theorem trust_lost :
    ¬ Always (step listStore) (Survives listStore)
      [.list, .insert, .trustPeer ⟨Vector.replicate 20 0xBB⟩, .restart, .list, .insert]
      (start [] : Process (List Fingerprint) Unit) := by
  intro h
  have hlost := (h.last rfl).1 ⟨Vector.replicate 20 0xBB⟩ (by decide)
  exact absurd hlost (by decide)

end Process
end Rubix.Networking
