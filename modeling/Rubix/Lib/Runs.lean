/-
# `Rubix.Lib.Runs` — runs of a step function, and what guards them

A system is a total step function: it takes a state and an event to a state,
and an event that is not due leaves the state as it is.  A run is a list of
events.  `Always P` says that `P` holds in every state the run goes through,
`Guarded C` that every event meets the condition `C` where it happens:

    always_of_step      a step keeps `P` where `C` holds         C ⟹ P
    guarded_of_always   and loses it where `C` does not hold     P ⟹ C

`Since A K` says that some event met `A` and all those behind it met `K`; what
`A` brings about and `K` keeps holds then (`Since.holds`), and a predicate on
states that follows this event by event is one of the run (`iff_since`).

Events may carry the reading of a clock that does not go back.  An invariant
that is about the time as well (`Clocked P`) then holds where each event
happens, at that event's own reading.  Two runs of the same events are one
run of pairs (`both`), and a relation between them is an invariant of it.
-/
import Mathlib.Data.List.Induction
import Mathlib.Order.Basic

namespace Runs

variable {σ ε : Type}

/-- The state behind a run. -/
def run (step : σ → ε → σ) (events : List ε) (s : σ) : σ := events.foldl step s

/-- `P` holds in every state the run goes through, the first and the last
among them. -/
def Always (step : σ → ε → σ) (P : σ → Prop) (events : List ε) (s : σ) : Prop :=
  ∀ before, before <+: events → P (run step before s)

/-- Every event of the run meets `C` in the state it finds. -/
def Guarded (step : σ → ε → σ) (C : σ → ε → Prop) (events : List ε) (s : σ) : Prop :=
  ∀ before e, before ++ [e] <+: events → C (run step before s) e

section
variable {step : σ → ε → σ} {P Q : σ → Prop} {C : σ → ε → Prop} {events : List ε} {s : σ}

@[simp] theorem run_nil : run step [] s = s := rfl

theorem run_cons (e : ε) : run step (e :: events) s = run step events (step s e) := rfl

theorem run_append (before after : List ε) :
    run step (before ++ after) s = run step after (run step before s) :=
  List.foldl_append

theorem run_concat (before : List ε) (e : ε) :
    run step (before ++ [e]) s = step (run step before s) e :=
  run_append before [e]

/-! ## Guards -/

theorem guarded_nil : Guarded step C [] s :=
  fun _ _ h => absurd (List.prefix_nil.mp h) (List.append_ne_nil_of_right_ne_nil _ (by simp))

theorem guarded_cons {e : ε} :
    Guarded step C (e :: events) s ↔ C s e ∧ Guarded step C events (step s e) := by
  constructor
  · intro h
    constructor
    · exact h [] e ⟨events, rfl⟩
    · intro before e' hbefore
      exact h (e :: before) e' ((List.prefix_cons_inj e).mpr hbefore)
  · rintro ⟨he, hevents⟩ before e' hbefore
    cases before with
    | nil =>
        obtain ⟨after, hafter⟩ := hbefore
        have hhead : e' = e := (List.cons.inj hafter).1
        exact hhead ▸ he
    | cons e'' before =>
        obtain ⟨rfl, hrest⟩ := List.cons_prefix_cons.mp hbefore
        exact hevents before e' hrest

instance decidableGuarded [∀ s e, Decidable (C s e)] :
    (events : List ε) → (s : σ) → Decidable (Guarded step C events s)
  | [], _ => .isTrue guarded_nil
  | e :: events, s =>
      have : Decidable (Guarded step C events (step s e)) := decidableGuarded events (step s e)
      decidable_of_iff (C s e ∧ Guarded step C events (step s e)) guarded_cons.symm

theorem Guarded.front {before : List ε} (h : Guarded step C events s) (hfront : before <+: events) :
    Guarded step C before s :=
  fun front e hahead => h front e (hahead.trans hfront)

theorem Guarded.behind {before after : List ε} (h : Guarded step C (before ++ after) s) :
    Guarded step C after (run step before s) := by
  intro middle e hmiddle
  rw [← run_append]
  refine h (before ++ middle) e ?_
  rw [List.append_assoc]
  exact (List.prefix_append_right_inj before).mpr hmiddle

theorem Guarded.append {before after : List ε} (hbefore : Guarded step C before s)
    (hafter : Guarded step C after (run step before s)) : Guarded step C (before ++ after) s := by
  induction before generalizing s with
  | nil => exact hafter
  | cons e before ih =>
      obtain ⟨he, hrest⟩ := guarded_cons.mp hbefore
      exact guarded_cons.mpr ⟨he, ih hrest hafter⟩

theorem guarded_concat {e : ε} :
    Guarded step C (events ++ [e]) s ↔ Guarded step C events s ∧ C (run step events s) e := by
  constructor
  · intro h
    exact ⟨h.front (List.prefix_append _ _), h events e List.prefix_rfl⟩
  · rintro ⟨hevents, he⟩ before e' hbefore
    rcases List.prefix_concat_iff.mp hbefore with heq | hfront
    · obtain ⟨rfl, hlast⟩ := List.append_inj' heq rfl
      cases hlast
      exact he
    · exact hevents before e' hfront

/-! ## Since -/

/-- Some event of the run met `A`, and all those after it met `K`. -/
def Since (step : σ → ε → σ) (A K : σ → ε → Prop) (events : List ε) (s : σ) : Prop :=
  ∃ before e after, events = before ++ e :: after ∧ A (run step before s) e ∧
    Guarded step K after (step (run step before s) e)

theorem not_since_nil {A K : σ → ε → Prop} : ¬ Since step A K [] s := by
  rintro ⟨before, e, after, h, -⟩
  exact absurd h.symm (List.append_ne_nil_of_right_ne_nil _ (List.cons_ne_nil _ _))

theorem since_concat {A K : σ → ε → Prop} {e : ε} :
    Since step A K (events ++ [e]) s ↔
      A (run step events s) e ∨ (Since step A K events s ∧ K (run step events s) e) := by
  constructor
  · rintro ⟨before, e', after, h, hmet, hkept⟩
    rcases List.eq_nil_or_concat after with rfl | ⟨after, last, rfl⟩
    · obtain ⟨rfl, hlast⟩ := List.append_inj' h rfl
      cases hlast
      exact .inl hmet
    · rw [List.concat_eq_append, ← List.cons_append, ← List.append_assoc] at h
      obtain ⟨rfl, hlast⟩ := List.append_inj' h rfl
      cases hlast
      rw [List.concat_eq_append] at hkept
      obtain ⟨hafter, hlast⟩ := guarded_concat.mp hkept
      rw [← run_cons, ← run_append] at hlast
      exact .inr ⟨⟨before, e', after, rfl, hmet, hafter⟩, hlast⟩
  · rintro (hmet | ⟨⟨before, e', after, rfl, hmet, hkept⟩, hlast⟩)
    · exact ⟨events, e, [], rfl, hmet, guarded_nil⟩
    · refine ⟨before, e', after ++ [e], ?_, hmet, guarded_concat.mpr ⟨hkept, ?_⟩⟩
      · rw [List.append_assoc, List.cons_append]
      · rw [← run_cons, ← run_append]
        exact hlast

theorem Since.imp {A K A' K' : σ → ε → Prop} (h : Since step A K events s)
    (hA : ∀ s e, A s e → A' s e) (hK : ∀ s e, K s e → K' s e) : Since step A' K' events s := by
  obtain ⟨before, e, after, heq, hmet, hkept⟩ := h
  exact ⟨before, e, after, heq, hA _ _ hmet, fun middle e' h => hK _ _ (hkept middle e' h)⟩

/-- What an event brings about holds while the events after it keep it. -/
theorem Since.holds {A K : σ → ε → Prop} (h : Since step A K events s)
    (hmet : ∀ s e, A s e → P (step s e)) (hkept : ∀ s e, P s → K s e → P (step s e)) :
    P (run step events s) := by
  induction events using List.reverseRecOn with
  | nil => exact absurd h not_since_nil
  | append_singleton events e ih =>
      rw [run_concat]
      rcases since_concat.mp h with hnow | ⟨hbefore, hkeep⟩
      · exact hmet _ e hnow
      · exact hkept _ e (ih hbefore) hkeep

/-- A predicate on states that goes from one to the next as `Since` does, where
the events meet `C`. -/
theorem iff_since_of_guarded {A K : σ → ε → Prop} (hs : Q s) (hkeep : ∀ s e, Q s → Q (step s e))
    (hnew : ¬ P s) (hstep : ∀ s e, Q s → C s e → (P (step s e) ↔ A s e ∨ (P s ∧ K s e)))
    (hguard : Guarded step C events s) : P (run step events s) ↔ Since step A K events s := by
  have hboth : Q (run step events s) ∧ (P (run step events s) ↔ Since step A K events s) := by
    induction events using List.reverseRecOn with
    | nil =>
        rw [run_nil]
        exact ⟨hs, iff_of_false hnew not_since_nil⟩
    | append_singleton events e ih =>
        obtain ⟨hevents, he⟩ := guarded_concat.mp hguard
        obtain ⟨hq, hiff⟩ := ih hevents
        rw [run_concat, since_concat, hstep _ e hq he, hiff]
        exact ⟨hkeep _ e hq, Iff.rfl⟩
  exact hboth.2

theorem iff_since {A K : σ → ε → Prop} (hs : Q s) (hkeep : ∀ s e, Q s → Q (step s e)) (hnew : ¬ P s)
    (hstep : ∀ s e, Q s → (P (step s e) ↔ A s e ∨ (P s ∧ K s e))) (events : List ε) :
    P (run step events s) ↔ Since step A K events s :=
  iff_since_of_guarded (C := fun _ _ => True) hs hkeep hnew (fun s e hq _ => hstep s e hq)
    fun _ _ _ => trivial

/-! ## Invariants -/

theorem always_nil : Always step P [] s ↔ P s := by
  constructor
  · intro h
    exact h [] List.nil_prefix
  · intro hs before hbefore
    rw [List.prefix_nil.mp hbefore]
    exact hs

theorem always_cons {e : ε} :
    Always step P (e :: events) s ↔ P s ∧ Always step P events (step s e) := by
  constructor
  · intro h
    constructor
    · exact h [] List.nil_prefix
    · intro before hbefore
      exact h (e :: before) ((List.prefix_cons_inj e).mpr hbefore)
  · rintro ⟨hs, hevents⟩ before hbefore
    cases before with
    | nil => exact hs
    | cons e' before =>
        obtain ⟨rfl, hrest⟩ := List.cons_prefix_cons.mp hbefore
        exact hevents before hrest

theorem Always.append {before after : List ε} (hbefore : Always step P before s)
    (hafter : Always step P after (run step before s)) : Always step P (before ++ after) s := by
  induction before generalizing s with
  | nil => exact hafter
  | cons e before ih =>
      obtain ⟨hs, hrest⟩ := always_cons.mp hbefore
      exact always_cons.mpr ⟨hs, ih hrest hafter⟩

theorem Always.imp (h : Always step P events s) (hpq : ∀ s, P s → Q s) : Always step Q events s :=
  fun before hbefore => hpq _ (h before hbefore)

/-- What holds in the state behind the run. -/
theorem Always.last (h : Always step P events s) : P (run step events s) := h events List.prefix_rfl

/-- What every step keeps holds along every run. -/
theorem always_of_step (hs : P s) (hstep : ∀ s e, P s → C s e → P (step s e))
    (hguard : Guarded step C events s) : Always step P events s := by
  induction events generalizing s with
  | nil =>
      intro before hbefore
      rw [List.prefix_nil.mp hbefore]
      exact hs
  | cons e events ih =>
      obtain ⟨he, hrest⟩ := guarded_cons.mp hguard
      exact always_cons.mpr ⟨hs, ih (hstep s e hs he) hrest⟩

theorem always_of_invariant (hs : P s) (hstep : ∀ s e, P s → P (step s e)) (events : List ε) :
    Always step P events s :=
  always_of_step (C := fun _ _ => True) hs (fun s e h _ => hstep s e h) fun _ _ _ => trivial

/-- Where a step that does not meet `C` loses `Q`, a run that keeps `Q` meets
`C` throughout. -/
theorem guarded_of_always (hstep : ∀ s e, Q (step s e) → C s e) (h : Always step Q events s) :
    Guarded step C events s := by
  intro before e hbefore
  have hnext := h (before ++ [e]) hbefore
  rw [run_concat] at hnext
  exact hstep _ e hnext

/-- A condition on every step that is enough for the invariant `P`, and so for
`Q`, and that no step may miss without losing `Q`. -/
theorem always_iff_guarded (hs : P s) (hkeep : ∀ s e, P s → C s e → P (step s e))
    (hpq : ∀ s, P s → Q s) (hneed : ∀ s e, Q (step s e) → C s e) :
    Always step Q events s ↔ Guarded step C events s :=
  ⟨guarded_of_always hneed, fun hguard => (always_of_step hs hkeep hguard).imp hpq⟩

/-- A run whose every event lowers a measure is no longer than that. -/
theorem length_le_of_guarded {m : σ → Nat} (hs : P s) (hkeep : ∀ s e, P s → C s e → P (step s e))
    (hless : ∀ s e, P s → C s e → m (step s e) < m s) (hguard : Guarded step C events s) :
    events.length ≤ m s := by
  induction events generalizing s with
  | nil => exact Nat.zero_le _
  | cons e events ih =>
      obtain ⟨he, hrest⟩ := guarded_cons.mp hguard
      have hmore := ih (hkeep s e hs he) hrest
      exact Nat.lt_of_le_of_lt hmore (hless s e hs he)

/-- And such events can be taken until there is none left. -/
theorem exists_exhausted {m : σ → Nat} (hs : P s) (hkeep : ∀ s e, P s → C s e → P (step s e))
    (hless : ∀ s e, P s → C s e → m (step s e) < m s) :
    ∃ events, Guarded step C events s ∧ P (run step events s) ∧
      ∀ e, ¬ C (run step events s) e := by
  induction hm : m s using Nat.strongRecOn generalizing s with
  | ind n ih =>
      by_cases hmore : ∃ e, C s e
      · obtain ⟨e, he⟩ := hmore
        have hlower : m (step s e) < n := hm ▸ hless s e hs he
        obtain ⟨events, hguard, hend⟩ := ih _ hlower (hkeep s e hs he) rfl
        exact ⟨e :: events, guarded_cons.mpr ⟨he, hguard⟩, hend⟩
      · exact ⟨[], guarded_nil, hs, fun e he => hmore ⟨e, he⟩⟩

/-! ## Invariants under a clock -/

section
variable {T : Type} [LE T] {reading : ε → T} {I : T → σ → Prop}

/-- `I` goes with the time: its passing keeps it, and so does an event at the
event's reading. -/
structure Clocked (step : σ → ε → σ) (reading : ε → T) (I : T → σ → Prop) : Prop where
  later : ∀ {t t' s}, I t s → t ≤ t' → I t' s
  step : ∀ {s e}, I (reading e) s → I (reading e) (step s e)

theorem Clocked.guarded {t : T} (h : Clocked step reading I) (hs : I t s)
    (hclock : (t :: events.map reading).Pairwise (· ≤ ·)) :
    Guarded step (fun s e => I (reading e) s) events s := by
  induction events generalizing s t with
  | nil => exact guarded_nil
  | cons e events ih =>
      obtain ⟨hfirst, hrest⟩ := List.pairwise_cons.mp hclock
      have hnow : I (reading e) s := h.later hs (hfirst _ List.mem_cons_self)
      exact guarded_cons.mpr ⟨hnow, ih (h.step hnow) hrest⟩

theorem Clocked.always {t : T} (h : Clocked step reading I) (hs : I t s)
    (hclock : (t :: events.map reading).Pairwise (· ≤ ·)) :
    Always step (fun s => ∃ t, I t s) events s := by
  induction events generalizing s t with
  | nil =>
      intro before hbefore
      rw [List.prefix_nil.mp hbefore]
      exact ⟨t, hs⟩
  | cons e events ih =>
      obtain ⟨hfirst, hrest⟩ := List.pairwise_cons.mp hclock
      have hnow : I (reading e) s := h.later hs (hfirst _ List.mem_cons_self)
      exact always_cons.mpr ⟨⟨t, hs⟩, ih (h.step hnow) hrest⟩

/-! ## Two runs side by side -/

/-- A step of both runs. -/
def both (step : σ → ε → σ) (p : σ × σ) (e : ε) : σ × σ := (step p.1 e, step p.2 e)

theorem run_both (events : List ε) (s s' : σ) :
    run (both step) events (s, s') = (run step events s, run step events s') := by
  induction events generalizing s s' with
  | nil => rfl
  | cons e events ih => exact ih (step s e) (step s' e)

/-- What holds of the two states at every time holds where the next event
happens on both sides. -/
theorem Clocked.both_guarded {J : T → σ × σ → Prop} {t : T} {s' : σ}
    (h : Clocked (both step) reading J) (hs : J t (s, s'))
    (hclock : (t :: events.map reading).Pairwise (· ≤ ·)) {before : List ε} {e : ε}
    (hbefore : before ++ [e] <+: events) :
    J (reading e) (run step before s, run step before s') := by
  rw [← run_both]
  exact h.guarded hs hclock before e hbefore

end

/-- Some reading is not behind those of the run. -/
theorem exists_before {T : Type} [Preorder T] [Nonempty T] {readings : List T}
    (h : readings.Pairwise (· ≤ ·)) : ∃ t, (t :: readings).Pairwise (· ≤ ·) := by
  cases readings with
  | nil => exact ⟨Classical.arbitrary T, List.pairwise_singleton _ _⟩
  | cons t readings =>
      refine ⟨t, List.pairwise_cons.mpr ⟨?_, h⟩⟩
      intro t' ht'
      rcases List.mem_cons.mp ht' with rfl | ht'
      · exact le_rfl
      · exact (List.pairwise_cons.mp h).1 t' ht'

/-- And some reading is behind them. -/
theorem exists_behind {T : Type} [Preorder T] [Nonempty T] {readings : List T}
    (h : readings.Pairwise (· ≤ ·)) : ∃ t, (readings ++ [t]).Pairwise (· ≤ ·) := by
  rcases List.eq_nil_or_concat readings with rfl | ⟨front, last, rfl⟩
  · exact ⟨Classical.arbitrary T, List.pairwise_singleton _ _⟩
  · rw [List.concat_eq_append] at h ⊢
    refine ⟨last, List.pairwise_append.mpr ⟨h, List.pairwise_singleton _ _, ?_⟩⟩
    intro a ha b hb
    rw [List.mem_singleton.mp hb]
    rcases List.mem_append.mp ha with hfront | hlast
    · exact (List.pairwise_append.mp h).2.2 a hfront last List.mem_cons_self
    · rw [List.mem_singleton.mp hlast]

end

end Runs
