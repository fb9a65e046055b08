/-
# `Rubix.Lib.CheckThenAct` — a limit that is checked before it matters

Several callers insert keys into a set that is to have at most `cap` of them.
Each checks the size first and inserts later, and others run in between:

    present      the keys in the set
    granted      those of the callers that have passed the check and not yet inserted

A key that is inserted was granted, so an insertion brings nothing new into
`present ∪ granted`.  That grows only where a check finds room, and then there
are fewer than `cap` keys in the set beside those granted (`Crowds.step`).  So
the set is never larger than `cap` by more than the callers that overlap with
the first one past the check (`card_present_le`).
-/
import Mathlib.Data.Finset.Card
import Rubix.Lib.Runs

namespace CheckThenAct

variable {κ : Type} [DecidableEq κ]

structure State (κ : Type) where
  present : Finset κ
  granted : Finset κ

/-- What a step may do to the keys. -/
inductive Moves (cap : Nat) (s s' : State κ) : Prop where
  /-- A check finds room, and nothing is inserted. -/
  | grants (hroom : s.present.card < cap) (hpresent : s'.present = s.present)
  /-- No key is new. -/
  | keeps (hkeys : s'.present ∪ s'.granted ⊆ s.present ∪ s.granted)

/-- Present or granted are at most `bound` keys. -/
def Crowds (bound : Nat) (s : State κ) : Prop := (s.present ∪ s.granted).card ≤ bound

section
variable {cap k : Nat} {s s' : State κ}

theorem Crowds.step (h : Crowds (cap + k) s) (hmoves : Moves cap s s')
    (hfew : s'.granted.card ≤ k + 1) : Crowds (cap + k) s' := by
  cases hmoves with
  | grants hroom hpresent =>
      have hunion := Finset.card_union_le s'.present s'.granted
      rw [hpresent] at hunion
      rw [Crowds, hpresent]
      omega
  | keeps hkeys => exact Nat.le_trans (Finset.card_le_card hkeys) h

theorem Crowds.card_present_le {bound : Nat} (h : Crowds bound s) : s.present.card ≤ bound :=
  Nat.le_trans (Finset.card_le_card Finset.subset_union_left) h

end

/-- Of a system whose steps are such moves: where at most one caller more than
`k` is between its check and its insertion, at most `k` keys are too many. -/
theorem card_present_le {σ ε : Type} {step : σ → ε → σ} {keys : σ → State κ} {cap k : Nat}
    {events : List ε} {s : σ} (hmoves : ∀ s e, Moves cap (keys s) (keys (step s e)))
    (hs : Crowds (cap + k) (keys s))
    (hfew : Runs.Always step (fun s => (keys s).granted.card ≤ k + 1) events s) :
    Runs.Always step (fun s => (keys s).present.card ≤ cap + k) events s := by
  have hguard : Runs.Guarded step (fun s e => (keys (step s e)).granted.card ≤ k + 1) events s :=
    Runs.guarded_of_always (fun _ _ h => h) hfew
  have hcrowds : Runs.Always step (fun s => Crowds (cap + k) (keys s)) events s :=
    Runs.always_of_step hs (fun s e h hgranted => h.step (hmoves s e) hgranted) hguard
  intro before hbefore
  exact (hcrowds before hbefore).card_present_le

end CheckThenAct
