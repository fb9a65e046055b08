/-
# `Rubix.Lib.Past` — what must have been called before

`P past k` says when a call `k` is due: which calls stand before it.  A program
heeds `P` behind a past if every call it logs is due behind that past and the
calls it has logged itself:

    past | c₁ c₂ … cᵢ | cᵢ₊₁        P (past ++ [c₁, …, cᵢ]) cᵢ₊₁

The rules follow the program from its front and put what it calls behind the
past (`Heeds.call_bind`).  Only a program whose log is not known in advance
needs the rule for `>>=` itself, where the past of what comes next is read off
the run (`Heeds.bind`).
-/
import Rubix.Lib.Effect

namespace Effect
namespace Prog

variable {W κ ε π α β ρ δ : Type}

/-- Every call that `x` logs behind `past` is due where it stands. -/
def Heeds (P : List κ → κ → Prop) (past : List κ) (x : Prog W κ ε π α) : Prop :=
  ∀ w before k after, (x w).log = before ++ k :: after → P (past ++ before) k

section
variable {P Q : List κ → κ → Prop} {past : List κ}

/-- A program that calls nothing. -/
theorem Heeds.of_silent {x : Prog W κ ε π α} (h : ∀ w, (x w).log = []) : Heeds P past x := by
  intro w before k after hlog
  rw [h w] at hlog
  exact absurd hlog.symm (List.append_ne_nil_of_right_ne_nil _ (List.cons_ne_nil _ _))

theorem Heeds.pure (a : α) : Heeds P past (pure a : Prog W κ ε π α) := .of_silent fun _ => rfl

theorem Heeds.fail (e : ε) : Heeds P past (fail e : Prog W κ ε π α) := .of_silent fun _ => rfl

theorem Heeds.abort (p : π) : Heeds P past (abort p : Prog W κ ε π α) := .of_silent fun _ => rfl

/-- A call that is due, and what is due behind it, whatever the answer. -/
theorem Heeds.call_bind {ev : ρ → κ} {f : W → ρ × W} {g : ρ → Prog W κ ε π α}
    (hdue : ∀ r, P past (ev r)) (hrest : ∀ r, Heeds P (past ++ [ev r]) (g r)) :
    Heeds P past (call ev f >>= g) := by
  intro w before k after hlog
  rw [Prog.call_bind] at hlog
  cases before with
  | nil =>
      obtain ⟨rfl, -⟩ := List.cons.inj hlog
      rw [List.append_nil]
      exact hdue _
  | cons first before =>
      obtain ⟨rfl, hbehind⟩ := List.cons.inj hlog
      have hnext := hrest _ _ before k after hbehind
      rw [List.append_assoc] at hnext
      exact hnext

theorem Heeds.silent_bind {f : W → ρ × W} {g : ρ → Prog W κ ε π α}
    (h : ∀ r, Heeds P past (g r)) : Heeds P past (Prog.silent f >>= g) :=
  fun w => h (f w).1 (f w).2

theorem Heeds.orFail_bind {g : δ → ε} {r : Except δ β} {f : β → Prog W κ ε π α}
    (h : ∀ b, r = .ok b → Heeds P past (f b)) : Heeds P past (orFail g r >>= f) := by
  cases r with
  | ok b => exact h b rfl
  | error d => exact .fail (g d)

/-- What comes next has the run before it in its past, of which `T` holds. -/
theorem Heeds.bind {T : α → List κ → Prop} {x : Prog W κ ε π α} {f : α → Prog W κ ε π β}
    (hx : Heeds P past x) (htraces : Traces T x)
    (hf : ∀ a l, T a l → Heeds P (past ++ l) (f a)) : Heeds P past (x >>= f) := by
  intro w before k after hlog
  have hfirst := hx w
  have hnext := htraces w
  rw [Prog.bind_run] at hlog
  rcases hrun : x w with ⟨o, w', l⟩
  rw [hrun] at hlog hfirst hnext
  cases o with
  | err e => exact hfirst before k after hlog
  | panic p => exact hfirst before k after hlog
  | ok a =>
      have hlogs : l ++ (f a w').log = before ++ k :: after := hlog
      have hlast := hf a l (hnext a rfl) w'
      rcases List.append_eq_append_iff.mp hlogs with ⟨mid, rfl, hmid⟩ | ⟨mid, rfl, hmid⟩
      · -- the call is one of `f a`
        rw [← List.append_assoc]
        exact hlast mid k after hmid
      · cases mid with
        | nil =>
            have hhead := hlast [] k after hmid.symm
            rw [List.append_nil, List.append_nil] at hhead
            exact hhead
        | cons k' mid =>
            obtain ⟨rfl, -⟩ := List.cons.inj hmid
            exact hfirst before k mid rfl

/-- Every run of a sequence of requests heeds what each of them does. -/
theorem serve_heeds {σ : Type} {handle : σ → Prog W κ ε π α} {P : σ → List κ → κ → Prop}
    (h : ∀ x, Heeds (P x) [] (handle x)) {xs : List σ} {w : W} :
    ∀ e ∈ serve handle xs w, ∀ before k after, e.run.log = before ++ k :: after →
      P e.request before k := by
  intro e he before k after hlog
  obtain ⟨-, -, -, -, hrun⟩ := of_mem_serve he
  rw [hrun] at hlog
  exact h e.request e.before before k after hlog

end

end Prog
end Effect
