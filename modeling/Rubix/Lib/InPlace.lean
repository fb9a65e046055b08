/-
# `Rubix.Lib.InPlace` — methods that work on a value in place

A method in place may fail when it has made some of its assignments already; a
function that returns the new value cannot.  `Computes x f` says that the
method `x` is the function `f`: it fails where `f` does and has assigned
nothing then, and otherwise leaves what `f` returns.

    x fails                 the value is the one it found     (`unchanged`)
    x, however it ends      f's value, or the one it found    (`behind_eq`)
-/

namespace InPlace

variable {ε σ : Type} {x : EStateM ε σ Unit} {f : σ → Except ε σ} {s s' : σ} {e : ε}

/-- The value behind a call, whether it succeeds or not. -/
def behind (x : EStateM ε σ Unit) (s : σ) : σ :=
  match x.run s with
  | .ok () s' => s'
  | .error _ s' => s'

def Computes (x : EStateM ε σ Unit) (f : σ → Except ε σ) : Prop :=
  ∀ s, x.run s = match f s with
    | .error e => .error e s
    | .ok s' => .ok () s'

namespace Computes

theorem behind_of_ok (h : Computes x f) (hf : f s = .ok s') : behind x s = s' := by
  rw [behind, h s, hf]

theorem behind_of_error (h : Computes x f) (hf : f s = .error e) : behind x s = s := by
  rw [behind, h s, hf]

theorem behind_eq (h : Computes x f) (s : σ) : behind x s = (f s).toOption.getD s := by
  cases hf : f s with
  | error e => exact h.behind_of_error hf
  | ok s' => exact h.behind_of_ok hf

/-- A call that fails has touched nothing. -/
theorem unchanged (h : Computes x f) (hx : x.run s = .error e s') : s' = s := by
  rw [h s] at hx
  cases hf : f s with
  | error e' =>
      rw [hf] at hx
      cases hx
      rfl
  | ok s'' =>
      rw [hf] at hx
      cases hx

end Computes
end InPlace
