/-
# `Rubix.Lib.Checked` — operations that may panic

Unsigned sums that may overflow, reads and writes past the end of an array and
copies between slices of different lengths end a computation.  Each operation
has the condition under which it does not.

`Steps` are computations that may also end in an error of their own.  That one
does not panic is shown step by step, each step after those before it have
returned a value (`NoPanic.bind`): a check made earlier is what a later
operation relies on.
-/

namespace Checked

/-- What a computation panics with. -/
inductive Panic where
  | addOverflow
  | indexOutOfBounds
  | lengthMismatch
  deriving DecidableEq

/-- `a + b` on `u64`, with overflow checks. -/
def addU64 (a b : UInt64) : Except Panic UInt64 :=
  if a.toNat + b.toNat < 18446744073709551616 then .ok (a + b) else .error .addOverflow

/-- `arr[i] = a` -/
def setIndex {α : Type} {n : Nat} (arr : Vector α n) (i : Nat) (a : α) :
    Except Panic (Vector α n) :=
  if h : i < n then .ok (arr.set i a) else .error .indexOutOfBounds

/-- `l[i]` -/
def index {α : Type} (l : List α) (i : Nat) : Except Panic α :=
  match l[i]? with
  | some a => .ok a
  | none => .error .indexOutOfBounds

/-- `&l[start..stop]` -/
def slice {α : Type} (l : List α) (start stop : Nat) : Except Panic (List α) :=
  if start ≤ stop ∧ stop ≤ l.length then .ok ((l.drop start).take (stop - start))
  else .error .indexOutOfBounds

/-- `arr.copy_from_slice(bytes)`, over the whole array. -/
def copyFromSlice (n : Nat) (bytes : List UInt8) : Except Panic (Vector UInt8 n) :=
  if bytes.length = n then .ok (Vector.ofFn fun i => bytes.getD i 0) else .error .lengthMismatch

theorem addU64_of_lt {a b : UInt64} (h : a.toNat + b.toNat < 18446744073709551616) :
    ∃ sum, addU64 a b = .ok sum ∧ sum.toNat = a.toNat + b.toNat := by
  refine ⟨a + b, if_pos h, ?_⟩
  rw [UInt64.toNat_add]
  exact Nat.mod_eq_of_lt h

theorem setIndex_of_lt {α : Type} {n : Nat} {arr : Vector α n} {i : Nat} {a : α} (h : i < n) :
    ∃ arr', setIndex arr i a = .ok arr' ∧ arr'.toList = arr.toList.set i a :=
  ⟨arr.set i a, dif_pos h, Vector.toList_set ..⟩

theorem index_of_lt {α : Type} {l : List α} {i : Nat} (h : i < l.length) (default : α) :
    index l i = .ok (l.getD i default) := by
  rw [index, List.getD_eq_getElem?_getD, List.getElem?_eq_getElem h]
  rfl

theorem slice_of_le {α : Type} {l : List α} {start stop : Nat} (hstart : start ≤ stop)
    (hstop : stop ≤ l.length) : slice l start stop = .ok ((l.drop start).take (stop - start)) :=
  if_pos ⟨hstart, hstop⟩

theorem copyFromSlice_of_length {n : Nat} {bytes : List UInt8} (h : bytes.length = n) :
    copyFromSlice n bytes = .ok (Vector.ofFn fun i => bytes.getD i 0) := if_pos h

/-! ## Computations that may panic -/

/-- How a computation ends that does not come to a value. -/
inductive Stop (ε : Type) where
  | panic (p : Panic)
  | err (e : ε)
  deriving DecidableEq

abbrev Steps (ε α : Type) : Type := Except (Stop ε) α

section
variable {ε α β : Type}

/-- An operation that may panic, as a step. -/
def orPanic : Except Panic α → Steps ε α
  | .ok a => .ok a
  | .error p => .error (.panic p)

/-- `ok_or(e)?` -/
def okOr (e : ε) : Option α → Steps ε α
  | some a => .ok a
  | none => .error (.err e)

/-- `if c { return Err(e) }` -/
def refuseIf (c : Prop) [Decidable c] (e : ε) : Steps ε Unit :=
  if c then .error (.err e) else .ok ()

theorem orPanic_eq_ok {x : Except Panic α} {a : α} :
    (orPanic x : Steps ε α) = .ok a ↔ x = .ok a := by
  cases x with
  | ok b => exact ⟨fun h => congrArg _ (Except.ok.inj h), fun h => congrArg _ (Except.ok.inj h)⟩
  | error p => exact iff_of_false (fun h => nomatch h) (fun h => nomatch h)

/-- An operation that has come to a value, and the step behind it. -/
theorem orPanic_bind {x : Except Panic α} {a : α} (h : x = .ok a) (f : α → Steps ε β) :
    (orPanic x >>= f) = f a := by
  rw [h]
  rfl

theorem okOr_eq_ok {e : ε} {o : Option α} {a : α} : okOr e o = .ok a ↔ o = some a := by
  cases o with
  | some b => exact ⟨fun h => congrArg _ (Except.ok.inj h), fun h => congrArg _ (Option.some.inj h)⟩
  | none => exact iff_of_false (fun h => nomatch h) (fun h => nomatch h)

theorem refuseIf_eq_ok {c : Prop} [Decidable c] {e : ε} {u : Unit} :
    refuseIf c e = .ok u ↔ ¬ c := by
  by_cases hc : c
  · rw [refuseIf, if_pos hc]
    exact iff_of_false (fun h => nomatch h) (not_not_intro hc)
  · rw [refuseIf, if_neg hc]
    exact iff_of_true rfl hc

theorem refuseIf_bind (c : Prop) [Decidable c] (e : ε) (f : Unit → Steps ε β) :
    (refuseIf c e >>= f) = if c then .error (.err e) else f () := by
  rw [refuseIf]
  split
  · rfl
  · rfl

/-- It does not panic. -/
def NoPanic (x : Steps ε α) : Prop := ∀ p, x ≠ .error (.panic p)

theorem NoPanic.orPanic {a : α} {x : Except Panic α} (h : x = .ok a) :
    NoPanic (Checked.orPanic x : Steps ε α) := by
  intro p hp
  rw [h] at hp
  exact nomatch hp

theorem NoPanic.okOr (e : ε) (o : Option α) : NoPanic (Checked.okOr e o) := by
  intro p hp
  cases o with
  | some a => exact nomatch hp
  | none => exact nomatch hp

theorem NoPanic.refuseIf (c : Prop) [Decidable c] (e : ε) : NoPanic (Checked.refuseIf c e) := by
  intro p hp
  by_cases hc : c
  · rw [Checked.refuseIf, if_pos hc] at hp
    exact nomatch hp
  · rw [Checked.refuseIf, if_neg hc] at hp
    exact nomatch hp

/-- A computation without panics, as steps. -/
theorem NoPanic.of_mapError (x : Except ε α) : NoPanic (x.mapError Stop.err) := by
  intro p hp
  cases x with
  | ok a => cases hp
  | error e => cases hp

/-- A step after one that has returned a value. -/
theorem NoPanic.bind {x : Steps ε α} {f : α → Steps ε β} (hx : NoPanic x)
    (hf : ∀ a, x = .ok a → NoPanic (f a)) : NoPanic (x >>= f) := by
  intro p hp
  cases x with
  | ok a => exact hf a rfl p hp
  | error s =>
      cases s with
      | panic q => exact hx q rfl
      | err e => exact nomatch hp

end

end Checked
