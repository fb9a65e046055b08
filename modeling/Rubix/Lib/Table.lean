/-
# `Rubix.Lib.Table` — rows found by a key

A table is a list of rows, and `key` reads a column that is unique in it.
What a lookup finds after each kind of write, at the key written and at any
other:

    write                        found at `k`, when the write is at `k'`
    append a row of new key      the row if `k' = k`, else as before
    erase the rows at `k'`       nothing if `k' = k`, else as before
    map the rows at `k'` by f    f of it if `k' = k`, else as before
-/
import Mathlib.Data.List.Nodup

namespace Table

variable {κ α : Type} [DecidableEq κ] (key : α → κ)

def find (rows : List α) (k : κ) : Option α := rows.find? fun r => decide (key r = k)

def erase (rows : List α) (k : κ) : List α := rows.filter fun r => decide (key r ≠ k)

/-- Write a row, in place of the one of its key. -/
def put (rows : List α) (r : α) : List α := erase key rows (key r) ++ [r]

def modify (f : α → α) (rows : List α) (k : κ) : List α :=
  rows.map fun r => if key r = k then f r else r

variable {key} {rows : List α} {k k' : κ} {r : α}

theorem key_of_find (h : find key rows k = some r) : key r = k := by
  rw [find] at h
  have hr := List.find?_some h
  exact of_decide_eq_true hr

theorem find_eq_none_iff : find key rows k = none ↔ ∀ r ∈ rows, key r ≠ k := by
  rw [find, List.find?_eq_none]
  constructor
  · intro h r hr heq
    exact h r hr (decide_eq_true heq)
  · intro h r hr heq
    exact h r hr (of_decide_eq_true heq)

theorem mem_erase : r ∈ erase key rows k ↔ r ∈ rows ∧ key r ≠ k := by
  rw [erase, List.mem_filter, decide_eq_true_iff]

theorem mem_put {r' : α} : r ∈ put key rows r' ↔ (r ∈ rows ∧ key r ≠ key r') ∨ r = r' := by
  rw [put, List.mem_append, mem_erase, List.mem_singleton]

theorem erase_of_find (h : find key rows k = none) : erase key rows k = rows := by
  refine List.filter_eq_self.mpr ?_
  intro r hr
  exact decide_eq_true (find_eq_none_iff.mp h r hr)

theorem mem_modify {f : α → α} :
    r ∈ modify key f rows k ↔ ∃ r' ∈ rows, (if key r' = k then f r' else r') = r := by
  rw [modify, List.mem_map]

theorem find_append (hnew : find key rows (key r) = none) (k : κ) :
    find key (rows ++ [r]) k = if key r = k then some r else find key rows k := by
  simp only [find] at hnew ⊢
  rw [List.find?_append]
  by_cases hk : key r = k
  · rw [← hk, hnew, if_pos rfl, Option.none_or]
    exact List.find?_cons_of_pos (decide_eq_true rfl)
  · have hlast : [r].find? (fun r => decide (key r = k)) = none := by
      rw [List.find?_cons_of_neg (by rw [decide_eq_true_iff]; exact hk)]
      rfl
    rw [if_neg hk, hlast, Option.or_none]

theorem find_erase (k k' : κ) :
    find key (erase key rows k') k = if k' = k then none else find key rows k := by
  by_cases hk : k' = k
  · rw [if_pos hk, find_eq_none_iff]
    intro r hr heq
    have hne := of_decide_eq_true (List.mem_filter.mp hr).2
    exact hne (heq.trans hk.symm)
  · rw [if_neg hk]
    rw [find, erase, List.find?_filter]
    refine congrArg (List.find? · rows) (funext fun r => ?_)
    by_cases hr : key r = k
    · have hne : key r ≠ k' := fun h => hk (h.symm.trans hr)
      rw [decide_eq_true hr, decide_eq_true hne]
      rfl
    · rw [decide_eq_false hr]
      exact decide_eq_false fun h => Bool.false_ne_true h.2

theorem find_put (rows : List α) (r : α) (k : κ) :
    find key (put key rows r) k = if key r = k then some r else find key rows k := by
  have hnew : find key (erase key rows (key r)) (key r) = none := by rw [find_erase, if_pos rfl]
  rw [put, find_append hnew, find_erase]
  split
  · rfl
  · rfl

/-- Of several rows of a key, the one written last is found. -/
theorem find_foldl_put (rs rows : List α) (k : κ) :
    find key (rs.foldl (put key) rows) k = (find key rs.reverse k).or (find key rows k) := by
  induction rs generalizing rows with
  | nil => rfl
  | cons r rs ih =>
      rw [List.foldl_cons, ih, find_put, List.reverse_cons]
      simp only [find, List.find?_append, List.find?_singleton]
      by_cases hk : key r = k
      · simp [hk]
      · simp [hk]

theorem find_modify {f : α → α} (hkey : ∀ r, key (f r) = key r) (k k' : κ) :
    find key (modify key f rows k') k
      = if k' = k then (find key rows k).map f else find key rows k := by
  have hkept : ∀ r, key (if key r = k' then f r else r) = key r := by
    intro r
    split
    · exact hkey r
    · rfl
  have hfind : find key (modify key f rows k') k
      = (find key rows k).map fun r => if key r = k' then f r else r := by
    rw [find, modify, List.find?_map]
    refine congrArg _ (congrArg (List.find? · rows) (funext fun r => ?_))
    exact congrArg (fun x => decide (x = k)) (hkept r)
  rw [hfind]
  cases hr : find key rows k with
  | none => split <;> rfl
  | some r =>
      have hrk := key_of_find hr
      rw [Option.map_some]
      by_cases hk : k' = k
      · rw [if_pos hk, if_pos (hrk.trans hk.symm), Option.map_some]
      · rw [if_neg hk, if_neg fun h => hk (h.symm.trans hrk)]

/-! ## Rows that are determined by a column -/

/-- No two rows have the same key. -/
def Unique (key : α → κ) (rows : List α) : Prop := (rows.map key).Nodup

section
omit [DecidableEq κ]

theorem unique_nil : Unique key [] := List.nodup_nil

/-- A key has one row. -/
theorem Unique.eq_of_key {r' : α} (h : Unique key rows) (hr : r ∈ rows) (hr' : r' ∈ rows)
    (hkey : key r = key r') : r = r' :=
  List.inj_on_of_nodup_map h hr hr' hkey

theorem Unique.filter (h : Unique key rows) (p : α → Bool) : Unique key (rows.filter p) :=
  (List.filter_sublist.map key).nodup h

theorem Unique.erase (h : Unique key rows) {κ' : Type} [DecidableEq κ'] {key' : α → κ'} (k : κ') :
    Unique key (Table.erase key' rows k) :=
  h.filter _

end

theorem Unique.find_eq_some (h : Unique key rows) :
    find key rows k = some r ↔ r ∈ rows ∧ key r = k := by
  constructor
  · intro hr
    exact ⟨List.mem_of_find?_eq_some hr, key_of_find hr⟩
  · rintro ⟨hmem, hkey⟩
    cases hfound : find key rows k with
    | none => exact absurd hkey (find_eq_none_iff.mp hfound r hmem)
    | some r' =>
        have hr' : r' ∈ rows := List.mem_of_find?_eq_some hfound
        rw [h.eq_of_key hr' hmem ((key_of_find hfound).trans hkey.symm)]

/-- Among some of the rows, a key finds what it found, if that is among them. -/
theorem Unique.find_filter (h : Unique key rows) (p : α → Bool) (k : κ) :
    find key (rows.filter p) k = (find key rows k).filter p := by
  refine Option.ext ?_
  intro r
  rw [(h.filter p).find_eq_some, Option.filter_eq_some_iff, h.find_eq_some, List.mem_filter]
  constructor
  · rintro ⟨⟨hmem, hp⟩, hkey⟩
    exact ⟨⟨hmem, hkey⟩, hp⟩
  · rintro ⟨⟨hmem, hkey⟩, hp⟩
    exact ⟨⟨hmem, hp⟩, hkey⟩

theorem Unique.append (h : Unique key rows) (hnew : find key rows (key r) = none) :
    Unique key (rows ++ [r]) := by
  have hother : ∀ r' ∈ rows, key r' ≠ key r := find_eq_none_iff.mp hnew
  rw [Unique, List.map_append, List.map_singleton, List.nodup_append]
  refine ⟨h, List.nodup_singleton _, ?_⟩
  intro a ha b hb
  obtain ⟨r', hr', rfl⟩ := List.mem_map.mp ha
  rw [List.mem_singleton.mp hb]
  exact hother r' hr'

theorem Unique.put (h : Unique key rows) (r : α) : Unique key (Table.put key rows r) := by
  have hnew : find key (Table.erase key rows (key r)) (key r) = none := by
    rw [find_erase, if_pos rfl]
  exact (h.erase (key r)).append hnew

theorem Unique.modify {f : α → α} (h : Unique key rows) (hkey : ∀ r, key (f r) = key r) (k : κ) :
    Unique key (Table.modify key f rows k) := by
  have hkeys : (Table.modify key f rows k).map key = rows.map key := by
    rw [Table.modify, List.map_map]
    refine List.map_congr_left ?_
    intro r _
    show key (if key r = k then f r else r) = key r
    split
    · exact hkey r
    · rfl
  rw [Unique, hkeys]
  exact h

end Table
