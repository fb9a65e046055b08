/-
# `Rubix.Lib.Json` — the text of flat records

A record of strings and numbers in compact form, no space between its tokens.
Inside a string the quote, the backslash and the control characters of ASCII
are escaped, each in at most six characters, so the text of a record is
bounded by what is in it (`byteLen_object_le`).
-/
import Mathlib.Algebra.GroupWithZero.Nat
import Rubix.Lib.Hex
import Rubix.Lib.Utf8

namespace Json

open Utf8 (byteLen byteLen_of_ascii)

def quote : Char := '\x22'

/-- The letter of a two-character escape. -/
def shortEscape? (c : Char) : Option Char :=
  if c = quote ∨ c = '\\' then some c
  else if c.toNat = 8 then some 'b'
  else if c.toNat = 9 then some 't'
  else if c.toNat = 10 then some 'n'
  else if c.toNat = 12 then some 'f'
  else if c.toNat = 13 then some 'r'
  else none

/-- A character as it stands inside a string. -/
def escape (c : Char) : List Char :=
  match shortEscape? c with
  | some d => ['\\', d]
  | none =>
      if c.toNat < 32 then
        ['\\', 'u', '0', '0'] ++ [Hex.digit (c.toNat / 16), Hex.digit (c.toNat % 16)]
      else [c]

def string (s : String) : List Char := quote :: (s.toList.flatMap escape ++ [quote])

def number (n : Nat) : List Char := (Nat.repr n).toList

def member (m : String × List Char) : List Char := string m.1 ++ ':' :: m.2

/-- An object of the members' names and texts, in their order. -/
def object (members : List (String × List Char)) : List Char :=
  '\x7b' :: ([','].intercalate (members.map member) ++ ['\x7d'])

/-! ## Bounds -/

theorem ascii_of_shortEscape? {c d : Char} (h : shortEscape? c = some d) : d.toNat < 128 := by
  have hletters : ∀ e ∈ ['b', 't', 'n', 'f', 'r'], e.toNat < 128 := by simp
  rw [shortEscape?] at h
  split at h
  · next hself =>
      cases h
      rcases hself with rfl | rfl
      · decide
      · decide
  · refine hletters d ?_
    split at h
    · cases h
      decide
    · split at h
      · cases h
        decide
      · split at h
        · cases h
          decide
        · split at h
          · cases h
            decide
          · split at h
            · cases h
              decide
            · cases h

/-- What is escaped is written in ASCII. -/
theorem byteLen_escape_le (c : Char) : byteLen (escape c) ≤ 6 * c.utf8Size := by
  have hpos := c.utf8Size_pos
  rw [escape]
  split
  · next d hd =>
      have hascii : ∀ e ∈ ['\\', d], e.toNat < 128 := by
        intro e he
        rcases List.mem_cons.mp he with rfl | he
        · decide
        · exact List.mem_singleton.mp he ▸ ascii_of_shortEscape? hd
      rw [byteLen_of_ascii hascii]
      show 2 ≤ 6 * c.utf8Size
      omega
  · split
    · next hcontrol =>
        have hdigit : ∀ n : Fin 16, (Hex.digit n).toNat < 128 := by decide
        have hhi := hdigit ⟨c.toNat / 16, by omega⟩
        have hlo := hdigit ⟨c.toNat % 16, by omega⟩
        have hhead : ∀ e ∈ ['\\', 'u', '0', '0'], e.toNat < 128 := by simp
        have hascii : ∀ e ∈ ['\\', 'u', '0', '0'] ++
            [Hex.digit (c.toNat / 16), Hex.digit (c.toNat % 16)], e.toNat < 128 := by
          intro e he
          rcases List.mem_append.mp he with he | he
          · exact hhead e he
          · rcases List.mem_cons.mp he with rfl | he
            · exact hhi
            · exact List.mem_singleton.mp he ▸ hlo
        rw [byteLen_of_ascii hascii]
        show 6 ≤ 6 * c.utf8Size
        omega
    · rw [byteLen, byteLen]
      omega

theorem byteLen_string_le (s : String) : byteLen (string s) ≤ 6 * byteLen s.toList + 2 := by
  have hquote : quote.utf8Size = 1 := by decide
  have hbody : byteLen (s.toList.flatMap escape) ≤ 6 * byteLen s.toList := by
    induction s.toList with
    | nil => exact Nat.le_refl 0
    | cons c cs ih =>
        have hc := byteLen_escape_le c
        rw [List.flatMap_cons, Utf8.byteLen_append, byteLen]
        omega
  rw [string, byteLen, Utf8.byteLen_append, byteLen, byteLen, hquote]
  omega

theorem byteLen_le (cs : List Char) : byteLen cs ≤ 4 * cs.length := by
  induction cs with
  | nil => exact Nat.le_refl 0
  | cons c cs ih =>
      have hc := c.utf8Size_le_four
      rw [byteLen, List.length_cons]
      omega

theorem byteLen_number_le {n k : Nat} (hk : 0 < k) (h : n < Nat.pow 10 k) :
    byteLen (number n) ≤ 4 * k := by
  have hlen : (Nat.repr n).toList.length ≤ k := by
    rw [String.length_toList]
    exact (Nat.length_repr_le_iff hk).mpr h
  exact Nat.le_trans (byteLen_le _) (Nat.mul_le_mul_left 4 hlen)

/-- The most that a member takes, with the comma or brace behind it. -/
def memberBound (m : String × List Char) : Nat := 6 * byteLen m.1.toList + byteLen m.2 + 4

theorem byteLen_member_le (m : String × List Char) : byteLen (member m) + 1 ≤ memberBound m := by
  have hcolon : ':'.utf8Size = 1 := by decide
  have hname := byteLen_string_le m.1
  rw [member, Utf8.byteLen_append, byteLen, hcolon, memberBound]
  omega

theorem byteLen_join_le : ∀ ms : List (String × List Char),
    byteLen ([','].intercalate (ms.map member)) ≤ (ms.map memberBound).sum
  | [] => Nat.le_refl 0
  | [m] => by
      have hm := byteLen_member_le m
      rw [List.map_singleton, List.intercalate_singleton, List.map_singleton, List.sum_singleton]
      omega
  | m :: m' :: ms => by
      have hcomma : byteLen [','] = 1 := by decide
      have hm := byteLen_member_le m
      have ih := byteLen_join_le (m' :: ms)
      rw [List.map_cons, List.map_cons, List.intercalate_cons_cons, ← List.map_cons,
        Utf8.byteLen_append, Utf8.byteLen_append, hcomma, List.map_cons (f := memberBound),
        List.sum_cons]
      omega

theorem byteLen_object_le (ms : List (String × List Char)) :
    byteLen (object ms) ≤ (ms.map memberBound).sum + 2 := by
  have hopen : '\x7b'.utf8Size = 1 := by decide
  have hclose : byteLen ['\x7d'] = 1 := by decide
  have hjoin := byteLen_join_le ms
  rw [object, byteLen, Utf8.byteLen_append, hopen, hclose]
  omega

end Json
