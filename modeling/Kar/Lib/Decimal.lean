import Mathlib.Algebra.Group.Int.Defs
import Mathlib.Data.List.Basic

/-!
# Decimal numerals

`strconv.Itoa` and `strconv.ParseInt` in base ten.  A number in the range of the parser is read back
from its numeral (`parseInt_itoa`), and a numeral has digits and a minus sign only (`mem_itoa`).
-/

namespace Kar.Lib

/-- `strconv.Itoa` -/
def itoa (n : Int) : String := n.repr

def parseDigits (l : List Char) : Option Nat :=
  if l ≠ [] ∧ l.all Char.isDigit = true then some (Nat.ofDigitChars 10 l 0) else none

/-- A number with an optional sign. -/
def parseSigned : List Char → Option Int
  | '-' :: l => (parseDigits l).map fun n => -n
  | '+' :: l => (parseDigits l).map fun n => n
  | l => (parseDigits l).map fun n => n

/-- `strconv.ParseInt(s, 10, bits)`: `none` is a syntax or a range error. -/
def parseInt (bits : Nat) (s : String) : Option Int :=
  (parseSigned s.toList).filter fun n => -2 ^ (bits - 1) ≤ n ∧ n < 2 ^ (bits - 1)

/-- The digits of a number are read back. -/
theorem parseDigits_toDigits : parseDigits (Nat.toDigits 10 n) = some n := by
  have hdigits : (Nat.toDigits 10 n).all Char.isDigit = true := by
    rw [List.all_eq_true]
    intro c hc
    exact Nat.isDigit_of_mem_toDigits (by omega) (by omega) hc
  rw [parseDigits, if_pos ⟨Nat.toDigits_ne_nil, hdigits⟩, Nat.ofDigitChars_ten_toDigits]

/-- A number that begins with a digit has no sign. -/
theorem parseSigned_toDigits : parseSigned (Nat.toDigits 10 n) = some (n : Int) := by
  have hdigit : ∀ c ∈ Nat.toDigits 10 n, c.isDigit = true := by
    intro c hc
    exact Nat.isDigit_of_mem_toDigits (by omega) (by omega) hc
  unfold parseSigned
  split
  · rename_i l heq
    exact absurd (hdigit '-' (heq ▸ List.mem_cons_self)) (by decide)
  · rename_i l heq
    exact absurd (hdigit '+' (heq ▸ List.mem_cons_self)) (by decide)
  · rw [parseDigits_toDigits]
    rfl

theorem parseSigned_itoa (n : Int) : parseSigned (itoa n).toList = some n := by
  cases n with
  | ofNat m =>
    show parseSigned (Nat.repr m).toList = _
    rw [Nat.toList_repr]
    exact parseSigned_toDigits
  | negSucc m =>
    have hlist : (itoa (Int.negSucc m)).toList = '-' :: Nat.toDigits 10 (m + 1) := by
      show ("-" ++ (m + 1).repr).toList = _
      rw [String.toList_append, Nat.toList_repr]
      rfl
    rw [hlist, parseSigned, parseDigits_toDigits]
    rfl

/-- `ParseInt` reads back what `Itoa` writes. -/
theorem parseInt_itoa (hmin : -2 ^ (bits - 1) ≤ n) (hmax : n < 2 ^ (bits - 1)) :
    parseInt bits (itoa n) = some n := by
  rw [parseInt, parseSigned_itoa, Option.filter_some, if_pos]
  exact decide_eq_true ⟨hmin, hmax⟩

/-- The characters of a numeral. -/
theorem mem_itoa (hc : c ∈ (itoa n).toList) : c = '-' ∨ c.isDigit = true := by
  cases n with
  | ofNat m =>
    right
    apply Nat.isDigit_of_mem_toDigits (b := 10) (n := m) (by omega) (by omega)
    rw [← Nat.toList_repr]
    exact hc
  | negSucc m =>
    have hc : c ∈ ("-" ++ (m + 1).repr).toList := hc
    rw [String.toList_append, Nat.toList_repr, List.mem_append] at hc
    cases hc with
    | inl hsign => exact Or.inl (List.mem_singleton.mp hsign)
    | inr hdigit => exact Or.inr (Nat.isDigit_of_mem_toDigits (by omega) (by omega) hdigit)

end Kar.Lib
