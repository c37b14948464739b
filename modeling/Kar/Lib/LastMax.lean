import Mathlib.Data.List.Induction
import Kar.Lib.Lists

/-!
# The last element of greatest key

A single pass that keeps, of the elements read so far, the one with the
greatest key, and among equal keys the one read last.  `lastMax` is that pass.

* `lastMax_append_singleton` is the step of the pass.
* `lastMax_mem`, `key_le_lastMax` and `lastMax_eq_none_iff` say what the result
  is: an element of the list, of greatest key, present as soon as the list has
  an element.
* `lastMax_of_append` and `lastMax_append_of_le` say which part of a list the
  result comes from.
* `get?_raise_of_lastMax` relates the pass to a map whose entry is raised at
  each element.
-/

namespace Kar.Lib

open List

variable (key : α → Nat)

/-- The element kept after `a` is read while `kept` was kept. -/
def keepMax (kept : Option α) (a : α) : Option α :=
  match kept with
  | none => some a
  | some b => if key b ≤ key a then some a else some b

/-- The last element of greatest key of a list. -/
def lastMax (l : List α) : Option α := l.foldl (keepMax key) none

@[simp] theorem lastMax_nil : lastMax key ([] : List α) = none := rfl

theorem lastMax_append_singleton :
    lastMax key (l ++ [a]) = keepMax key (lastMax key l) a := by
  simp [lastMax]

theorem lastMax_eq_none_iff (l : List α) : lastMax key l = none ↔ l = [] := by
  induction l using reverseRecOn with
  | nil => simp
  | append_singleton l =>
    rw [lastMax_append_singleton]
    cases lastMax key l with
    | none => simp [keepMax]
    | some =>
      simp only [keepMax]
      split <;> simp

/-- The element that is kept: nothing before it exceeds it and everything after
it is smaller. -/
theorem lastMax_eq_some_iff :
    lastMax key l = some x ↔ ∃ a b, l = a ++ x :: b ∧ (∀ y ∈ a, key y ≤ key x) ∧
      ∀ y ∈ b, key y < key x := by
  induction l using reverseRecOn generalizing x with
  | nil => simp
  | append_singleton l c ih =>
    rw [lastMax_append_singleton]
    constructor
    · intro h
      cases hkept : lastMax key l with
      | none =>
        have hl := (lastMax_eq_none_iff key l).mp hkept
        rw [hkept] at h
        simp only [keepMax, Option.some.injEq] at h
        subst h hl
        exact ⟨[], [], rfl, by simp, by simp⟩
      | some d =>
        obtain ⟨a, b, rfl, ha, hb⟩ := ih.mp hkept
        rw [hkept, keepMax] at h
        split at h
        · rename_i hdc
          cases h
          refine ⟨a ++ d :: b, [], rfl, fun y hy => ?_, by simp⟩
          rcases mem_append.mp hy with hy | hy
          · exact Nat.le_trans (ha y hy) hdc
          · rcases mem_cons.mp hy with rfl | hy
            · exact hdc
            · exact Nat.le_trans (Nat.le_of_lt (hb y hy)) hdc
        · cases h
          refine ⟨a, b ++ [c], by simp, ha, fun y hy => ?_⟩
          rcases mem_append.mp hy with hy | hy
          · exact hb y hy
          · rw [mem_singleton.mp hy]
            omega
    · rintro ⟨a, b, hl, ha, hb⟩
      rcases eq_nil_or_concat b with rfl | ⟨b, e, rfl⟩
      · obtain ⟨rfl, hc⟩ := append_inj' hl rfl
        simp only [cons.injEq, and_true] at hc
        subst hc
        cases hkept : lastMax key l with
        | none => rfl
        | some d =>
          obtain ⟨a', b', rfl, -⟩ := ih.mp hkept
          rw [keepMax, if_pos (ha d (by simp))]
      · rw [concat_eq_append, ← cons_append, ← append_assoc] at hl
        obtain ⟨rfl, hc⟩ := append_inj' hl rfl
        simp only [cons.injEq, and_true] at hc
        subst hc
        have hc : key c < key x := hb c (by simp)
        rw [ih.mpr ⟨a, b, rfl, ha, fun y hy => hb y (by simp [hy])⟩, keepMax, if_neg (by omega)]

theorem lastMax_mem (h : lastMax key l = some b) : b ∈ l := by
  obtain ⟨a, r, rfl, -⟩ := (lastMax_eq_some_iff key).mp h
  simp

theorem key_le_lastMax (h : lastMax key l = some b) (ha : a ∈ l) :
    key a ≤ key b := by
  obtain ⟨before, after, rfl, hbefore, hafter⟩ := (lastMax_eq_some_iff key).mp h
  rcases mem_append.mp ha with ha | ha
  · exact hbefore a ha
  · rcases mem_cons.mp ha with rfl | ha
    · exact Nat.le_refl _
    · exact Nat.le_of_lt (hafter a ha)

/-- A part of the list whose greatest key is at least that of what came before
decides the result. -/
theorem lastMax_append_of_le (h : lastMax key r = some b)
    (hl : ∀ a ∈ l, key a ≤ key b) : lastMax key (l ++ r) = some b := by
  obtain ⟨before, after, rfl, hbefore, hafter⟩ := (lastMax_eq_some_iff key).mp h
  refine (lastMax_eq_some_iff key).mpr ⟨l ++ before, after, by simp, fun y hy => ?_, hafter⟩
  rcases mem_append.mp hy with hy | hy
  · exact hl y hy
  · exact hbefore y hy

/-- A result from the first part of a list exceeds all of the second part. -/
theorem lastMax_of_append (h : lastMax key (l ++ r) = some x)
    (hx : x ∉ r) : lastMax key l = some x ∧ ∀ y ∈ r, key y < key x := by
  obtain ⟨a, b, hsplit, ha, hb⟩ := (lastMax_eq_some_iff key).mp h
  rcases append_eq_append_cons hsplit with ⟨zs, rfl, rfl⟩ | hmem
  · refine ⟨(lastMax_eq_some_iff key).mpr ⟨a, zs, rfl, ha, fun y hy => hb y ?_⟩,
      fun y hy => hb y ?_⟩
    · exact mem_append_left r hy
    · exact mem_append_right zs hy
  · exact absurd hmem hx

/-- Elements below the greatest key may be left out. -/
theorem lastMax_filter (h : lastMax key l = some b)
    (hf : ∀ a ∈ l, key a = key b → f a = true) : lastMax key (l.filter f) = some b := by
  have hb := hf b (lastMax_mem key h) rfl
  obtain ⟨before, after, rfl, hbefore, hafter⟩ := (lastMax_eq_some_iff key).mp h
  refine (lastMax_eq_some_iff key).mpr ⟨before.filter f, after.filter f, ?_, ?_, ?_⟩
  · rw [filter_append, filter_cons_of_pos hb]
  · exact fun y hy => hbefore y (mem_filter.mp hy).1
  · exact fun y hy => hafter y (mem_filter.mp hy).1

/-- A map entry that holds the greatest key so far holds it again after it is
raised to the key of the next element. -/
theorem get?_raise_of_lastMax [DecidableEq κ] {m : GoMap κ Nat} {k : κ}
    {l : List α} (h : m.get? k = (lastMax key l).map key) (a : α) :
    (m.raise k (key a)).get? k = (lastMax key (l ++ [a])).map key := by
  rw [lastMax_append_singleton, GoMap.raise, GoMap.getD_eq, h]
  cases hl : lastMax key l with
  | none => simp [keepMax]
  | some b =>
    rw [hl] at h
    by_cases hle : key b ≤ key a
    · simp [keepMax, hle]
    · simpa [keepMax, hle] using h

end Kar.Lib
