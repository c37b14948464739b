import Mathlib.Data.List.Nodup
import Mathlib.Logic.Function.Basic

/-!
# Stacks of nested calls

A logical thread is a stack of calls: each call but the innermost one waits for the call above
it.  `CallStacks ι κ σ` has a stack of calls `ι` for each logical thread `κ`, and for each open
call its thread and the spot `σ` where it is.  `Inv exec` says that these agree, and that the
calls that wait for another one are where a call can wait, a spot that satisfies `exec`.

So a call at a spot that is not `exec` is the innermost one of its thread
(`Inv.head_of_not_exec`), and any other open call of the thread is one that it is nested in
(`Inv.mem_tail`).
-/

namespace Kar.Lib

open List

structure CallStacks (ι κ σ : Type) where
  /-- The calls of a thread, the innermost one first. -/
  stack : κ → List ι
  /-- The thread and the spot of an open call. -/
  spot : ι → Option (κ × σ)

namespace CallStacks

def empty : CallStacks ι κ σ where
  stack := fun _ => []
  spot := fun _ => none

structure Inv (c : CallStacks ι κ σ) (exec : σ → Prop) : Prop where
  mem : ∀ k i, i ∈ c.stack k ↔ ∃ x, c.spot i = some (k, x)
  nodup : ∀ k, (c.stack k).Nodup
  outer : ∀ k i x, i ∈ (c.stack k).tail → c.spot i = some (k, x) → exec x

variable {c : CallStacks ι κ σ}

namespace Inv

theorem init : Inv (empty : CallStacks ι κ σ) exec := by
  constructor <;> simp [empty]

theorem head_of_not_exec (h : Inv c exec) (hi : c.spot i = some (k, x)) (hx : ¬exec x) :
    (c.stack k).head? = some i := by
  have hmem := (h.mem k i).mpr ⟨x, hi⟩
  cases hstack : c.stack k with
  | nil => simp [hstack] at hmem
  | cons =>
    rw [hstack, mem_cons] at hmem
    rcases hmem with rfl | htail
    · rfl
    · exact absurd (h.outer k i x (by rw [hstack]; exact htail) hi) hx

/-- A call of the thread other than the innermost one. -/
theorem mem_tail (h : Inv c exec) (hi : c.spot i = some (k, x))
    (hj : (c.stack k).head? = some j) (hne : i ≠ j) : i ∈ (c.stack k).tail := by
  have hmem := (h.mem k i).mpr ⟨x, hi⟩
  cases hstack : c.stack k with
  | nil => simp [hstack] at hmem
  | cons =>
    rw [hstack] at hmem hj
    rw [head?_cons, Option.some.injEq] at hj
    subst hj
    exact (mem_cons.mp hmem).resolve_left hne

/-- The innermost call does not wait for another one. -/
theorem not_mem_tail (h : Inv c exec) (hi : (c.stack k).head? = some i) :
    i ∉ (c.stack k).tail := by
  have hnodup := h.nodup k
  cases hstack : c.stack k with
  | nil => simp
  | cons =>
    rw [hstack, head?_cons, Option.some.injEq] at hi
    rw [hstack] at hnodup
    subst hi
    exact (nodup_cons.mp hnodup).1

/-- The spots of the calls that wait for another one are still good. -/
theorem mono (h : Inv c exec) (hexec : ∀ k i x, i ∈ (c.stack k).tail → c.spot i = some (k, x) →
    exec x → exec' x) : Inv c exec' :=
  { h with outer := fun k i x hi hx => hexec k i x hi hx (h.outer k i x hi hx) }

end Inv

/-! ## Opening, moving and closing a call -/

section Operations

variable [DecidableEq ι]

/-- The open call `i` goes to the spot `x`. -/
def move (c : CallStacks ι κ σ) (i : ι) (x : σ) : CallStacks ι κ σ :=
  match c.spot i with
  | some (k, _) => { c with spot := Function.update c.spot i (some (k, x)) }
  | none => c

theorem spot_move (h : c.spot i = some (k, y)) (x : σ) (j : ι) :
    (c.move i x).spot j = if j = i then some (k, x) else c.spot j := by
  simp only [move, h]
  exact Function.update_apply ..

theorem stack_move : (c.move i x).stack = c.stack := by
  unfold move
  split <;> rfl

theorem Inv.move (h : Inv c exec) (hi : c.spot i = some (k, y))
    (hx : exec x ∨ (c.stack k).head? = some i) : Inv (c.move i x) exec := by
  refine ⟨fun k' j => ?_, fun k' => ?_, fun k' j z hj hz => ?_⟩
  · rw [stack_move, spot_move hi, h.mem k' j]
    by_cases hji : j = i
    · subst hji
      simp [hi]
    · rw [if_neg hji]
  · rw [stack_move]
    exact h.nodup k'
  rw [stack_move] at hj
  rw [spot_move hi] at hz
  split at hz
  · rename_i hji
    subst hji
    obtain ⟨rfl, rfl⟩ := Prod.mk.inj (Option.some.inj hz)
    exact hx.resolve_right fun hhead => h.not_mem_tail hhead hj
  · exact h.outer k' j z hj hz

variable [DecidableEq κ]

/-- The thread `k` opens the call `i`. -/
def push (c : CallStacks ι κ σ) (k : κ) (i : ι) (x : σ) : CallStacks ι κ σ where
  stack := Function.update c.stack k (i :: c.stack k)
  spot := Function.update c.spot i (some (k, x))

theorem spot_push (c : CallStacks ι κ σ) (k : κ) (i : ι) (x : σ) (j : ι) :
    (c.push k i x).spot j = if j = i then some (k, x) else c.spot j :=
  Function.update_apply ..

theorem stack_push :
    (c.push k i x).stack k' = if k' = k then i :: c.stack k else c.stack k' :=
  Function.update_apply ..

theorem Inv.push (h : Inv c exec) (hi : c.spot i = none)
    (hhead : ∀ j x, (c.stack k).head? = some j → c.spot j = some (k, x) → exec x) :
    Inv (c.push k i x) exec := by
  have hnew : ∀ k', i ∉ c.stack k' := by
    intro k' hmem
    obtain ⟨y, hy⟩ := (h.mem k' i).mp hmem
    simp [hi] at hy
  refine ⟨fun k' j => ?_, fun k' => ?_, fun k' j y hj hy => ?_⟩
  · rw [stack_push, spot_push]
    by_cases hji : j = i
    · subst hji
      by_cases hk : k' = k
      · simp [hk]
      · simp [hk, Ne.symm hk, hnew k']
    · rw [if_neg hji, ← h.mem k' j]
      by_cases hk : k' = k
      · simp [hk, hji]
      · simp [hk]
  · rw [stack_push]
    split
    · exact nodup_cons.mpr ⟨hnew k, h.nodup k⟩
    · exact h.nodup k'
  · rw [stack_push] at hj
    rw [spot_push] at hy
    split at hj
    · rename_i hk
      subst hk
      have hmem : j ∈ c.stack k' := hj
      rw [if_neg (fun hji : j = i => hnew k' (hji ▸ hmem))] at hy
      cases hstack : (c.stack k').head? with
      | none => simp [head?_eq_none_iff.mp hstack] at hmem
      | some head =>
        by_cases hjhead : j = head
        · exact hhead j y (hjhead ▸ hstack) hy
        · exact h.outer k' j y (h.mem_tail hy hstack hjhead) hy
    · rw [if_neg (fun hji : j = i => hnew k' (hji ▸ mem_of_mem_tail hj))] at hy
      exact h.outer k' j y hj hy

/-- The call `i` is over. -/
def pop (c : CallStacks ι κ σ) (i : ι) : CallStacks ι κ σ :=
  match c.spot i with
  | some (k, _) => {
      stack := Function.update c.stack k ((c.stack k).erase i)
      spot := Function.update c.spot i none }
  | none => c

theorem spot_pop (h : c.spot i = some (k, y)) (j : ι) :
    (c.pop i).spot j = if j = i then none else c.spot j := by
  simp only [pop, h]
  exact Function.update_apply ..

theorem stack_pop (h : c.spot i = some (k, y)) :
    (c.pop i).stack k' = if k' = k then (c.stack k).erase i else c.stack k' := by
  simp only [pop, h]
  exact Function.update_apply ..

theorem Inv.pop (h : Inv c exec) (hi : c.spot i = some (k, y))
    (hhead : (c.stack k).head? = some i) : Inv (c.pop i) exec := by
  have htail : (c.stack k).erase i = (c.stack k).tail := by
    cases hstack : c.stack k with
    | nil => rfl
    | cons =>
      rw [hstack, head?_cons, Option.some.injEq] at hhead
      rw [hhead, erase_cons_head, tail_cons]
  refine ⟨fun k' j => ?_, fun k' => ?_, fun k' j z hj hz => ?_⟩
  · rw [stack_pop hi, spot_pop hi]
    by_cases hji : j = i
    · subst hji
      rw [if_pos rfl]
      simp only [reduceCtorEq, exists_false, iff_false]
      split
      · exact fun hmem => (h.nodup k).not_mem_erase hmem
      rename_i hk
      intro hmem
      obtain ⟨z, hz⟩ := (h.mem k' j).mp hmem
      rw [hi] at hz
      exact hk (Prod.mk.inj (Option.some.inj hz)).1.symm
    · rw [if_neg hji, ← h.mem k' j]
      split
      · rename_i hk
        rw [hk, mem_erase_of_ne hji]
      · rfl
  · rw [stack_pop hi]
    split
    · exact (h.nodup k).erase i
    · exact h.nodup k'
  · rw [stack_pop hi] at hj
    rw [spot_pop hi] at hz
    split at hz
    · simp at hz
    refine h.outer k' j z ?_ hz
    split at hj
    · rename_i hk
      rw [hk]
      rw [htail] at hj
      exact mem_of_mem_tail hj
    · exact hj

end Operations

end CallStacks

end Kar.Lib
