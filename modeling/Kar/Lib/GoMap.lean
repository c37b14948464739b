import Mathlib.Logic.Function.Basic

/-!
# Maps that are read with a default

The maps of Go programs.  A read of an absent key does not fail: it gives the
zero value of the value type, and the two-result form of the read tells an
absent key from a present one.  A map is a partial function here, so two maps
with the same reads are equal and no iteration order is visible.

`set` is `Function.update` at a present value.  The lemmas below are the
rewriting rules that the proofs about a filled map use.  A map that a loop fills
is `ofList`: with distinct keys, the order of the assignments does not matter.
-/

namespace Kar.Lib

open List

/-- A map from `κ` to `ν`.  An absent key reads as `none`. -/
def GoMap (κ ν : Type) : Type := κ → Option ν

namespace GoMap

/-- The map with no key. -/
def empty : GoMap κ ν := fun _ => none

/-- The two-result read `v, ok := m[k]`. -/
def get? (m : GoMap κ ν) (k : κ) : Option ν := m k

/-- The one-result read `m[k]`, with the zero value `d` of the value type. -/
def getD (m : GoMap κ ν) (k : κ) (d : ν) : ν := (m k).getD d

/-- Whether `k` is present: the second result of the two-result read. -/
def has (m : GoMap κ ν) (k : κ) : Bool := (m k).isSome

/-- The assignment `m[k] = v`. -/
def set [DecidableEq κ] (m : GoMap κ ν) (k : κ) (v : ν) : GoMap κ ν :=
  Function.update m k (some v)

/-- The call `delete(m, k)`. -/
def delete [DecidableEq κ] (m : GoMap κ ν) (k : κ) : GoMap κ ν :=
  Function.update m k none

/-- The conditional assignment `if m[k] <= n { m[k] = n }`. -/
def raise [DecidableEq κ] (m : GoMap κ Nat) (k : κ) (n : Nat) : GoMap κ Nat :=
  if m.getD k 0 ≤ n then m.set k n else m

@[simp] theorem get?_empty (k : κ) : (empty : GoMap κ ν).get? k = none := rfl

@[simp] theorem has_empty : (empty : GoMap κ ν).has k = false := rfl

theorem getD_eq (m : GoMap κ ν) (k : κ) (d : ν) : m.getD k d = (m.get? k).getD d := rfl

theorem has_eq (m : GoMap κ ν) (k : κ) : m.has k = (m.get? k).isSome := rfl

variable [DecidableEq κ]

theorem get?_set (m : GoMap κ ν) (k k' : κ) (v : ν) :
    (m.set k v).get? k' = if k' = k then some v else m.get? k' :=
  Function.update_apply (β := Option ν) m k (some v) k'

@[simp] theorem get?_set_self (m : GoMap κ ν) (k : κ) (v : ν) :
    (m.set k v).get? k = some v := by
  rw [get?_set, if_pos rfl]

theorem get?_set_of_ne (m : GoMap κ ν) (h : k' ≠ k) (v : ν) :
    (m.set k v).get? k' = m.get? k' := by
  rw [get?_set, if_neg h]

theorem has_set (m : GoMap κ ν) (k k' : κ) (v : ν) :
    (m.set k v).has k' = (decide (k' = k) || m.has k') := by
  rw [has_eq, get?_set, has_eq]
  by_cases h : k' = k <;> simp [h]

theorem get?_raise_of_ne (m : GoMap κ Nat) (h : k' ≠ k) (n : Nat) :
    (m.raise k n).get? k' = m.get? k' := by
  unfold raise
  split
  · exact get?_set_of_ne m h n
  · rfl

/-- The map that a list of assignments fills. -/
def ofList (l : List (κ × ν)) : GoMap κ ν := l.foldl (fun m p => m.set p.1 p.2) empty

@[simp] theorem get?_ofList_nil : (ofList [] : GoMap κ ν).get? k = none := rfl

theorem get?_foldl_set (l : List (κ × ν)) (m : GoMap κ ν) (k : κ) :
    (l.foldl (fun m p => m.set p.1 p.2) m).get? k = ((ofList l).get? k).or (m.get? k) := by
  induction l generalizing m with
  | nil => simp
  | cons p l ih =>
    have hcons : (ofList (p :: l)).get? k = ((ofList l).get? k).or ((empty.set p.1 p.2).get? k) :=
      ih _
    rw [foldl_cons, ih, hcons, Option.or_assoc, get?_set, get?_set]
    split <;> rfl

theorem get?_ofList_cons (k' : κ) (v : ν) (l : List (κ × ν)) (k : κ) :
    (ofList ((k', v) :: l)).get? k = ((ofList l).get? k).or (if k = k' then some v else none) := by
  rw [ofList, foldl_cons, get?_foldl_set, get?_set, get?_empty]

theorem get?_ofList_append (l l' : List (κ × ν)) (k : κ) :
    (ofList (l ++ l')).get? k = ((ofList l').get? k).or ((ofList l).get? k) := by
  rw [ofList, foldl_append, get?_foldl_set]
  rfl

theorem get?_ofList_eq_none {k : κ} (h : k ∉ l.map Prod.fst) :
    (ofList l).get? k = none := by
  induction l with
  | nil => rfl
  | cons p l ih =>
    rw [map_cons, mem_cons, not_or] at h
    rw [get?_ofList_cons, ih h.2, if_neg h.1]
    rfl

theorem get?_ofList_of_mem (hnodup : (l.map Prod.fst).Nodup) {k : κ} {v : ν}
    (h : (k, v) ∈ l) : (ofList l).get? k = some v := by
  induction l with
  | nil => simp at h
  | cons p l ih =>
    rw [map_cons, nodup_cons] at hnodup
    rw [get?_ofList_cons]
    rcases mem_cons.mp h with rfl | hmem
    · rw [get?_ofList_eq_none hnodup.1, if_pos rfl]
      rfl
    · rw [ih hnodup.2 hmem]
      rfl

/-- Assignments to distinct keys can be made in any order. -/
theorem ofList_perm {l l' : List (κ × ν)} (h : l.Perm l') (hnodup : (l.map Prod.fst).Nodup) :
    ofList l = ofList l' := by
  funext k
  show (ofList l).get? k = (ofList l').get? k
  by_cases hk : k ∈ l.map Prod.fst
  · obtain ⟨⟨k, v⟩, hmem, rfl⟩ := mem_map.mp hk
    rw [get?_ofList_of_mem hnodup hmem,
      get?_ofList_of_mem ((h.map _).nodup_iff.mp hnodup) (h.mem_iff.mp hmem)]
  · rw [get?_ofList_eq_none hk, get?_ofList_eq_none (fun hk' => hk ((h.map _).mem_iff.mpr hk'))]

theorem get?_delete (m : GoMap κ ν) (k k' : κ) :
    (m.delete k).get? k' = if k' = k then none else m.get? k' :=
  Function.update_apply (β := Option ν) m k none k'

end GoMap

end Kar.Lib
