import Mathlib

/-!
# Binary heaps

The functions `Push` and `Pop` of Go's `container/heap`, on a list whose elements are compared by
a key.  The children of position `i` are the positions `2 * i + 1` and `2 * i + 2`, and a child is not
less than its parent.  `up` and `down` restore the order when it may fail at one position, by swaps
along one path.

The order is a fact about the ranks of the positions: the key of the element there, and `⊤` past the
end.  A swap of two elements is a swap of two ranks, so the order lemmas are about functions on the
positions.
-/

namespace Kar.Lib.Heap

open List

/-- The parent of a position. -/
def parent (j : Nat) : Nat := (j - 1) / 2

theorem parent_lt (hj : 0 < j) : parent j < j := by
  unfold parent
  omega

/-- A position below the root is a child of its parent. -/
theorem child_of_parent (hj : 0 < j) (h : parent j = i) :
    j = 2 * i + 1 ∨ j = 2 * i + 2 := by
  unfold parent at h
  omega

@[simp] theorem parent_left : parent (2 * i + 1) = i := by
  unfold parent
  omega

@[simp] theorem parent_right : parent (2 * i + 2) = i := by
  unfold parent
  omega

/-! ## Ordered positions -/

section Order

variable [LinearOrder β] {f : Nat → β}

/-- No position is less than its parent. -/
def Ordered (f : Nat → β) : Prop := ∀ k, 0 < k → f (parent k) ≤ f k

/-- The order may fail between `j` and its parent only. -/
structure UpOrdered (f : Nat → β) (j : Nat) : Prop where
  others : ∀ k, 0 < k → k ≠ j → f (parent k) ≤ f k
  grand : ∀ k, 0 < k → parent k = j → 0 < j → f (parent j) ≤ f k

/-- The order may fail between `i` and its children only. -/
structure DownOrdered (f : Nat → β) (i : Nat) : Prop where
  others : ∀ k, 0 < k → parent k ≠ i → f (parent k) ≤ f k
  grand : ∀ k, 0 < k → parent k = i → 0 < i → f (parent i) ≤ f k

/-- The root is the least position. -/
theorem Ordered.root_le (h : Ordered f) (k : Nat) : f 0 ≤ f k := by
  induction k using Nat.strong_induction_on with
  | _ k ih =>
    by_cases hk : 0 < k
    · exact (ih (parent k) (parent_lt hk)).trans (h k hk)
    · have hzero : k = 0 := by omega
      rw [hzero]

theorem UpOrdered.ordered (h : UpOrdered f j) (hj : 0 < j → f (parent j) ≤ f j) : Ordered f := by
  intro k hk
  by_cases hkj : k = j
  · subst hkj
    exact hj hk
  · exact h.others k hk hkj

theorem DownOrdered.ordered (h : DownOrdered f i) (hi : ∀ k, 0 < k → parent k = i → f i ≤ f k) :
    Ordered f := by
  intro k hk
  by_cases hki : parent k = i
  · rw [hki]
    exact hi k hk hki
  · exact h.others k hk hki

/-- A swap with the parent moves the place where the order may fail upwards. -/
theorem UpOrdered.swap (h : UpOrdered f j) (hj : 0 < j) (hlt : f j < f (parent j)) :
    UpOrdered (f ∘ Equiv.swap (parent j) j) (parent j) := by
  have hp := parent_lt hj
  have hself : (f ∘ Equiv.swap (parent j) j) j = f (parent j) := by simp
  have hparent : (f ∘ Equiv.swap (parent j) j) (parent j) = f j := by simp
  have hother : ∀ k, k ≠ parent j → k ≠ j → (f ∘ Equiv.swap (parent j) j) k = f k :=
    fun k hk hk' => congrArg f (Equiv.swap_apply_of_ne_of_ne hk hk')
  constructor
  · intro k hk hkp
    by_cases hkj : k = j
    · subst hkj
      rw [hself, hparent]
      exact hlt.le
    rw [hother k hkp hkj]
    -- A child of `j` has the old parent of `j` above it now, and a sibling of `j` has `j`.
    by_cases hpk : parent k = j
    · rw [hpk, hself]
      exact h.grand k hk hpk hj
    by_cases hpp : parent k = parent j
    · rw [hpp, hparent]
      exact hlt.le.trans (hpp ▸ h.others k hk hkj)
    · rw [hother _ hpp hpk]
      exact h.others k hk hkj
  · intro k hk hkp hpos
    have hpp := parent_lt hpos
    have hup := h.others (parent j) hpos (by omega)
    rw [hother (parent (parent j)) (by omega) (by omega)]
    by_cases hkj : k = j
    · rw [hkj, hself]
      exact hup
    · have hkpar := parent_lt hk
      rw [hother k (by omega) hkj]
      exact hup.trans (hkp ▸ h.others k hk hkj)

/-- A swap with the lesser child moves the place where the order may fail downwards. -/
theorem DownOrdered.swap (h : DownOrdered f i) (hj : 0 < j) (hpj : parent j = i) (hlt : f j < f i)
    (hleast : ∀ k, 0 < k → parent k = i → f j ≤ f k) :
    DownOrdered (f ∘ Equiv.swap i j) j := by
  have hij : i < j := hpj ▸ parent_lt hj
  have hself : (f ∘ Equiv.swap i j) j = f i := by simp
  have hparent : (f ∘ Equiv.swap i j) i = f j := by simp
  have hother : ∀ k, k ≠ i → k ≠ j → (f ∘ Equiv.swap i j) k = f k :=
    fun k hk hk' => congrArg f (Equiv.swap_apply_of_ne_of_ne hk hk')
  constructor
  · intro k hk hkj
    by_cases hki : k = i
    · subst hki
      have hgt := parent_lt hk
      rw [hparent, hother (parent k) (by omega) (by omega)]
      exact h.grand j hj hpj hk
    by_cases hpk : parent k = i
    · rw [hpk, hparent]
      by_cases hkk : k = j
      · rw [hkk, hself]
        exact hlt.le
      · rw [hother k hki hkk]
        exact hleast k hk hpk
    · have hkk : k ≠ j := fun heq => hpk (heq ▸ hpj)
      rw [hother k hki hkk, hother _ hpk hkj]
      exact h.others k hk hpk
  · intro k hk hkj _
    have hgt := parent_lt hk
    rw [hpj, hparent, hother k (by omega) (by omega), ← hkj]
    exact h.others k hk (by omega)

end Order

/-! ## The operations -/

section Operations

variable [LinearOrder κ] (key : α → κ)

def swap (l : List α) (i j : Nat) : List α :=
  match l[i]?, l[j]? with
  | some a, some b => (l.set i b).set j a
  | _, _ => l

def less (l : List α) (i j : Nat) : Bool :=
  match l[i]?, l[j]? with
  | some a, some b => decide (key a < key b)
  | _, _ => false

/-- At most `n` rounds of `up`.  At the root, the position is compared with itself. -/
def up : Nat → List α → Nat → List α
  | 0, l, _ => l
  | n + 1, l, j => if less key l j (parent j) then up n (swap l (parent j) j) (parent j) else l

/-- The child that `down` compares with its parent. -/
def lesserChild (l : List α) (i : Nat) : Nat :=
  if less key l (2 * i + 2) (2 * i + 1) then 2 * i + 2 else 2 * i + 1

/-- At most `n` rounds of `down`. -/
def down : Nat → List α → Nat → List α
  | 0, l, _ => l
  | n + 1, l, i =>
    if less key l (lesserChild key l i) i then
      down n (swap l i (lesserChild key l i)) (lesserChild key l i)
    else l

def push (l : List α) (a : α) : List α := up key l.length (l ++ [a]) l.length

/-- The root and the last element are swapped, and `down` does not reach the last position. -/
def pop : List α → Option (α × List α)
  | [] => none
  | a :: l => some (a, down key l.length (swap (a :: l) 0 l.length).dropLast 0)

/-- The key at a position, and `⊤` past the end. -/
def rank (l : List α) (i : Nat) : WithTop κ := l[i]?.elim ⊤ fun a => (key a : WithTop κ)

/-- The list is in heap order. -/
def IsHeap (l : List α) : Prop := Ordered (rank key l)

variable {key}

theorem swap_perm (l : List α) (i j : Nat) : (swap l i j).Perm l := by
  unfold swap
  split
  · rename_i a b ha hb
    obtain ⟨hi, rfl⟩ := List.getElem?_eq_some_iff.mp ha
    obtain ⟨hj, rfl⟩ := List.getElem?_eq_some_iff.mp hb
    exact List.set_set_perm hi hj
  · exact List.Perm.refl l

theorem length_swap : (swap l i j).length = l.length :=
  (swap_perm l i j).length_eq

omit [LinearOrder κ] in
theorem rank_eq_top (h : l.length ≤ i) : rank key l i = ⊤ := by
  rw [rank, getElem?_eq_none h]
  rfl

omit [LinearOrder κ] in
theorem rank_swap (hi : i < l.length) (hj : j < l.length) :
    rank key (swap l i j) = rank key l ∘ Equiv.swap i j := by
  funext k
  have hget : (swap l i j)[k]? = l[Equiv.swap i j k]? := by
    rw [swap, getElem?_eq_getElem hi, getElem?_eq_getElem hj]
    simp only [getElem?_set, length_set, if_pos hi, if_pos hj]
    by_cases hjk : j = k
    · rw [if_pos hjk, ← hjk, Equiv.swap_apply_right, getElem?_eq_getElem hi]
    · rw [if_neg hjk]
      by_cases hik : i = k
      · rw [if_pos hik, ← hik, Equiv.swap_apply_left, getElem?_eq_getElem hj]
      · rw [if_neg hik, Equiv.swap_apply_of_ne_of_ne (Ne.symm hik) (Ne.symm hjk)]
  show (swap l i j)[k]?.elim ⊤ _ = l[Equiv.swap i j k]?.elim ⊤ _
  rw [hget]

theorem less_iff (h : i < l.length → j < l.length) :
    less key l i j = true ↔ rank key l i < rank key l j := by
  by_cases hi : i < l.length
  · rw [less, rank, rank, getElem?_eq_getElem hi, getElem?_eq_getElem (h hi)]
    simp
  · rw [rank_eq_top (by omega), less, getElem?_eq_none (by omega)]
    simp

theorem less_lt (h : less key l i j = true) : i < l.length ∧ j < l.length := by
  unfold less at h
  split at h
  · rename_i a b ha hb
    exact ⟨(List.getElem?_eq_some_iff.mp ha).1, (List.getElem?_eq_some_iff.mp hb).1⟩
  · simp at h

/-! ## `up` and `down` -/

theorem up_perm (n : Nat) (l : List α) (j : Nat) : (up key n l j).Perm l := by
  induction n generalizing l j with
  | zero => exact List.Perm.refl l
  | succ n ih =>
    rw [up]
    split
    · exact (ih _ _).trans (swap_perm l _ j)
    · exact List.Perm.refl l

theorem down_perm (n : Nat) (l : List α) (i : Nat) : (down key n l i).Perm l := by
  induction n generalizing l i with
  | zero => exact List.Perm.refl l
  | succ n ih =>
    rw [down]
    split
    · exact (ih _ _).trans (swap_perm l i _)
    · exact List.Perm.refl l

theorem up_isHeap (h : UpOrdered (rank key l) j) (hn : j ≤ n) : IsHeap key (up key n l j) := by
  induction n generalizing l j with
  | zero => exact h.ordered fun hj => absurd hn (by omega)
  | succ n ih =>
    have hle : parent j ≤ j := by
      unfold parent
      omega
    rw [up]
    split
    · rename_i hless
      obtain ⟨hj, hp⟩ := less_lt hless
      have hlt := (less_iff fun _ => hp).mp hless
      have hpos : 0 < j := by
        apply Nat.pos_of_ne_zero
        intro hzero
        subst hzero
        exact lt_irrefl _ hlt
      have hgt := parent_lt hpos
      apply ih
      · rw [rank_swap hp hj]
        exact h.swap hpos hlt
      · omega
    · rename_i hless
      rw [less_iff fun hj => by omega, not_lt] at hless
      exact h.ordered fun _ => hless

/-- The child that `down` takes is the lesser one. -/
theorem rank_lesserChild_le (hk : 0 < k) (hp : parent k = i) :
    rank key l (lesserChild key l i) ≤ rank key l k := by
  have hless : less key l (2 * i + 2) (2 * i + 1) = true ↔
      rank key l (2 * i + 2) < rank key l (2 * i + 1) := less_iff fun h => by omega
  unfold lesserChild
  rcases child_of_parent hk hp with rfl | rfl
  · split
    · rename_i h
      exact (hless.mp h).le
    · exact le_rfl
  · split
    · exact le_rfl
    · rename_i h
      rw [hless, not_lt] at h
      exact h

theorem parent_lesserChild : parent (lesserChild key l i) = i := by
  unfold lesserChild
  split
  · exact parent_right
  · exact parent_left

theorem lt_lesserChild : i < lesserChild key l i := by
  unfold lesserChild
  split <;> omega

theorem down_isHeap (h : DownOrdered (rank key l) i) (hn : l.length ≤ n + i) :
    IsHeap key (down key n l i) := by
  induction n generalizing l i with
  | zero =>
    refine h.ordered fun k hk hp => ?_
    have hgt := parent_lt hk
    rw [rank_eq_top (by omega : l.length ≤ k)]
    exact le_top
  | succ n ih =>
    have hgt : i < lesserChild key l i := lt_lesserChild
    rw [down]
    split
    · rename_i hless
      obtain ⟨hj, hi⟩ := less_lt hless
      have hlt := (less_iff fun _ => hi).mp hless
      apply ih
      · rw [rank_swap hi hj]
        exact h.swap (by omega) (parent_lesserChild) hlt fun k => rank_lesserChild_le
      · rw [length_swap]
        omega
    · rename_i hless
      rw [less_iff fun hj => by omega, not_lt] at hless
      exact h.ordered fun k hk hp => hless.trans (rank_lesserChild_le hk hp)

/-! ## `push` and `pop` -/

theorem push_perm (l : List α) (a : α) : (push key l a).Perm (a :: l) :=
  (up_perm ..).trans (perm_append_singleton a l)

theorem push_isHeap (h : IsHeap key l) (a : α) : IsHeap key (push key l a) := by
  have htop : ∀ k, l.length < k → rank key (l ++ [a]) k = ⊤ := by
    intro k hk
    apply rank_eq_top
    simp
    omega
  have hlow : ∀ k < l.length, rank key (l ++ [a]) k = rank key l k := by
    intro k hk
    rw [rank, rank, getElem?_append_left hk]
  refine up_isHeap ⟨fun k hk hne => ?_, fun k hk hp _ => ?_⟩ le_rfl
  · have hgt := parent_lt hk
    by_cases hlt : k < l.length
    · rw [hlow k hlt, hlow (parent k) (by omega)]
      exact h k hk
    · rw [htop k (by omega)]
      exact le_top
  · have hgt := parent_lt hk
    rw [htop k (by omega)]
    exact le_top

/-- The list without its root, with the last element in the place of the root. -/
theorem swap_root (a : α) (l : List α) :
    (swap (a :: l) 0 l.length).dropLast ++ [a] = swap (a :: l) 0 l.length := by
  refine dropLast_append_getLast? a ?_
  rw [Option.mem_def, getLast?_eq_getElem?, length_swap]
  have hlast : l.length < (a :: l).length := by simp
  rw [swap, getElem?_cons_zero, getElem?_eq_getElem hlast]
  simp

theorem pop_perm (h : pop key (a :: l) = some (b, rest)) :
    b = a ∧ rest.Perm l := by
  rw [pop, Option.some.injEq, Prod.mk.injEq] at h
  obtain ⟨rfl, rfl⟩ := h
  refine ⟨rfl, (down_perm ..).trans ?_⟩
  have hperm := swap_perm (a :: l) 0 l.length
  rw [← swap_root a l] at hperm
  exact List.Perm.cons_inv ((perm_append_singleton a _).symm.trans hperm)

theorem pop_isHeap (hheap : IsHeap key (a :: l))
    (h : pop key (a :: l) = some (b, rest)) : IsHeap key rest := by
  rw [pop, Option.some.injEq, Prod.mk.injEq] at h
  obtain ⟨rfl, rfl⟩ := h
  have hlen : (swap (a :: l) 0 l.length).dropLast.length = l.length := by
    rw [length_dropLast, length_swap]
    simp
  have hkeep : ∀ k, 0 < k → k < l.length →
      rank key (swap (a :: l) 0 l.length).dropLast k = rank key (a :: l) k := by
    intro k hk hlt
    have hdrop : rank key (swap (a :: l) 0 l.length).dropLast k =
        rank key (swap (a :: l) 0 l.length) k := by
      rw [rank, rank, getElem?_dropLast, if_pos (by rw [length_swap]; simpa using hlt)]
    rw [hdrop, rank_swap (by simp) (by simp)]
    exact congrArg _ (Equiv.swap_apply_of_ne_of_ne (by omega) (by omega))
  refine down_isHeap ⟨fun k hk hp => ?_, fun k _ _ h0 => absurd h0 (by omega)⟩ (by omega)
  have hgt := parent_lt hk
  by_cases hlt : k < l.length
  · rw [hkeep k hk hlt, hkeep (parent k) (by omega) (by omega)]
    exact hheap k hk
  · rw [rank_eq_top (by omega : (swap (a :: l) 0 l.length).dropLast.length ≤ k)]
    exact le_top

/-- The root of a heap has the least key. -/
theorem IsHeap.root_le (h : IsHeap key (a :: l)) (hb : b ∈ a :: l) :
    key a ≤ key b := by
  obtain ⟨k, hk, rfl⟩ := mem_iff_getElem.mp hb
  have hle := Ordered.root_le h k
  rw [rank, rank, getElem?_cons_zero, getElem?_eq_getElem hk] at hle
  exact WithTop.coe_le_coe.mp hle

theorem isHeap_nil : IsHeap key ([] : List α) := by
  intro k _
  rw [rank_eq_top (by simp : ([] : List α).length ≤ k)]
  exact le_top

end Operations

end Kar.Lib.Heap
