import Mathlib.Data.List.Nodup
import Mathlib.Logic.Function.Basic

/-!
# First-fit assignment

Keys without a slot get one each, in order, from a list of slots that is read once:
a slot that is not free is passed over, and one that was given out is not offered
again.  `Assigned` says what has become of the table, whether or not the slots were
enough.
-/

namespace Kar.Lib

open Function

open List

/-- What has a property, and has the property `q` or not. -/
theorem countP_le_add (p q : α → Bool) (as : List α) :
    as.countP p ≤ as.countP (fun a => p a && !q a) + as.countP q := by
  induction as with
  | nil => exact Nat.le_refl 0
  | cons a =>
    simp only [countP_cons]
    cases hp : p a with
    | false =>
      simp only [Bool.false_and, Bool.false_eq_true, if_false]
      omega
    | true =>
      cases hq : q a with
      | false =>
        simp only [Bool.not_false, Bool.and_true, Bool.false_eq_true, if_true, if_false]
        omega
      | true =>
        omega

/-- The first free slot, and the slots after it. -/
def takeFree (free : β → Bool) : List β → Option (β × List β)
  | [] => none
  | b :: bs => if free b then some (b, bs) else takeFree free bs

theorem takeFree_spec (h : takeFree free bs = some (b, bs')) :
    free b = true ∧ ∃ skipped, bs = skipped ++ b :: bs' := by
  induction bs with
  | nil => simp [takeFree] at h
  | cons c _ ih =>
    rw [takeFree] at h
    split at h
    · rename_i hfree
      cases h
      exact ⟨hfree, [], rfl⟩
    · obtain ⟨hfree, skipped, hsplit⟩ := ih h
      exact ⟨hfree, c :: skipped, by rw [hsplit]; rfl⟩

/-- As many free slots are passed as are taken. -/
theorem countP_of_takeFree
    (h : takeFree free bs = some (b, bs')) : bs.countP free = bs'.countP free + 1 := by
  induction bs with
  | nil => simp [takeFree] at h
  | cons _ _ ih =>
    rw [takeFree] at h
    split at h
    · rename_i hfree
      simp only [Option.some.injEq, Prod.mk.injEq] at h
      rw [countP_cons_of_pos hfree, h.2]
    · rename_i hfree
      rw [countP_cons_of_neg hfree, ih h]

theorem countP_of_takeFree_none (h : takeFree free bs = none) :
    bs.countP free = 0 := by
  induction bs with
  | nil => rfl
  | cons _ _ ih =>
    rw [takeFree] at h
    split at h
    · exact absurd h (Option.some_ne_none _)
    · rename_i hfree
      rw [countP_cons_of_neg hfree, ih h]

/-- The table `table'` is `table` with distinct free slots of `bs` for keys of `as`. -/
structure Assigned (free : β → Bool) (unset : β) (as : List α) (bs : List β)
    (table table' : α → β) : Prop where
  kept : ∀ a, table a ≠ unset → table' a = table a
  other : ∀ a, a ∉ as → table' a = table a
  new : ∀ a, table a = unset → table' a ≠ unset → table' a ∈ bs ∧ free (table' a) = true
  inj : ∀ a a', table a = unset → table a' = unset → table' a ≠ unset → table' a = table' a' → a = a'

theorem Assigned.refl (free : β → Bool) (unset : β) (as : List α) (bs : List β) (table : α → β) :
    Assigned free unset as bs table table where
  kept := fun _ _ => rfl
  other := fun _ _ => rfl
  new := fun _ h h' => absurd h h'
  inj := fun _ _ h _ h' => absurd h h'

variable [DecidableEq α]

/-- One key gets a slot, and the others get theirs from the slots after it. -/
theorem Assigned.cons {table table' : α → β} (hunset : unset ∉ bs) (hnodup : bs.Nodup)
    (ha : table a = unset) (htake : takeFree free bs = some (b, bs'))
    (h : Assigned free unset as bs' (update table a b) table') :
    Assigned free unset (a :: as) bs table table' := by
  obtain ⟨hfree, skipped, rfl⟩ := takeFree_spec htake
  have hb : b ∈ skipped ++ b :: bs' := mem_append_right _ mem_cons_self
  have hsub : ∀ c ∈ bs', c ∈ skipped ++ b :: bs' :=
    fun c hc => mem_append_right _ (mem_cons_of_mem b hc)
  have hbne : b ≠ unset := by
    rintro rfl
    exact hunset hb
  have hself : table' a = b := by
    rw [h.kept a (by rwa [update_self]), update_self]
  -- A key that gets its slot later gets another one than `b`.
  have hlater : ∀ c, c ≠ a → table c = unset → table' c ≠ unset →
      table' c ∈ bs' ∧ free (table' c) = true := by
    intro c hne hc hc'
    exact h.new c (by rwa [update_of_ne hne]) hc'
  have hnotmem : b ∉ bs' := (nodup_cons.mp (nodup_append.mp hnodup).2.1).1
  refine ⟨?_, ?_, ?_, ?_⟩
  · intro c hc
    have hne : c ≠ a := by
      rintro rfl
      exact hc ha
    rw [h.kept c (by rwa [update_of_ne hne]), update_of_ne hne]
  · intro c hc
    rw [mem_cons, not_or] at hc
    rw [h.other c hc.2, update_of_ne hc.1]
  · intro c hc hc'
    by_cases hne : c = a
    · rw [hne, hself]
      exact ⟨hb, hfree⟩
    · obtain ⟨hmem, hfree'⟩ := hlater c hne hc hc'
      exact ⟨hsub _ hmem, hfree'⟩
  intro c c' hc hc' hset heq
  by_cases hne : c = a
  · by_cases hne' : c' = a
    · rw [hne, hne']
    · have hmem := (hlater c' hne' hc' (heq ▸ hset)).1
      rw [← heq, hne, hself] at hmem
      exact absurd hmem hnotmem
  · by_cases hne' : c' = a
    · have hmem := (hlater c hne hc hset).1
      rw [heq, hne', hself] at hmem
      exact absurd hmem hnotmem
    · exact h.inj c c' (by rwa [update_of_ne hne]) (by rwa [update_of_ne hne']) hset heq

variable [DecidableEq β]

/-- Every key of the list that has the slot `unset` gets a free one.  The flag is false
when the slots run out. -/
def assignFree (free : β → Bool) (unset : β) :
    List α → List β → (α → β) → Bool × (α → β)
  | [], _, table => (true, table)
  | a :: as, bs, table =>
    if table a = unset then
      match takeFree free bs with
      | some (b, bs') => assignFree free unset as bs' (Function.update table a b)
      | none => (false, table)
    else assignFree free unset as bs table

theorem assignFree_assigned {table table' : α → β} {enough : Bool} (hunset : unset ∉ bs)
    (hnodup : bs.Nodup) (h : assignFree free unset as bs table = (enough, table')) :
    Assigned free unset as bs table table' := by
  induction as generalizing bs table with
  | nil =>
    simp only [assignFree, Prod.mk.injEq] at h
    obtain ⟨-, rfl⟩ := h
    exact .refl free unset [] bs table
  | cons a as ih =>
    rw [assignFree] at h
    split at h
    · rename_i ha
      cases htake : takeFree free bs with
      | none =>
        simp only [htake, Prod.mk.injEq] at h
        obtain ⟨-, rfl⟩ := h
        exact .refl free unset (a :: as) bs table
      | some p =>
        obtain ⟨b, bs'⟩ := p
        simp only [htake] at h
        obtain ⟨-, skipped, rfl⟩ := takeFree_spec htake
        have hsub : bs'.Sublist (skipped ++ b :: bs') :=
          (sublist_cons_self b bs').trans (sublist_append_right skipped _)
        exact .cons hunset hnodup ha htake
          (ih (fun hmem => hunset (hsub.subset hmem)) (hnodup.sublist hsub) h)
    · have h := ih hunset hnodup h
      exact ⟨h.kept, fun c hc => h.other c fun hmem => hc (mem_cons_of_mem a hmem), h.new, h.inj⟩

/-- The slots are enough when there are as many free ones as keys without a slot. -/
theorem assignFree_enough {table : α → β}
    (hnodup : as.Nodup) (hcount : as.countP (fun a => decide (table a = unset)) ≤ bs.countP free) :
    (assignFree free unset as bs table).1 = true := by
  induction as generalizing bs table with
  | nil => rfl
  | cons a as ih =>
    rw [nodup_cons] at hnodup
    rw [assignFree]
    split
    · rename_i ha
      rw [countP_cons_of_pos (by simpa using ha)] at hcount
      cases htake : takeFree free bs with
      | none =>
        rw [countP_of_takeFree_none htake] at hcount
        omega
      | some p =>
        obtain ⟨b, bs'⟩ := p
        apply ih hnodup.2
        have hsame : as.countP (fun c => decide (update table a b c = unset)) =
            as.countP (fun c => decide (table c = unset)) := by
          apply countP_congr
          intro c hc
          have hne : c ≠ a := by
            intro heq
            exact hnodup.1 (heq ▸ hc)
          rw [update_of_ne hne]
        rw [countP_of_takeFree htake] at hcount
        omega
    · rename_i ha
      rw [countP_cons_of_neg (by simpa using ha)] at hcount
      exact ih hnodup.2 hcount

/-- When the slots were enough, every key of the list has one. -/
theorem assignFree_ne {table table' : α → β} (hunset : unset ∉ bs) (hnodup : bs.Nodup)
    (h : assignFree free unset as bs table = (true, table')) {a : α} (ha : a ∈ as) :
    table' a ≠ unset := by
  induction as generalizing bs table with
  | nil => simp at ha
  | cons _ _ ih =>
    rw [assignFree] at h
    split at h
    · cases htake : takeFree free bs with
      | none => simp [htake] at h
      | some p =>
        obtain ⟨b, bs'⟩ := p
        simp only [htake] at h
        obtain ⟨-, skipped, rfl⟩ := takeFree_spec htake
        have hunset' : unset ∉ bs' :=
          fun hmem => hunset (mem_append_right _ (mem_cons_of_mem b hmem))
        have hnodup' : bs'.Nodup := (nodup_cons.mp (nodup_append.mp hnodup).2.1).2
        rcases mem_cons.mp ha with rfl | ha
        · have hb : update table a b a ≠ unset := by
            rw [update_self]
            rintro rfl
            exact hunset (mem_append_right _ mem_cons_self)
          rw [(assignFree_assigned hunset' hnodup' h).kept a hb]
          exact hb
        · exact ih hunset' hnodup' h ha
    · rename_i hc
      rcases mem_cons.mp ha with rfl | ha
      · rw [(assignFree_assigned hunset hnodup h).kept a hc]
        exact hc
      · exact ih hunset hnodup h ha

end Kar.Lib
