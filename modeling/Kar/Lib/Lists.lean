import Mathlib.Data.List.Forall2
import Mathlib.Order.Basic
import Kar.Lib.GoMap

/-!
# Lists of a loop

First occurrences: a loop that remembers in a map which keys it has seen, and
acts on a key only the first time it meets it.  `firsts` lists the keys it acts
on.  With nothing seen at the start this is `List.eraseDups`, which keeps the
first occurrence of each element.

Picking an element: an index modulo the length picks an element.

Related lists: in two lists that a relation links element by element, each
element of one list has a partner in the other.

Sorted lists: a sorted part of a sorted list that has no gaps is a prefix.
-/

namespace Kar.Lib

open List

variable [DecidableEq κ]

/-- The keys of a list that `seen` does not hold, each at its first occurrence. -/
def firsts (seen : GoMap κ Unit) : List κ → List κ
  | [] => []
  | k :: ks => if seen.has k then firsts seen ks else k :: firsts (seen.set k ()) ks

theorem firsts_eq (seen : GoMap κ Unit) (ks : List κ) :
    firsts seen ks = (ks.filter (fun k => !seen.has k)).eraseDups := by
  induction ks generalizing seen with
  | nil => simp [firsts]
  | cons k _ ih =>
    rw [firsts]
    by_cases hseen : seen.has k = true
    · rw [if_pos hseen, ih, filter_cons_of_neg (by simp [hseen])]
    rw [if_neg hseen, ih, filter_cons_of_pos (by simp [hseen]), eraseDups_cons, filter_filter]
    congr 2
    apply filter_congr
    intro x _
    rw [GoMap.has_set]
    by_cases hx : x = k <;> simp [hx]

theorem firsts_empty (ks : List κ) : firsts .empty ks = ks.eraseDups := by
  rw [firsts_eq, filter_eq_self.mpr (by simp)]

theorem nodup_firsts (seen : GoMap κ Unit) (ks : List κ) :
    (firsts seen ks).Nodup ∧ ∀ k ∈ firsts seen ks, seen.has k = false := by
  induction ks generalizing seen with
  | nil => simp [firsts]
  | cons k ks ih =>
    rw [firsts]
    by_cases hseen : seen.has k = true
    · rw [if_pos hseen]
      exact ih seen
    rw [if_neg hseen]
    obtain ⟨hnodup, hfresh⟩ := ih (seen.set k ())
    have hkeep : ∀ x ∈ firsts (seen.set k ()) ks, x ≠ k ∧ seen.has x = false := by
      intro x hx
      have hnew := hfresh x hx
      rw [GoMap.has_set] at hnew
      simpa using hnew
    refine ⟨nodup_cons.mpr ⟨fun hk => (hkeep k hk).1 rfl, hnodup⟩, ?_⟩
    intro x hx
    rcases mem_cons.mp hx with rfl | hx'
    · simpa using hseen
    · exact (hkeep x hx').2

theorem sublist_of_eq {l l' : List α} (h : l = l') : l.Sublist l' :=
  h ▸ List.Sublist.refl l

theorem getD_mod_mem (a : α) (l : List α) (i : Nat) (d : α) :
    (a :: l).getD (i % (l.length + 1)) d ∈ a :: l := by
  have hlt : i % (l.length + 1) < (a :: l).length := by
    simpa using Nat.mod_lt i (Nat.succ_pos l.length)
  rw [getD_eq_getElem?_getD, getElem?_eq_getElem hlt, Option.getD_some]
  exact getElem_mem hlt

theorem forall₂_mem_left (h : List.Forall₂ R l r) (ha : a ∈ l) : ∃ b ∈ r, R a b := by
  induction h with
  | nil => simp at ha
  | @cons x y l r hxy _ ih =>
    rcases mem_cons.mp ha with rfl | ha'
    · exact ⟨y, mem_cons_self, hxy⟩
    · obtain ⟨b, hb, hab⟩ := ih ha'
      exact ⟨b, mem_cons_of_mem _ hb, hab⟩

theorem forall₂_mem_right (h : List.Forall₂ R l r) (hb : b ∈ r) : ∃ a ∈ l, R a b :=
  forall₂_mem_left h.flip hb

/-- When the keys of a list are distinct, an element is determined by its key. -/
theorem eq_of_nodup_filterMap {f : α → Option β} {l : List α} (h : (l.filterMap f).Nodup)
    {a b : α} {x : β} (ha : a ∈ l) (hb : b ∈ l) (hfa : f a = some x) (hfb : f b = some x) : a = b := by
  induction l with
  | nil => simp at ha
  | cons c l ih =>
    have hmem : ∀ d ∈ l, f d = some x → x ∈ l.filterMap f :=
      fun d hd hfd => mem_filterMap.mpr ⟨d, hd, hfd⟩
    cases hfc : f c with
    | none =>
      rw [filterMap_cons_none hfc] at h
      have hne : ∀ d, f d = some x → d ≠ c := by
        rintro d hfd rfl
        simp [hfc] at hfd
      exact ih h ((mem_cons.mp ha).resolve_left (hne a hfa))
        ((mem_cons.mp hb).resolve_left (hne b hfb))
    | some =>
      rw [filterMap_cons_some hfc, nodup_cons] at h
      rcases mem_cons.mp ha with rfl | ha' <;> rcases mem_cons.mp hb with rfl | hb'
      · rfl
      · rw [hfa, Option.some.injEq] at hfc
        exact absurd (hmem b hb' hfb) (hfc ▸ h.1)
      · rw [hfb, Option.some.injEq] at hfc
        exact absurd (hmem a ha' hfa) (hfc ▸ h.1)
      · exact ih h.2 ha' hb'

/-- An element of an append is in the first list or in the second one, with what comes
after it. -/
theorem append_eq_append_cons (h : l ++ r = xs ++ a :: ys) :
    (∃ zs, l = xs ++ a :: zs ∧ ys = zs ++ r) ∨ a ∈ r := by
  rcases append_eq_append_iff.mp h with ⟨zs, -, hr⟩ | ⟨zs, hl, hr⟩
  · right
    rw [hr]
    exact mem_append_right zs mem_cons_self
  cases zs with
  | nil =>
    right
    rw [← nil_append r, ← hr]
    exact mem_cons_self
  | cons z zs =>
    rw [cons_append, cons.injEq] at hr
    left
    exact ⟨zs, by rw [hl, hr.1], hr.2⟩

/-- The element of a list without repetitions that is selected alone. -/
theorem filter_eq_singleton {l : List α} (hnodup : l.Nodup) {p : α → Bool} {a : α}
    (ha : a ∈ l) (hp : ∀ b ∈ l, p b = true ↔ b = a) : l.filter p = [a] := by
  induction l with
  | nil => simp at ha
  | cons b l ih =>
    rw [nodup_cons] at hnodup
    rcases mem_cons.mp ha with rfl | ha
    · have hrest : l.filter p = [] := by
        rw [filter_eq_nil_iff]
        intro c hc hpc
        exact hnodup.1 ((hp c (mem_cons_of_mem _ hc)).mp hpc ▸ hc)
      rw [filter_cons, if_pos ((hp a mem_cons_self).mpr rfl), hrest]
    · have hb : ¬ p b = true := by
        intro hpb
        exact hnodup.1 ((hp b mem_cons_self).mp hpb ▸ ha)
      rw [filter_cons, if_neg hb]
      exact ih hnodup.2 ha fun c hc => hp c (mem_cons_of_mem b hc)

section Update

variable {ι κ β : Type*} [DecidableEq κ] (key : ι → κ) (val : ι → β)

/-- A table that is filled entry by entry. -/
theorem foldl_update_of_not_mem {l : List ι} {k : κ} (hk : k ∉ l.map key) (f : κ → β) :
    l.foldl (fun f i => Function.update f (key i) (val i)) f k = f k := by
  induction l generalizing f with
  | nil => rfl
  | cons i l ih =>
    rw [map_cons, mem_cons, not_or] at hk
    rw [foldl_cons, ih hk.2, Function.update_of_ne hk.1]

theorem foldl_update_of_mem {l : List ι} (hnodup : (l.map key).Nodup) {i : ι} (hi : i ∈ l)
    (f : κ → β) : l.foldl (fun f i => Function.update f (key i) (val i)) f (key i) = val i := by
  induction l generalizing f with
  | nil => simp at hi
  | cons j l ih =>
    rw [map_cons, nodup_cons] at hnodup
    rw [foldl_cons]
    rcases mem_cons.mp hi with rfl | hi
    · rw [foldl_update_of_not_mem key val hnodup.1, Function.update_self]
    · exact ih hnodup.2 hi _

end Update

/-- A sorted part of a sorted list that has no gaps is a prefix. -/
theorem prefix_of_sorted [Preorder α] {l r : List α} (hl : l.Pairwise (· < ·))
    (hr : r.Pairwise (· < ·)) (hsub : ∀ a ∈ l, a ∈ r) (hdown : ∀ a ∈ l, ∀ b ∈ r, b < a → b ∈ l) :
    l <+: r := by
  induction r generalizing l with
  | nil =>
    cases l with
    | nil => exact prefix_rfl
    | cons a => exact absurd (hsub a mem_cons_self) not_mem_nil
  | cons b r ih =>
    cases l with
    | nil => exact nil_prefix
    | cons a =>
      obtain ⟨hal, hl'⟩ := pairwise_cons.mp hl
      obtain ⟨hbr, hr'⟩ := pairwise_cons.mp hr
      -- The heads agree: `b` is the least element of `r`, and nothing below `a` is missing.
      have hab : a = b := by
        rcases mem_cons.mp (hsub a mem_cons_self) with hab | ha
        · exact hab
        · have hlt := hbr a ha
          rcases mem_cons.mp (hdown a mem_cons_self b mem_cons_self hlt) with hba | hb
          · exact hba.symm
          · exact absurd (hal b hb) (lt_asymm hlt)
      subst hab
      refine cons_prefix_cons.mpr ⟨rfl, ih hl' hr' (fun x hx => ?_) fun x hx y hy hyx => ?_⟩
      · exact (mem_cons.mp (hsub x (mem_cons_of_mem _ hx))).resolve_left (hal x hx).ne'
      · have hmem := hdown x (mem_cons_of_mem _ hx) y (mem_cons_of_mem _ hy) hyx
        exact (mem_cons.mp hmem).resolve_left (hbr y hy).ne'

end Kar.Lib
