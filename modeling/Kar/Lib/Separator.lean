import Mathlib

/-!
# Names joined by a separator

Two names joined by a separator, `a ++ c :: b`.  The join is injective only as long as the first
name is free of the separator: `append_sep_inj_iff` says exactly which pairs of names are joined
to one list.  Either the pairs are equal, or one first name extends the other one by a separator
and the second names make up for it.

The readers of such lists are `cut`, which takes a list apart at its first separator, and
`List.splitOn`, which takes it apart at every separator.

The second half carries the facts over to strings.
-/

namespace Kar.Lib

open List

/-! ## Lists -/

section Lists

variable {a a' b b' : List α}

/-- The pairs of names with one join. -/
theorem append_sep_inj_iff :
    a ++ c :: b = a' ++ c :: b' ↔ (a = a' ∧ b = b') ∨ (∃ x, a' = a ++ c :: x ∧ b = x ++ c :: b') ∨ ∃
      x, a = a' ++ c :: x ∧ b' = x ++ c :: b := by
  rw [append_eq_append_iff]
  constructor
  · intro h
    rcases h with ⟨x, ha, hb⟩ | ⟨x, ha, hb⟩
    · cases x with
      | nil =>
        simp only [nil_append, cons.injEq, true_and, append_nil] at ha hb
        exact .inl ⟨ha.symm, hb⟩
      | cons d x =>
        simp only [cons_append, cons.injEq] at hb
        exact .inr (.inl ⟨x, by rw [ha, hb.1], hb.2⟩)
    · cases x with
      | nil =>
        simp only [nil_append, cons.injEq, true_and, append_nil] at ha hb
        exact .inl ⟨ha, hb.symm⟩
      | cons d x =>
        simp only [cons_append, cons.injEq] at hb
        exact .inr (.inr ⟨x, by rw [ha, hb.1], hb.2⟩)
  · intro h
    rcases h with ⟨ha, hb⟩ | ⟨x, ha, hb⟩ | ⟨x, ha, hb⟩
    · exact .inl ⟨[], by simp [ha], by simp [hb]⟩
    · exact .inl ⟨c :: x, ha, by simp [hb]⟩
    · exact .inr ⟨c :: x, ha, by simp [hb]⟩

/-- A first name that is free of the separator is not extended by another such name. -/
theorem append_sep_inj (ha : c ∉ a) (ha' : c ∉ a') :
    a ++ c :: b = a' ++ c :: b' ↔ a = a' ∧ b = b' := by
  rw [append_sep_inj_iff]
  constructor
  · intro h
    rcases h with h | ⟨x, hx, -⟩ | ⟨x, hx, -⟩
    · exact h
    · exact absurd (by simp [hx]) ha'
    · exact absurd (by simp [hx]) ha
  · exact .inl

/-- A list taken apart at its first separator. -/
def cut [DecidableEq α] (c : α) : List α → Option (List α × List α)
  | [] => none
  | d :: l => if d = c then some ([], l) else (cut c l).map fun ab => (d :: ab.1, ab.2)

variable [DecidableEq α]

/-- `cut` undoes a join whose first name is free of the separator. -/
theorem cut_append_sep (ha : c ∉ a) : cut c (a ++ c :: b) = some (a, b) := by
  induction a with
  | nil => simp [cut]
  | cons d a ih =>
    simp only [mem_cons, not_or] at ha
    simp [cut, ih ha.2, Ne.symm ha.1]

/-- What `cut` returns is a join, and its first name is free of the separator. -/
theorem cut_eq_some (h : cut c l = some (a, b)) : c ∉ a ∧ l = a ++ c :: b := by
  induction l generalizing a with
  | nil => simp [cut] at h
  | cons d l ih =>
    rw [cut] at h
    split at h
    · simp_all
    · obtain ⟨⟨a₁, b₁⟩, hcut, hab⟩ := Option.map_eq_some_iff.mp h
      cases hab
      obtain ⟨hnot, rfl⟩ := ih hcut
      exact ⟨by simp [hnot, Ne.symm ‹d ≠ c›], rfl⟩

/-- Exactly the joins have a first separator. -/
theorem cut_isSome : (cut c (a ++ c :: b)).isSome := by
  induction a with
  | nil => simp [cut]
  | cons d a ih =>
    simp only [cons_append, cut]
    split
    · rfl
    · rw [Option.isSome_map]
      exact ih

theorem splitOn_of_notMem (ha : c ∉ a) : a.splitOn c = [a] := by
  refine splitOnP_eq_singleton fun x hx => ?_
  simp only [beq_eq_false_iff_ne, ne_eq]
  intro h
  exact ha (h ▸ hx)

/-- The pieces of a list are free of the separator. -/
theorem notMem_of_mem_splitOn {l p : List α} (hp : p ∈ l.splitOn c) : c ∉ p := by
  by_cases hl : c ∈ l
  · obtain ⟨l₁, l₂, heq, hnot⟩ := eq_append_cons_of_mem hl
    rw [heq, splitOn_append_cons_self, splitOn_of_notMem hnot, singleton_append, mem_cons] at hp
    rcases hp with rfl | hp
    · exact hnot
    · exact notMem_of_mem_splitOn hp
  · rw [splitOn_of_notMem hl, mem_singleton] at hp
    rwa [hp]
termination_by l.length
decreasing_by
  rw [heq, length_append, length_cons]
  omega

end Lists

/-! ## Strings -/

/-- A string taken apart at its first separator: `strings.SplitN(s, sep, 2)`, for a separator of
one character.  It is `none` if there is no separator. -/
def cutString (c : Char) (s : String) : Option (String × String) :=
  (cut c s.toList).map fun ab => (String.ofList ab.1, String.ofList ab.2)

/-- A string taken apart at every separator: `strings.Split(s, sep)`. -/
def splitString (c : Char) (s : String) : List String :=
  (s.toList.splitOn c).map String.ofList

/-- `strings.TrimPrefix(s, p)` -/
def trimPrefix (s p : String) : String :=
  if p.toList <+: s.toList then String.ofList (s.toList.drop p.length) else s

section Strings

variable {sep : String}

theorem toList_append_sep (hsep : sep.toList = [c]) :
    (a ++ sep ++ b).toList = a.toList ++ c :: b.toList := by
  simp [hsep]

/-- A list of characters is an extension of the name `a` exactly if its string is. -/
theorem exists_toList_eq_append_sep (hsep : sep.toList = [c]) {p : String → Prop} :
    (∃ x, a'.toList = a.toList ++ c :: x ∧ p (String.ofList x)) ↔
      ∃ x, a' = a ++ sep ++ x ∧ p x := by
  constructor
  · intro h
    obtain ⟨x, hx, hp⟩ := h
    refine ⟨String.ofList x, ?_, hp⟩
    rw [← String.toList_inj, toList_append_sep hsep, hx, String.toList_ofList]
  · intro h
    obtain ⟨x, hx, hp⟩ := h
    refine ⟨x.toList, ?_, ?_⟩
    · rw [hx, toList_append_sep hsep]
    · rw [String.ofList_toList]
      exact hp

/-- The pairs of names with one join. -/
theorem string_append_sep_inj_iff (hsep : sep.toList = [c]) :
    a ++ sep ++ b = a' ++ sep ++ b' ↔ (a = a' ∧ b = b') ∨ (∃ x, a' = a ++ sep ++ x ∧ b = x ++ sep ++
      b') ∨ ∃ x, a = a' ++ sep ++ x ∧ b' = x ++ sep ++ b := by
  rw [← String.toList_inj, toList_append_sep hsep, toList_append_sep hsep, append_sep_inj_iff,
    ← exists_toList_eq_append_sep hsep, ← exists_toList_eq_append_sep hsep]
  simp [← String.toList_inj, toList_append_sep hsep]

theorem string_append_sep_inj (hsep : sep.toList = [c]) (ha : c ∉ a.toList) (ha' : c ∉ a'.toList) :
    a ++ sep ++ b = a' ++ sep ++ b' ↔ a = a' ∧ b = b' := by
  rw [← String.toList_inj, toList_append_sep hsep, toList_append_sep hsep, append_sep_inj ha ha',
    String.toList_inj, String.toList_inj]

/-- The joins that begin with the name `a` and the separator. -/
theorem string_append_sep_prefix_iff (hsep : sep.toList = [c]) :
    (∃ r, a' ++ sep ++ b' = a ++ sep ++ r) ↔
      a' = a ∨ (∃ x, a' = a ++ sep ++ x) ∨ ∃ x r, a = a' ++ sep ++ x ∧ b' = x ++ sep ++ r := by
  simp only [string_append_sep_inj_iff hsep]
  constructor
  · intro h
    obtain ⟨r, ⟨ha, -⟩ | ⟨x, ha, hb⟩ | ⟨x, ha, -⟩⟩ := h
    · exact .inl ha
    · exact .inr (.inr ⟨x, r, ha, hb⟩)
    · exact .inr (.inl ⟨x, ha⟩)
  · intro h
    rcases h with ha | ⟨x, ha⟩ | ⟨x, r, ha, hb⟩
    · exact ⟨b', .inl ⟨ha, rfl⟩⟩
    · exact ⟨x ++ sep ++ b', .inr (.inr ⟨x, ha, rfl⟩)⟩
    · exact ⟨r, .inr (.inl ⟨x, ha, hb⟩)⟩

theorem cutString_append_sep (hsep : sep.toList = [c]) (ha : c ∉ a.toList) :
    cutString c (a ++ sep ++ b) = some (a, b) := by
  rw [cutString, toList_append_sep hsep, cut_append_sep ha]
  simp

theorem cutString_eq_some (hsep : sep.toList = [c]) (h : cutString c s = some (a, b)) :
    c ∉ a.toList ∧ s = a ++ sep ++ b := by
  obtain ⟨⟨a₁, b₁⟩, hcut, hab⟩ := Option.map_eq_some_iff.mp h
  cases hab
  obtain ⟨hnot, hs⟩ := cut_eq_some hcut
  refine ⟨by rwa [String.toList_ofList], ?_⟩
  rw [← String.toList_inj, toList_append_sep hsep, hs, String.toList_ofList, String.toList_ofList]

theorem cutString_isSome (hsep : sep.toList = [c]) : (cutString c (a ++ sep ++ b)).isSome := by
  rw [cutString, toList_append_sep hsep, Option.isSome_map]
  exact cut_isSome

theorem splitString_append_sep (hsep : sep.toList = [c]) :
    splitString c (a ++ sep ++ b) = splitString c a ++ splitString c b := by
  rw [splitString, toList_append_sep hsep, splitOn_append_cons_self, map_append]
  rfl

theorem splitString_of_notMem (ha : c ∉ a.toList) : splitString c a = [a] := by
  rw [splitString, splitOn_of_notMem ha, map_singleton, String.ofList_toList]

/-- The pieces of a string are free of the separator. -/
theorem notMem_of_mem_splitString {p : String} (hp : p ∈ splitString c s) : c ∉ p.toList := by
  obtain ⟨l, hl, rfl⟩ := mem_map.mp hp
  rw [String.toList_ofList]
  exact notMem_of_mem_splitOn hl

/-- A string has a first piece. -/
theorem splitString_eq_cons (c : Char) (s : String) : ∃ p ps, splitString c s = p :: ps := by
  refine exists_cons_of_ne_nil ?_
  rw [splitString, ne_eq, map_eq_nil_iff]
  exact splitOn_ne_nil c s.toList

/-- The pieces make up the string. -/
theorem intercalate_splitString (hsep : sep.toList = [c]) (s : String) :
    sep.intercalate (splitString c s) = s := by
  rw [← String.toList_inj, String.toList_intercalate, hsep, splitString, map_map]
  have hmap : ∀ l : List (List Char), l.map (String.toList ∘ String.ofList) = l := by
    intro l
    simp [Function.comp_def]
  rw [hmap, intercalate_splitOn]

@[simp] theorem trimPrefix_append (p x : String) : trimPrefix (p ++ x) p = x := by
  rw [trimPrefix, String.toList_append, if_pos (prefix_append _ _), ← String.length_toList,
    drop_left, String.ofList_toList]

end Strings

end Kar.Lib
