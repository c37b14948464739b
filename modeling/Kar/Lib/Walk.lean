import Mathlib.Data.List.Nodup

/-!
# Walks along edges

A multigraph is given by the two ends of its edges.  A walk is a list of edges, each of which starts where
the one before it ends.  A walk that leaves no vertex twice is simple: every walk contains a simple one
with the same ends, and every closed walk contains one that comes back only at its end.
-/

namespace Kar.Lib

open List

variable (src dst : ε → ν)

/-- The edges `es` lead from `a` to `b`. -/
def Walk : ν → List ε → ν → Prop
  | a, [], b => a = b
  | a, e :: es, b => src e = a ∧ Walk (dst e) es b

variable {src dst}

@[simp] theorem walk_nil : Walk src dst a [] b ↔ a = b := Iff.rfl

@[simp] theorem walk_cons : Walk src dst a (e :: es) b ↔ src e = a ∧ Walk src dst (dst e) es b := Iff.rfl

theorem Walk.append (h : Walk src dst a es b) (h' : Walk src dst b fs c) :
    Walk src dst a (es ++ fs) c := by
  induction es generalizing a with
  | nil =>
    rw [walk_nil] at h
    rw [h]
    exact h'
  | cons _ _ ih => exact ⟨h.1, ih h.2⟩

theorem walk_append : Walk src dst a (es ++ fs) c ↔ ∃ b, Walk src dst a es b ∧ Walk src dst b fs c := by
  constructor
  · intro h
    induction es generalizing a with
    | nil => exact ⟨a, rfl, h⟩
    | cons _ _ ih =>
      obtain ⟨b, hes, hfs⟩ := ih h.2
      exact ⟨b, ⟨h.1, hes⟩, hfs⟩
  · intro h
    obtain ⟨b, hes, hfs⟩ := h
    exact hes.append hfs

/-- A walk ends at one vertex. -/
theorem Walk.eq_end (h : Walk src dst a es b) (h' : Walk src dst a es c) : b = c := by
  induction es generalizing a with
  | nil => exact h.symm.trans h'
  | cons _ _ ih => exact ih h.2 h'.2

/-- A walk that is not empty ends with its last edge. -/
theorem Walk.dst_last (h : Walk src dst a (es ++ [e]) b) : dst e = b := by
  obtain ⟨c, -, hlast⟩ := walk_append.mp h
  exact hlast.2

/-- From the second vertex on, every vertex that a walk leaves was entered by an edge of the walk. -/
theorem Walk.src_eq_or (h : Walk src dst a es b) (hf : f ∈ es) :
    src f = a ∨ ∃ g ∈ es, src f = dst g := by
  induction es generalizing a with
  | nil => exact absurd hf not_mem_nil
  | cons e _ ih =>
    cases mem_cons.mp hf with
    | inl heq =>
      left
      rw [heq]
      exact h.1
    | inr hmem =>
      right
      cases ih h.2 hmem with
      | inl heq => exact ⟨e, mem_cons_self, heq⟩
      | inr hlater =>
        obtain ⟨g, hg, heq⟩ := hlater
        exact ⟨g, mem_cons_of_mem e hg, heq⟩

/-- Every vertex that a walk enters is its end, or is left by an edge of the walk. -/
theorem Walk.dst_eq_or (h : Walk src dst a es b) (hf : f ∈ es) :
    dst f = b ∨ ∃ g ∈ es, dst f = src g := by
  obtain ⟨before, after, rfl⟩ := append_of_mem hf
  obtain ⟨c, -, hafter⟩ := walk_append.mp h
  cases after with
  | nil => exact .inl hafter.2
  | cons g =>
    exact .inr ⟨g, mem_append_right _ (mem_cons_of_mem f mem_cons_self), hafter.2.1.symm⟩

/-- The part of a walk from a vertex on that it leaves. -/
theorem Walk.from_src (h : Walk src dst a es b) (hc : c ∈ es.map src) :
    ∃ before f after, es = before ++ f :: after ∧ src f = c ∧ Walk src dst a before c ∧
      Walk src dst c (f :: after) b := by
  obtain ⟨f, hf, rfl⟩ := mem_map.mp hc
  obtain ⟨before, after, rfl⟩ := append_of_mem hf
  obtain ⟨c, hbefore, hafter⟩ := walk_append.mp h
  refine ⟨before, f, after, rfl, rfl, ?_, ⟨rfl, hafter.2⟩⟩
  rw [hafter.1]
  exact hbefore

/-- A walk contains a simple walk with the same ends. -/
theorem Walk.exists_simple (h : Walk src dst a es b) :
    ∃ fs, fs ⊆ es ∧ Walk src dst a fs b ∧ (fs.map src).Nodup ∧ b ∉ fs.map src := by
  induction es generalizing a with
  | nil => exact ⟨[], List.Subset.refl _, h, nodup_nil, not_mem_nil⟩
  | cons e es ih =>
    obtain ⟨fs, hsub, hwalk, hnodup, hend⟩ := ih h.2
    have hsub' : fs ⊆ e :: es := fun f hf => mem_cons_of_mem e (hsub hf)
    by_cases hab : a = b
    · exact ⟨[], nil_subset _, hab, nodup_nil, not_mem_nil⟩
    by_cases ha : a ∈ fs.map src
    · -- The loop at `a` is left out.
      obtain ⟨before, f, after, hsplit, -, -, hafter⟩ := hwalk.from_src ha
      rw [hsplit] at hsub' hnodup hend
      rw [map_append] at hnodup hend
      refine ⟨f :: after, ?_, hafter, (nodup_append.mp hnodup).2.1, ?_⟩
      · exact fun g hg => hsub' (mem_append_right _ hg)
      · exact fun hmem => hend (mem_append_right _ hmem)
    · refine ⟨e :: fs, cons_subset_cons e hsub, ⟨h.1, hwalk⟩, ?_, ?_⟩
      · rw [map_cons, nodup_cons, h.1]
        exact ⟨ha, hnodup⟩
      · rw [map_cons, mem_cons, h.1, not_or]
        exact ⟨Ne.symm hab, hend⟩

/-- A closed walk contains one that comes back only at its end. -/
theorem Walk.exists_cycle (h : Walk src dst a es a) (hne : es ≠ []) :
    ∃ fs, fs ⊆ es ∧ fs ≠ [] ∧ Walk src dst a fs a ∧ (fs.map src).Nodup := by
  cases es with
  | nil => exact absurd rfl hne
  | cons e =>
    obtain ⟨fs, hsub, hwalk, hnodup, hend⟩ := h.2.exists_simple
    refine ⟨e :: fs, cons_subset_cons e hsub, cons_ne_nil _ _, ⟨h.1, hwalk⟩, ?_⟩
    rw [map_cons, nodup_cons, h.1]
    exact ⟨hend, hnodup⟩

/-- A simple walk from `a` to `b` and one from `b` to `c` are a simple walk together, unless they give a
closed walk at `b`. -/
theorem Walk.append_simple (h : Walk src dst a es b) (h' : Walk src dst b fs c)
    (hnodup : (es.map src).Nodup) (hnodup' : (fs.map src).Nodup)
    (hacyclic : ∀ gs, gs ⊆ es ++ fs → Walk src dst b gs b → gs = []) :
    ((es ++ fs).map src).Nodup := by
  rw [map_append, nodup_append]
  refine ⟨hnodup, hnodup', ?_⟩
  intro x hx y hy heq
  rw [← heq] at hy
  obtain ⟨before, f, after, hes, -, -, hreturn⟩ := h.from_src hx
  obtain ⟨before', f', after', hfs, -, hleave, -⟩ := h'.from_src hy
  have hclosed := hacyclic (before' ++ f :: after) ?_ (hleave.append hreturn)
  · exact absurd (append_eq_nil_iff.mp hclosed).2 (cons_ne_nil _ _)
  intro g hg
  rw [hes, hfs]
  cases mem_append.mp hg with
  | inl hg => exact mem_append_right _ (mem_append_left _ hg)
  | inr hg => exact mem_append_left _ (mem_append_right _ hg)

end Kar.Lib
