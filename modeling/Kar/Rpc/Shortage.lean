import Mathlib.Data.List.Perm.Subperm
import Kar.Rpc.StrategySpec

/-!
# A shortage of partitions

The end of `Plan` of `core/pkg/rpc/strategy.go` when the partitions are not enough: the missing ones are
counted and created, and the plan fails, so that the group comes together once more.

The count is made in the middle of the pass.  A node that already got a partition in this pass is not
counted, and the leader remembers its partition; if another leader does not, then the partition is as
free as it was before.  So the next plan has a free partition for every node in both cases: the one of
this pass, or one of the new ones (`unset_le_free`).
-/

namespace Kar.Rpc

open Kar.Lib List

namespace Process

/-- `missing` of `Plan`: the nodes of `node2member` without a partition. -/
def missing (Q : Process) (order : List String) : Nat :=
  order.countP fun node => decide (Q.node2partition node = 0)

/-- The argument of `CreatePartitions`, when `Plan` returns `errTooFewPartitions` and leaves the
tables of `Q`. -/
def requested (Q : Process) (order : List String) (size : Nat) : Nat := size + Q.missing order

/-- A process that has the tables of the leader from before or after the plan that failed. -/
def Keeps (P Q P' : Process) (members : List (String × Info)) : Prop :=
  ∀ m ∈ members, P'.knows m.2 = P.knows m.2 ∨ P'.knows m.2 = Q.node2partition m.2.node

/-- More partitions: the contents of the old ones are the same, and the new ones are empty and of
no node. -/
structure Enlarged (P : Process) (members : List (String × Info)) (size size' : Nat)
    (offsets offsets' : Nat → Option (Nat × Nat)) : Prop where
  old : ∀ p, p < size → offsets' p = offsets p
  new : ∀ p, size ≤ p → p < size' → ∃ max, offsets' p = some (max, max)
  nobody : ∀ p, size ≤ p → p < size' → ∀ m ∈ members, P.knows m.2 ≠ p

/-! ## The two plans -/

section

variable {P Q : Process}

/-- A plan that fails for a shortage knew the offsets. -/
theorem offsets_of_tooFewPartitions
    (h : P.plan members order order' (range size) offsets = (.error .tooFewPartitions, Q))
    (hp : p < size) : offsets p ≠ none := by
  rw [plan_eq] at h
  cases hmeasure : measure offsets (range size) true (P.merged (members.map Prod.snd)) with
  | mk res =>
    rw [hmeasure] at h
    cases res with
    | error =>
      simp only [Prod.mk.injEq, Except.error.injEq] at h
      have he := (measure_error _ hmeasure).1
      rw [h.1] at he
      exact absurd he (by decide)
    | ok => exact (measure_spec _ nodup_range hmeasure).known p (mem_range.mpr hp)

/-- A plan that knows the offsets and has enough free partitions succeeds. -/
theorem plan_isOk (hknown : ∀ p, p < size → offsets p ≠ none) (hnodup : order.Nodup) {free : List Nat}
    (hfree : free.Nodup)
    (hmem : ∀ p ∈ free, p ≠ 0 ∧ p < size ∧ (P.merged (members.map Prod.snd)).live p = false ∧ ∀ max,
      ¬ HasMessages offsets p max) (hcount : order.countP (fun n => decide ((P.merged (members.map
      Prod.snd)).node2partition n = 0)) ≤ free.length) :
    ∃ plan, (P.plan members order order' (range size) offsets).1 = .ok plan := by
  rw [plan_eq]
  cases hmeasure : measure offsets (range size) true (P.merged (members.map Prod.snd)) with
  | mk res Q₀ =>
    cases res with
    | error =>
      obtain ⟨-, p, hp, hnone⟩ := measure_error _ hmeasure
      exact absurd hnone (hknown p (mem_range.mp hp))
    | ok clean =>
      have hmeasured := measure_spec _ nodup_range hmeasure
      obtain ⟨newest, max0, hQ₀, -⟩ := measure_frame (P.merged (members.map Prod.snd)) offsets
        (range size) true
      rw [hmeasure] at hQ₀
      have hsub : free ⊆ ((range size).drop 1).filter Q₀.isFree := by
        intro p hp
        obtain ⟨hp0, hlt, hlive, hempty⟩ := hmem p hp
        have hnewest : Q₀.newest p = 0 := (hmeasured.empty p (mem_range.mpr hlt) hempty).trans
          (congrFun (P.reset.visitAll_frame (members.map Prod.snd)).2.2.2.1 p)
        have hlive' : Q₀.live p = false := by
          rw [show Q₀ = _ from hQ₀]
          exact hlive
        refine mem_filter.mpr ⟨mem_drop_range.mpr ⟨hp0, hlt⟩, ?_⟩
        rw [isFree, hlive', hnewest]
        rfl
      have hle : free.length ≤ ((range size).drop 1).countP Q₀.isFree := by
        rw [countP_eq_length_filter]
        exact (subperm_of_subset hfree hsub).length_le
      have htable : Q₀.node2partition = (P.merged (members.map Prod.snd)).node2partition := by
        rw [show Q₀ = _ from hQ₀]
      have henough : (assignFree Q₀.isFree 0 order ((range size).drop 1)
          Q₀.node2partition).1 = true := by
        apply assignFree_enough hnodup
        rw [htable]
        exact Nat.le_trans hcount hle
      cases hassign : assignFree Q₀.isFree 0 order ((range size).drop 1) Q₀.node2partition with
      | mk enough =>
        rw [hassign] at henough
        simp only [hassign, show enough = true from henough]
        cases clean with
        | false => exact ⟨_, rfl⟩
        | true => exact ⟨_, rfl⟩

end

/-! ## The shortage -/

section Shortage

variable {P Q P' : Process} {vs vs' : List Info}

/-- The partitions that the next plan can give to the nodes: those of the failed plan that the leader
does not know, and the new ones. -/
def spare (P' Q : Process) (vs' : List Info) (order : List String) (size : Nat) : List Nat :=
  ((order.filter fun n => decide ((P'.merged vs').node2partition n = 0) &&
      !decide (Q.node2partition n = 0)).map Q.node2partition) ++ List.range' size (Q.missing order)

/-- They are enough. -/
theorem unset_le_spare :
    order.countP (fun n => decide ((P'.merged vs').node2partition n = 0)) ≤
      (spare P' Q vs' order size).length := by
  rw [spare, length_append, length_map, length_range', ← countP_eq_length_filter]
  exact countP_le_add _ _ order

section Plans

variable (hnodup : (vs.map Info.node).Nodup) (heffect : PlanEffect P vs order size offsets Q)
  (hperm : vs'.Perm vs)
  (hkeeps : ∀ v ∈ vs, P'.knows v = P.knows v ∨ P'.knows v = Q.node2partition v.node)

include hnodup heffect

/-- What the leader knew before the plan is what it knows after it, or the node got a partition. -/
theorem knows_cases (hv : v ∈ vs) :
    Q.node2partition v.node = P.knows v ∨ P.knows v = 0 ∧ Q.node2partition v.node ≠ 0 ∧
      Q.node2partition v.node < size ∧ (P.merged vs).live (Q.node2partition v.node) = false ∧ ∀ max,
      ¬ HasMessages offsets (Q.node2partition v.node) max := by
  have hmerged := P.merged_of_mem hnodup hv
  by_cases h0 : P.knows v = 0
  · by_cases hq : Q.node2partition v.node = 0
    · exact .inl (hq.trans h0.symm)
    · exact .inr ⟨h0, hq, heffect.new v.node (hmerged.trans h0) hq⟩
  · left
    rw [heffect.kept v.node (by rwa [hmerged]), hmerged]

/-- A node that has no partition in the next plan and has one in the tables of the failed plan got it
there. -/
theorem new_of_unknown (hu : u ∈ vs)
    (hkeeps : P'.knows u = P.knows u ∨ P'.knows u = Q.node2partition u.node)
    (hunknown : P'.knows u = 0) (hq : Q.node2partition u.node ≠ 0) :
    P.knows u = 0 ∧ Q.node2partition u.node < size ∧ (P.merged vs).live (Q.node2partition u.node) =
      false ∧ ∀ max, ¬ HasMessages offsets (Q.node2partition u.node) max := by
  cases knows_cases hnodup heffect hu with
  | inl hsame =>
    rw [hsame, or_self] at hkeeps
    rw [hsame, ← hkeeps] at hq
    exact absurd hunknown hq
  | inr hnew => exact ⟨hnew.1, hnew.2.2⟩

include hkeeps

/-- Then no node has this partition in the next plan. -/
theorem knows_ne_of_unknown (hu : u ∈ vs) (hv : v ∈ vs) (hunknown : P'.knows u = 0)
    (hq : Q.node2partition u.node ≠ 0) : P'.knows v ≠ Q.node2partition u.node := by
  obtain ⟨hu0, -, hlive, -⟩ := new_of_unknown hnodup heffect hu (hkeeps u hu) hunknown hq
  have hknows : P.knows v ≠ Q.node2partition u.node := by
    intro heq
    exact Bool.false_ne_true (hlive.symm.trans ((P.merged_live hnodup).mpr ⟨hq, v, hv, heq⟩))
  intro heq
  cases hkeeps v hv with
  | inl hsame => exact hknows (hsame.symm.trans heq)
  | inr htable =>
    have hqv := heq.symm.trans htable
    cases knows_cases hnodup heffect hv with
    | inl hsame => exact hknows (hsame.symm.trans hqv.symm)
    | inr hnew =>
      have hnode : u.node = v.node := heffect.inj u.node v.node
        ((P.merged_of_mem hnodup hu).trans hu0) ((P.merged_of_mem hnodup hv).trans hnew.1) hq hqv
      rw [inj_on_of_nodup_map hnodup hu hv hnode] at hunknown
      exact hq (heq.symm.trans hunknown)

/-- No node has one of the new partitions. -/
theorem knows_ne_new (hp : size ≤ p) (hnobody : ∀ v ∈ vs, P.knows v ≠ p)
    (hv : v ∈ vs) : P'.knows v ≠ p := by
  intro heq
  cases hkeeps v hv with
  | inl hsame => exact hnobody v hv (hsame.symm.trans heq)
  | inr htable =>
    cases knows_cases hnodup heffect hv with
    | inl hsame => exact hnobody v hv (hsame.symm.trans (htable.symm.trans heq))
    | inr hnew =>
      have hlt := hnew.2.2.1
      omega

include hperm

/-- The spare partitions are free in the next plan. -/
theorem free_of_mem_spare (horder : ∀ n ∈ order, n ∈ vs.map Info.node) (hsize : 0 < size)
    (hsize' : size + Q.missing order ≤ size') (hold : ∀ p, p < size → offsets' p = offsets p)
    (hnew : ∀ p, size ≤ p → p < size' → ∃ max, offsets' p = some (max, max))
    (hnobody : ∀ p, size ≤ p → p < size' → ∀ v ∈ vs, P.knows v ≠ p) (hp : p ∈ spare P' Q vs' order size) :
    p ≠ 0 ∧ p < size' ∧ (P'.merged vs').live p = false ∧ ∀ max, ¬ HasMessages offsets' p max := by
  have hnodup' : (vs'.map Info.node).Nodup := (hperm.map Info.node).nodup_iff.mpr hnodup
  have hlive : (∀ v ∈ vs, P'.knows v ≠ p) → (P'.merged vs').live p = false := by
    intro hne
    apply Bool.eq_false_iff.mpr
    intro htrue
    obtain ⟨-, v, hv, heq⟩ := (P'.merged_live hnodup').mp htrue
    exact hne v (hperm.subset hv) heq
  cases mem_append.mp hp with
  | inl hp =>
    obtain ⟨n, hn, rfl⟩ := mem_map.mp hp
    simp only [mem_filter, Bool.and_eq_true, decide_eq_true_eq, Bool.not_eq_true',
      decide_eq_false_iff_not] at hn
    obtain ⟨hn, hunset, hq⟩ := hn
    obtain ⟨u, hu, rfl⟩ := mem_map.mp (horder n hn)
    rw [P'.merged_of_mem hnodup' (hperm.symm.subset hu)] at hunset
    obtain ⟨-, hlt, -, hempty⟩ := new_of_unknown hnodup heffect hu (hkeeps u hu) hunset hq
    refine ⟨hq, by omega, hlive fun v hv =>
      knows_ne_of_unknown hnodup heffect hkeeps hu hv hunset hq, ?_⟩
    intro max hmax
    rw [HasMessages, hold _ hlt] at hmax
    exact hempty max hmax
  | inr hp =>
    rw [mem_range'_1] at hp
    refine ⟨by omega, by omega, hlive fun v hv =>
      knows_ne_new hnodup heffect hkeeps hp.1 (hnobody p hp.1 (by omega)) hv, ?_⟩
    intro max hmax
    obtain ⟨min, heq, hlt⟩ := hmax
    obtain ⟨m, hm⟩ := hnew p hp.1 (by omega)
    rw [hm, Option.some.injEq, Prod.mk.injEq] at heq
    omega

/-- There are no two of the same. -/
theorem nodup_spare (horder : ∀ n ∈ order, n ∈ vs.map Info.node) (hnodupOrder : order.Nodup) :
    (spare P' Q vs' order size).Nodup := by
  have hnodup' : (vs'.map Info.node).Nodup := (hperm.map Info.node).nodup_iff.mpr hnodup
  have hgot : ∀ n ∈ order.filter fun n => decide ((P'.merged vs').node2partition n = 0) &&
      !decide (Q.node2partition n = 0),
      (P.merged vs).node2partition n = 0 ∧ Q.node2partition n ≠ 0 ∧ Q.node2partition n < size := by
    intro n hn
    simp only [mem_filter, Bool.and_eq_true, decide_eq_true_eq, Bool.not_eq_true',
      decide_eq_false_iff_not] at hn
    obtain ⟨hn, hunset, hq⟩ := hn
    obtain ⟨u, hu, rfl⟩ := mem_map.mp (horder n hn)
    rw [P'.merged_of_mem hnodup' (hperm.symm.subset hu)] at hunset
    obtain ⟨h0, hlt, -⟩ := new_of_unknown hnodup heffect hu (hkeeps u hu) hunset hq
    exact ⟨(P.merged_of_mem hnodup hu).trans h0, hq, hlt⟩
  refine nodup_append.mpr ⟨?_, nodup_range', ?_⟩
  · refine (hnodupOrder.filter _).map_on ?_
    intro n hn n' hn' heq
    exact heffect.inj n n' (hgot n hn).1 (hgot n' hn').1 (hgot n hn).2.1 heq
  intro p hp q hq heq
  obtain ⟨n, hn, rfl⟩ := mem_map.mp hp
  have hlt := (hgot n hn).2.2
  rw [mem_range'_1] at hq
  omega

end Plans

end Shortage

/-- The tables after the plan that failed are those of a leader that keeps them. -/
theorem keeps_leader : Keeps P Q Q members := by
  intro m _
  unfold knows
  by_cases hm : m.2.partition > 0
  · rw [if_pos hm, if_pos hm]
    exact .inl rfl
  · rw [if_neg hm, if_neg hm]
    exact .inr rfl

/-- A plan that fails for a shortage asks for the partitions of the nodes that have none, and with these
the next plan succeeds, in any order of the maps. -/
theorem shortage_resolved {P Q : Process} {members : List (String × Info)} {order order' : List String}
    {size : Nat} {offsets : Nat → Option (Nat × Nat)} (hsize : 0 < size)
    (hnodup : (members.map fun m => m.2.node).Nodup)
    (horder : order.Perm (members.map fun m => m.2.node))
    (horder' : order'.Perm (members.map fun m => m.2.node))
    (hshort : P.plan members order order' (List.range size) offsets = (.error .tooFewPartitions, Q)) :
    Q.requested order' size ≤
        size + members.countP (fun m => decide (Q.node2partition m.2.node = 0)) ∧
      ∀ (P' : Process) (members' : List (String × Info)) (order₁ order₂ : List String) (size' : Nat)
        (offsets' : Nat → Option (Nat × Nat)),
        Keeps P Q P' members → members'.Perm members →
        order₁.Perm (members'.map fun m => m.2.node) →
        Q.requested order' size ≤ size' → Enlarged P members size size' offsets offsets' →
        ∃ plan, (P'.plan members' order₁ order₂ (List.range size') offsets').1 = .ok plan := by
  have hmap : members.map (fun m => m.2.node) = (members.map Prod.snd).map Info.node := by
    rw [List.map_map]
    rfl
  have heffect := plan_effect hshort
  refine ⟨?_, ?_⟩
  · rw [requested, missing, horder'.countP_eq, List.countP_map]
    exact Nat.le_refl _
  · intro P' members' order₁ order₂ size' offsets' hkeeps hperm horder₁ hsize' henlarged
    have hperm' : (members'.map Prod.snd).Perm (members.map Prod.snd) := hperm.map _
    have hkeeps' : ∀ v ∈ members.map Prod.snd,
        P'.knows v = P.knows v ∨ P'.knows v = Q.node2partition v.node := by
      intro v hv
      obtain ⟨m, hm, rfl⟩ := List.mem_map.mp hv
      exact hkeeps m hm
    have hsame : order₁.Perm order := horder₁.trans ((hperm.map _).trans horder.symm)
    have hmissing : Q.missing order' = Q.missing order := (horder'.trans horder.symm).countP_eq _
    rw [requested, hmissing] at hsize'
    rw [hmap] at hnodup horder
    have hmem : ∀ n ∈ order, n ∈ (members.map Prod.snd).map Info.node := fun n hn => horder.subset hn
    have hnodupOrder : order.Nodup := horder.nodup_iff.mpr hnodup
    refine plan_isOk ?_ (hsame.nodup_iff.mpr hnodupOrder)
      (nodup_spare hnodup heffect hperm' hkeeps' hmem hnodupOrder)
      (fun p hp => free_of_mem_spare hnodup heffect hperm' hkeeps' hmem hsize hsize' henlarged.old
        henlarged.new ?_ hp) ?_
    · intro p hp
      by_cases hlt : p < size
      · rw [henlarged.old p hlt]
        exact offsets_of_tooFewPartitions hshort hlt
      · obtain ⟨max, hmax⟩ := henlarged.new p (by omega) hp
        rw [hmax]
        exact Option.some_ne_none _
    · intro q hq hq' v hv
      obtain ⟨m, hm, rfl⟩ := List.mem_map.mp hv
      exact henlarged.nobody q hq hq' m hm
    · rw [hsame.countP_eq]
      exact unset_le_spare

/-- Two new nodes, and one partition besides partition `0`. -/
private def newcomers : List (String × Info) := [("m", ⟨"a", [], 0⟩), ("m'", ⟨"b", [], 0⟩)]

private def afterShortage : Process :=
  ((dial "a" []).plan newcomers ["a", "b"] ["b", "a"] (List.range 2) fun _ => some (0, 0)).2

/-- The first node has got the partition, so one more is created, and the plan of the same leader with
three partitions succeeds. -/
theorem newcomers_served : afterShortage.requested ["b", "a"] 2 = 3 ∧
    ∃ plan, (afterShortage.plan newcomers ["b", "a"] ["a", "b"] (List.range 3)
      fun _ => some (0, 0)).1 = .ok plan := by
  refine ⟨by decide, ?_⟩
  have hshort : (dial "a" []).plan newcomers ["a", "b"] ["b", "a"] (List.range 2)
      (fun _ => some (0, 0)) = (.error .tooFewPartitions, afterShortage) := rfl
  refine (shortage_resolved (by decide) (by decide) (.refl _) (.swap _ _ _) hshort).2 afterShortage
    newcomers ["b", "a"] ["a", "b"] 3 (fun _ => some (0, 0)) (keeps_leader) (.refl _)
    (.swap _ _ _) (by decide) ⟨fun _ _ => rfl, fun _ _ _ => ⟨0, rfl⟩, ?_⟩
  intro p hp _ m hm heq
  have h0 : (dial "a" []).knows m.2 = 0 := by
    simp only [newcomers, List.mem_cons, List.not_mem_nil, or_false] at hm
    cases hm with
    | inl hm => rw [hm]; rfl
    | inr hm => rw [hm]; rfl
  omega

end Process

end Kar.Rpc
