import Kar.Lib.Lists
import Kar.Rpc.Strategy

/-!
# What a plan does

`merged` is the state of the leader after the two loops over the members.  The table
then has for each member the partition that the member publishes, or else the one that
the leader remembers (`knows`), and nothing else.  `PlanEffect` says what a plan makes
of the variables of the leader, whether or not it succeeds.  `plan_ok` says what a
plan gives to the members.
-/

namespace Kar.Rpc

open Kar.Lib List Function

/-- Partition `p` has messages, the last of them below offset `max`. -/
def HasMessages (offsets : Nat → Option (Nat × Nat)) (p max : Nat) : Prop :=
  ∃ min, offsets p = some (min, max) ∧ min < max

namespace Process

variable (P : Process)

/-- The partition that the leader knows for a member, or `0`. -/
def knows (v : Info) : Nat := if v.partition > 0 then v.partition else P.node2partition v.node

/-! ## The members -/

@[simp] theorem visit_self : (P.visit v).self = P.self := rfl
@[simp] theorem visit_userData : (P.visit v).userData = P.userData := rfl
@[simp] theorem visit_recovery : (P.visit v).recovery = P.recovery := rfl
@[simp] theorem visit_newest : (P.visit v).newest = P.newest := rfl
@[simp] theorem visit_max0 : (P.visit v).max0 = P.max0 := rfl

theorem visit_node2partition (v : Info) (n : String) :
    (P.visit v).node2partition n = if n = v.node then P.knows v else P.node2partition n := by
  unfold visit knows
  by_cases hv : v.partition > 0
  · simp only [if_pos hv]
    exact update_apply _ _ _ _
  simp only [if_neg hv]
  split
  · rename_i hn
    rw [hn]
  · rfl

theorem visit_offset0 (v : Info) :
    (P.visit v).offset0 = if P.knows v = 0 then 0 else P.offset0 := by
  have htable := P.visit_node2partition v v.node
  rw [if_pos rfl] at htable
  rw [← htable]
  rfl

theorem knows_visit (hne : u.node ≠ v.node) : (P.visit v).knows u = P.knows u := by
  unfold knows
  rw [visit_node2partition, if_neg hne]

/-- The loop over the members. -/
def visitAll (vs : List Info) : Process := vs.foldl visit P

theorem visitAll_cons :
    P.visitAll (v :: vs) = (P.visit v).visitAll vs := rfl

theorem visitAll_frame (vs : List Info) :
    (P.visitAll vs).self = P.self ∧ (P.visitAll vs).userData = P.userData ∧ (P.visitAll vs).recovery
      = P.recovery ∧ (P.visitAll vs).newest = P.newest ∧ (P.visitAll vs).max0 = P.max0 := by
  induction vs generalizing P with
  | nil => exact ⟨rfl, rfl, rfl, rfl, rfl⟩
  | cons v _ ih =>
    rw [visitAll_cons]
    simpa using ih (P.visit v)

theorem visitAll_of_not_mem (hn : n ∉ vs.map Info.node) :
    (P.visitAll vs).node2partition n = P.node2partition n := by
  induction vs generalizing P with
  | nil => rfl
  | cons v _ ih =>
    rw [map_cons, mem_cons, not_or] at hn
    rw [visitAll_cons, ih (P.visit v) hn.2, visit_node2partition, if_neg hn.1]

theorem visitAll_of_mem (hnodup : (vs.map Info.node).Nodup)
    (hv : v ∈ vs) : (P.visitAll vs).node2partition v.node = P.knows v := by
  induction vs generalizing P with
  | nil => simp at hv
  | cons u _ ih =>
    rw [map_cons, nodup_cons] at hnodup
    rw [visitAll_cons]
    rcases mem_cons.mp hv with rfl | hv
    · rw [visitAll_of_not_mem _ hnodup.1, visit_node2partition, if_pos rfl]
    · have hne : v.node ≠ u.node := by
        intro heq
        exact hnodup.1 (heq ▸ mem_map_of_mem hv)
      rw [ih (P.visit u) hnodup.2 hv, knows_visit _ hne]

/-- The offset is forgotten when one of the members has no partition. -/
theorem visitAll_offset0 (hnodup : (vs.map Info.node).Nodup) :
    (P.visitAll vs).offset0 = if ∃ v ∈ vs, P.knows v = 0 then 0 else P.offset0 := by
  induction vs generalizing P with
  | nil => simp [visitAll]
  | cons u vs ih =>
    rw [map_cons, nodup_cons] at hnodup
    have hknows : ∀ v ∈ vs, (P.visit u).knows v = P.knows v := by
      intro v hv
      refine knows_visit _ ?_
      intro heq
      exact hnodup.1 (heq ▸ mem_map_of_mem hv)
    rw [visitAll_cons, ih (P.visit u) hnodup.2, visit_offset0]
    by_cases hu : P.knows u = 0
    · simp [hu]
    have hiff : (∃ v ∈ vs, (P.visit u).knows v = 0) ↔ ∃ v ∈ u :: vs, P.knows v = 0 := by
      constructor
      · rintro ⟨v, hv, h0⟩
        exact ⟨v, mem_cons_of_mem u hv, hknows v hv ▸ h0⟩
      · rintro ⟨v, hv, h0⟩
        rcases mem_cons.mp hv with rfl | hv
        · exact absurd h0 hu
        · exact ⟨v, hv, (hknows v hv).trans h0⟩
    simp [hiff, if_neg hu]

/-- A node offers the services that it publishes. -/
theorem mem_addServices :
    n ∈ addServices table v s ↔ n ∈ table s ∨ (s ∈ v.services ∧ n = v.node) := by
  unfold addServices
  induction v.services generalizing table with
  | nil => simp
  | cons r _ ih =>
    rw [foldl_cons, ih]
    by_cases hs : s = r
    · subst hs
      simp only [update_self, mem_append, mem_cons, true_or, true_and]
      tauto
    · simp [hs]

theorem mem_service2nodes_visitAll :
    n ∈ (P.visitAll vs).service2nodes s ↔
      n ∈ P.service2nodes s ∨ ∃ v ∈ vs, v.node = n ∧ s ∈ v.services := by
  induction vs generalizing P with
  | nil => simp [visitAll]
  | cons v _ ih =>
    rw [visitAll_cons, ih (P.visit v)]
    have hvisit : (P.visit v).service2nodes s = addServices P.service2nodes v s := rfl
    rw [hvisit, mem_addServices]
    simp only [mem_cons, exists_eq_or_imp]
    constructor
    · rintro ((hold | ⟨hs, rfl⟩) | hlater)
      · exact .inl hold
      · exact .inr (.inl ⟨rfl, hs⟩)
      · exact .inr (.inr hlater)
    · rintro (hold | ⟨rfl, hs⟩ | hlater)
      · exact .inl (.inl hold)
      · exact .inl (.inr ⟨hs, rfl⟩)
      · exact .inr hlater

/-- The state of the leader after the loops over the members. -/
def merged (vs : List Info) : Process := (P.reset.visitAll vs).discard (vs.map Info.node)

section Merged

variable {vs : List Info} (hnodup : (vs.map Info.node).Nodup)

theorem knows_reset : P.reset.knows v = P.knows v := rfl

include hnodup

theorem merged_of_mem (hv : v ∈ vs) : (P.merged vs).node2partition v.node = P.knows v := by
  unfold merged discard
  simp only
  rw [if_pos (mem_map_of_mem hv), visitAll_of_mem _ hnodup hv, knows_reset]

omit hnodup in
theorem merged_of_not_mem (hn : n ∉ vs.map Info.node) :
    (P.merged vs).node2partition n = 0 := by
  unfold merged discard
  simp only
  rw [if_neg hn]

theorem merged_live :
    (P.merged vs).live p = true ↔ p ≠ 0 ∧ ∃ v ∈ vs, P.knows v = p := by
  have hlive : (P.merged vs).live p = true ↔ p ≠ 0 ∧
      ∃ n ∈ vs.map Info.node, (P.reset.visitAll vs).node2partition n = p := by
    simp [merged, discard, live]
  rw [hlive]
  constructor
  · rintro ⟨hp, n, hn, htable⟩
    obtain ⟨v, hv, rfl⟩ := mem_map.mp hn
    rw [visitAll_of_mem _ hnodup hv, knows_reset] at htable
    exact ⟨hp, v, hv, htable⟩
  · rintro ⟨hp, v, hv, hknows⟩
    refine ⟨hp, v.node, mem_map_of_mem hv, ?_⟩
    rw [visitAll_of_mem _ hnodup hv, knows_reset, hknows]

theorem merged_offset0 :
    (P.merged vs).offset0 = if ∃ v ∈ vs, P.knows v = 0 then 0 else P.offset0 :=
  P.reset.visitAll_offset0 hnodup

omit hnodup in
theorem mem_service2nodes_merged :
    n ∈ (P.merged vs).service2nodes s ↔ ∃ v ∈ vs, v.node = n ∧ s ∈ v.services := by
  show n ∈ (P.reset.visitAll vs).service2nodes s ↔ _
  rw [mem_service2nodes_visitAll]
  simp [reset]

end Merged

/-! ## The partitions -/

/-- The loop over the partitions changes two variables only. -/
theorem measure_frame (offsets : Nat → Option (Nat × Nat)) (ps : List Nat) (clean : Bool) :
    ∃ newest max0, (measure offsets ps clean P).2 = { P with newest := newest, max0 := max0 } ∧
      (max0 = P.max0 ∨ 0 ∈ ps ∧ HasMessages offsets 0 max0) := by
  induction ps generalizing clean P with
  | nil => exact ⟨P.newest, P.max0, rfl, .inl rfl⟩
  | cons p ps ih =>
    have hkeep : ∀ (clean : Bool) (Q : Process),
        (∃ newest max0, Q = { P with newest := newest, max0 := max0 } ∧
          (max0 = P.max0 ∨ 0 ∈ p :: ps ∧ HasMessages offsets 0 max0)) →
        ∃ newest max0, (measure offsets ps clean Q).2 = { P with newest := newest, max0 := max0 } ∧
          (max0 = P.max0 ∨ 0 ∈ p :: ps ∧ HasMessages offsets 0 max0) := by
      rintro clean Q ⟨newest, max0, rfl, hmax⟩
      obtain ⟨newest', max0', hQ, hmax'⟩ := ih { P with newest := newest, max0 := max0 } clean
      refine ⟨newest', max0', hQ, ?_⟩
      rcases hmax' with rfl | ⟨hmem, hnew⟩
      · exact hmax
      · exact .inr ⟨mem_cons_of_mem p hmem, hnew⟩
    rw [measure]
    split
    · exact ⟨P.newest, P.max0, rfl, .inl rfl⟩
    rename_i min max hoffsets
    split
    · rename_i hlt
      simp only
      split
      · exact hkeep _ _ ⟨_, P.max0, rfl, .inl rfl⟩
      split
      · rename_i hzero
        refine hkeep _ _ ⟨_, max, rfl, .inr ⟨?_, min, ?_, hlt⟩⟩
        · rw [hzero.1]
          exact mem_cons_self
        · rw [← hzero.1]
          exact hoffsets
      · exact hkeep _ _ ⟨_, P.max0, rfl, .inl rfl⟩
    · exact hkeep _ _ ⟨P.newest, P.max0, rfl, .inl rfl⟩

/-- What the loop over the partitions has seen. -/
structure Measured (offsets : Nat → Option (Nat × Nat)) (ps : List Nat) (P : Process)
    (clean : Bool) (Q : Process) : Prop where
  known : ∀ p ∈ ps, offsets p ≠ none
  nonempty : ∀ p ∈ ps, ∀ max, HasMessages offsets p max → Q.newest p = max
  empty : ∀ p ∈ ps, (∀ max, ¬ HasMessages offsets p max) → Q.newest p = P.newest p
  other : ∀ p, p ∉ ps → Q.newest p = P.newest p
  clean : clean = true → ∀ p ∈ ps, ∀ max, HasMessages offsets p max →
    (p ≠ 0 → P.live p = true) ∧ (p = 0 → max ≤ P.offset0)

/-- One partition before the others. -/
theorem Measured.cons {P Q R : Process} {clean : Bool} (h : Measured offsets ps Q clean R) (hp : p ∉ ps)
    (hknown : offsets p ≠ none) (hlive : Q.recovery = P.recovery) (hoffset : Q.offset0 = P.offset0)
    (hnewest : ∀ q, q ≠ p → Q.newest q = P.newest q)
    (hnonempty : ∀ max, HasMessages offsets p max → Q.newest p = max)
    (hempty : (∀ max, ¬ HasMessages offsets p max) → Q.newest p = P.newest p)
    (hclean : clean = true → ∀ max, HasMessages offsets p max →
      (p ≠ 0 → P.live p = true) ∧ (p = 0 → max ≤ P.offset0)) :
    Measured offsets (p :: ps) P clean R := by
  have hself : R.newest p = Q.newest p := h.other p hp
  refine ⟨?_, ?_, ?_, ?_, ?_⟩
  · intro q hq
    rcases mem_cons.mp hq with rfl | hq
    · exact hknown
    · exact h.known q hq
  · intro q hq max hmax
    rcases mem_cons.mp hq with rfl | hq
    · rw [hself]
      exact hnonempty max hmax
    · exact h.nonempty q hq max hmax
  · intro q hq hnone
    rcases mem_cons.mp hq with rfl | hq
    · rw [hself]
      exact hempty hnone
    · rw [h.empty q hq hnone]
      exact hnewest q fun heq => hp (heq ▸ hq)
  · intro q hq
    rw [mem_cons, not_or] at hq
    rw [h.other q hq.2, hnewest q hq.1]
  intro hc q hq max hmax
  rcases mem_cons.mp hq with rfl | hq
  · exact hclean hc max hmax
  have hold := h.clean hc q hq max hmax
  rw [hoffset] at hold
  have hsame : Q.live q = P.live q := by
    unfold live
    rw [hlive]
  rwa [hsame] at hold

theorem measure_false (h : measure offsets ps false P = (.ok c, Q)) : c = false := by
  induction ps generalizing P with
  | nil =>
    simp only [measure, Prod.mk.injEq, Except.ok.injEq] at h
    exact h.1.symm
  | cons _ _ ih =>
    rw [measure] at h
    split at h
    · simp at h
    split at h
    · simp only at h
      split at h
      · exact ih _ h
      · split at h
        · exact ih _ h
        · exact ih _ h
    · exact ih _ h

/-- The loop over the partitions fails only on an offset. -/
theorem measure_error (h : measure offsets ps clean P = (.error e, Q)) :
    e = .offset ∧ ∃ p ∈ ps, offsets p = none := by
  induction ps generalizing clean P with
  | nil => simp [measure] at h
  | cons p ps ih =>
    have hlater : ∀ (clean : Bool) (P : Process), measure offsets ps clean P = (.error e, Q) →
        e = .offset ∧ ∃ q ∈ p :: ps, offsets q = none := by
      intro clean P h
      obtain ⟨he, q, hq, hnone⟩ := ih P h
      exact ⟨he, q, mem_cons_of_mem p hq, hnone⟩
    rw [measure] at h
    split at h
    · rename_i hnone
      simp only [Prod.mk.injEq, Except.error.injEq] at h
      exact ⟨h.1.symm, p, mem_cons_self, hnone⟩
    split at h
    · simp only at h
      split at h
      · exact hlater _ _ h
      · split at h
        · exact hlater _ _ h
        · exact hlater _ _ h
    · exact hlater _ _ h

theorem measure_spec (hnodup : ps.Nodup) (h : measure offsets ps clean P = (.ok c, Q)) :
    Measured offsets ps P c Q := by
  induction ps generalizing clean P with
  | nil =>
    obtain ⟨-, rfl⟩ := h
    exact ⟨by simp, by simp, by simp, fun _ _ => rfl, by simp⟩
  | cons p _ ih =>
    rw [nodup_cons] at hnodup
    rw [measure] at h
    split at h
    · simp at h
    rename_i min max hoffsets
    have hknown : offsets p ≠ none := by simp [hoffsets]
    have hhas : ∀ max', HasMessages offsets p max' → max' = max ∧ min < max := by
      intro max' hmax
      obtain ⟨min', heq, hlt⟩ := hmax
      rw [hoffsets, Option.some.injEq, Prod.mk.injEq] at heq
      omega
    split at h
    · rename_i hlt
      have hmessages : HasMessages offsets p max := ⟨min, hoffsets, hlt⟩
      have hself : ∀ max', HasMessages offsets p max' →
          update P.newest p max p = max' := by
        intro max' hmax
        rw [update_self, (hhas max' hmax).1]
      simp only at h
      split at h
      · -- A dead partition that is not empty.
        have hc := measure_false _ h
        refine (ih _ hnodup.2 h).cons hnodup.1 hknown rfl rfl
          (fun q hq => update_of_ne hq _ _) hself (fun hnone => absurd hmessages (hnone max)) ?_
        simp [hc]
      rename_i hdead
      split at h
      · have hc := measure_false _ h
        refine (ih _ hnodup.2 h).cons hnodup.1 hknown rfl rfl (fun q hq => update_of_ne hq _ _)
          hself (fun hnone => absurd hmessages (hnone max)) ?_
        simp [hc]
      rename_i hzero
      refine (ih _ hnodup.2 h).cons hnodup.1 hknown rfl rfl (fun q hq => update_of_ne hq _ _) hself
        (fun hnone => absurd hmessages (hnone max)) ?_
      intro _ max' hmax
      rw [(hhas max' hmax).1]
      refine ⟨fun hp => ?_, fun hp => ?_⟩
      · by_contra hlive
        exact hdead ⟨hp, by simpa [live] using hlive⟩
      · by_contra hgt
        exact hzero ⟨hp, Nat.lt_of_not_le hgt⟩
    · rename_i hge
      have hnone : ∀ max', ¬ HasMessages offsets p max' := fun max' hmax => hge (hhas max' hmax).2
      exact (ih _ hnodup.2 h).cons hnodup.1 hknown rfl rfl (fun _ _ => rfl) (fun max' hmax => absurd
        hmax (hnone max')) (fun _ => rfl) (fun _ max' hmax => absurd hmax (hnone max'))

/-! ## The plan -/

theorem plan_eq :
    P.plan members order order' partitions offsets =
      match measure offsets partitions true (P.merged (members.map Prod.snd)) with
      | (.error e, Q) => (.error e, Q)
      | (.ok clean, Q) =>
        match assignFree Q.isFree 0 order (partitions.drop 1) Q.node2partition with
        | (false, table) => (.error .tooFewPartitions, { Q with node2partition := table })
        | (true, table) =>
          if clean then
            (.ok ({ Q with node2partition := table }.cleanPlan members order'),
              { Q with node2partition := table, recovery := none })
          else
            (.ok ({ Q with node2partition := table }.recoveryPlan members partitions),
              { Q with node2partition := table }) := by
  have hmerged : (members.foldl (fun P m => P.visit m.2) P.reset).discard
      (members.map (fun m => m.2.node)) = P.merged (members.map Prod.snd) := by
    unfold merged visitAll
    rw [foldl_map, map_map]
    rfl
  rw [← hmerged]
  rfl

/-- What a plan makes of the variables of the leader. -/
structure PlanEffect (P : Process) (vs : List Info) (order : List String) (size : Nat)
    (offsets : Nat → Option (Nat × Nat)) (Q : Process) : Prop where
  self : Q.self = P.self
  userData : Q.userData = P.userData
  services : Q.service2nodes = (P.merged vs).service2nodes
  offset0 : Q.offset0 = (P.merged vs).offset0
  max0 : Q.max0 = P.max0 ∨ HasMessages offsets 0 Q.max0
  kept : ∀ n, (P.merged vs).node2partition n ≠ 0 →
    Q.node2partition n = (P.merged vs).node2partition n
  other : ∀ n, n ∉ order → Q.node2partition n = (P.merged vs).node2partition n
  /-- A node gets an empty partition of no live node. -/
  new : ∀ n, (P.merged vs).node2partition n = 0 → Q.node2partition n ≠ 0 →
    Q.node2partition n < size ∧ (P.merged vs).live (Q.node2partition n) = false ∧
      ∀ max, ¬ HasMessages offsets (Q.node2partition n) max
  inj : ∀ n n', (P.merged vs).node2partition n = 0 → (P.merged vs).node2partition n' = 0 →
    Q.node2partition n ≠ 0 → Q.node2partition n = Q.node2partition n' → n = n'

/-- The partitions that can be given to a node. -/
theorem mem_drop_range : p ∈ (range size).drop 1 ↔ p ≠ 0 ∧ p < size := by
  cases size with
  | zero => simp
  | succ =>
    rw [range_succ_eq_map, drop_succ_cons, drop_zero, mem_map]
    constructor
    · rintro ⟨q, hq, rfl⟩
      rw [mem_range] at hq
      omega
    · rintro ⟨hp, hlt⟩
      exact ⟨p - 1, mem_range.mpr (by omega), by omega⟩

section Plan

variable {P} {members : List (String × Info)}

/-- A plan that measured the partitions and then handed out free ones. -/
theorem planEffect_of_assigned
    (hmeasure : measure offsets (range size) true (P.merged (members.map Prod.snd)) =
      (.ok clean, Q₀)) {recovery : Option (Nat → Bool)}
    (hassign : assignFree Q₀.isFree 0 order ((range size).drop 1) Q₀.node2partition =
      (enough, table)) :
    PlanEffect P (members.map Prod.snd) order size offsets
      { Q₀ with node2partition := table, recovery := recovery } := by
  have hmeasured := measure_spec _ nodup_range hmeasure
  obtain ⟨newest, max0, hQ₀, hmax⟩ := measure_frame (P.merged (members.map Prod.snd)) offsets
    (range size) true
  rw [hmeasure] at hQ₀
  simp only at hQ₀
  have hframe := P.reset.visitAll_frame (members.map Prod.snd)
  have hbs : (0 : Nat) ∉ (range size).drop 1 := fun h => (mem_drop_range.mp h).1 rfl
  have hassigned := assignFree_assigned hbs (nodup_range.sublist (drop_sublist _ _)) hassign
  have htable : Q₀.node2partition = (P.merged (members.map Prod.snd)).node2partition := by rw [hQ₀]
  rw [htable] at hassigned
  refine ⟨?_, ?_, ?_, ?_, ?_, hassigned.kept, hassigned.other, ?_, hassigned.inj⟩
  · rw [hQ₀]
    exact hframe.1
  · rw [hQ₀]
    exact hframe.2.1
  · rw [hQ₀]
  · rw [hQ₀]
  · rw [hQ₀]
    rcases hmax with hmax | ⟨-, hmax⟩
    · left
      rw [hmax]
      exact hframe.2.2.2.2
    · exact .inr hmax
  intro n hn hn'
  obtain ⟨hmem, hfree⟩ := hassigned.new n hn hn'
  obtain ⟨-, hlt⟩ := mem_drop_range.mp hmem
  simp only [isFree, Bool.and_eq_true, Bool.not_eq_true', decide_eq_true_eq] at hfree
  refine ⟨hlt, ?_, ?_⟩
  · have hlive := hfree.1
    rw [hQ₀] at hlive
    exact hlive
  · intro max hmessages
    have hnewest := hmeasured.nonempty _ (mem_range.mpr hlt) max hmessages
    obtain ⟨min, -, hlt'⟩ := hmessages
    omega

theorem plan_effect (h : P.plan members order order' (range size) offsets = (r, Q)) :
    PlanEffect P (members.map Prod.snd) order size offsets Q := by
  rw [plan_eq] at h
  cases hmeasure : measure offsets (range size) true (P.merged (members.map Prod.snd)) with
  | mk res Q₀ =>
    rw [hmeasure] at h
    cases res with
    | error =>
      -- The table is the one of the members.
      cases h
      obtain ⟨newest, max0, hQ, hmax⟩ := measure_frame (P.merged (members.map Prod.snd)) offsets
        (range size) true
      rw [hmeasure] at hQ
      subst hQ
      have hframe := P.reset.visitAll_frame (members.map Prod.snd)
      refine ⟨hframe.1, hframe.2.1, rfl, rfl, ?_, fun _ _ => rfl, fun _ _ => rfl,
        fun n hn hn' => absurd hn hn', fun n n' hn _ hn' => absurd hn hn'⟩
      rcases hmax with hmax | ⟨-, hmax⟩
      · left
        rw [hmax]
        exact hframe.2.2.2.2
      · exact .inr hmax
    | ok =>
      simp only at h
      cases hassign : assignFree Q₀.isFree 0 order ((range size).drop 1) Q₀.node2partition with
      | mk enough table =>
        rw [hassign] at h
        have heffect : ∀ recovery, PlanEffect P (members.map Prod.snd) order size offsets
            { Q₀ with node2partition := table, recovery := recovery } :=
          fun recovery => planEffect_of_assigned hmeasure hassign
        cases enough with
        | false =>
          simp only [Prod.mk.injEq] at h
          rw [← h.2]
          exact heffect Q₀.recovery
        | true =>
          simp only at h
          split at h
          · simp only [Prod.mk.injEq] at h
            rw [← h.2]
            exact heffect none
          · simp only [Prod.mk.injEq] at h
            rw [← h.2]
            exact heffect Q₀.recovery

/-- A plan that succeeds gives every member a partition.  It is clean, and every
partition that is not empty is taken care of, or it is the plan of a recovery. -/
theorem plan_ok (h : P.plan members order order' (range size) offsets = (.ok pl, Q)) :
    (∀ n ∈ order, Q.node2partition n ≠ 0) ∧ ((Q.recovery = none ∧ pl = Q.cleanPlan members order' ∧
      ∀ p, p < size → offsets p ≠ none ∧ ∀ max, HasMessages offsets p max → (p ≠ 0 → (P.merged
      (members.map Prod.snd)).live p = true) ∧ (p = 0 → max ≤ (P.merged (members.map
      Prod.snd)).offset0)) ∨ (Q.recovery = (P.merged (members.map Prod.snd)).recovery ∧ pl =
      Q.recoveryPlan members (range size) ∧ ∀ p, p < size → offsets p ≠ none ∧ (Q.newest p > 0 ↔ ∃
      max, HasMessages offsets p max) ∧ ∀ max, HasMessages offsets p max → Q.newest p = max)) := by
  rw [plan_eq] at h
  cases hmeasure : measure offsets (range size) true (P.merged (members.map Prod.snd)) with
  | mk res Q₀ =>
    rw [hmeasure] at h
    cases res with
    | error => simp at h
    | ok =>
      simp only at h
      have hmeasured := measure_spec _ nodup_range hmeasure
      obtain ⟨newest, max0, hQ₀, -⟩ := measure_frame (P.merged (members.map Prod.snd)) offsets
        (range size) true
      rw [hmeasure] at hQ₀
      simp only at hQ₀
      cases hassign : assignFree Q₀.isFree 0 order ((range size).drop 1) Q₀.node2partition with
      | mk enough =>
        rw [hassign] at h
        cases enough with
        | false => simp at h
        | true =>
          have hbs : (0 : Nat) ∉ (range size).drop 1 := fun h => (mem_drop_range.mp h).1 rfl
          have hne := fun n (hn : n ∈ order) =>
            assignFree_ne hbs (nodup_range.sublist (drop_sublist _ _)) hassign hn
          simp only at h
          split at h
          · rename_i hclean
            cases h
            refine ⟨hne, .inl ⟨rfl, rfl, fun p hp => ?_⟩⟩
            have hmem := mem_range.mpr hp
            exact ⟨hmeasured.known p hmem, hmeasured.clean hclean p hmem⟩
          cases h
          refine ⟨hne, .inr ⟨by rw [hQ₀], rfl, fun p hp => ?_⟩⟩
          have hmem := mem_range.mpr hp
          refine ⟨hmeasured.known p hmem, ⟨fun hnewest => ?_, ?_⟩, hmeasured.nonempty p hmem⟩
          · by_contra hnone
            simp only [not_exists] at hnone
            have hzero : Q₀.newest p = 0 := by
              rw [hmeasured.empty p hmem hnone]
              show (P.reset.visitAll (members.map Prod.snd)).newest p = 0
              rw [(P.reset.visitAll_frame _).2.2.2.1]
              rfl
            simp only [hzero] at hnewest
            omega
          · rintro ⟨max, hmax⟩
            have hnewest := hmeasured.nonempty p hmem max hmax
            obtain ⟨min, -, hlt⟩ := hmax
            simp only [hnewest]
            omega

end Plan

/-! ## What the members get -/

/-- A topic without partitions needs no recovery. -/
theorem size_pos_of_unclean {P : Process}
    (h : P.plan members order order' (range size) offsets = (.ok pl, Q))
    (hrecovery : Q.recovery ≠ none) : 0 < size := by
  rcases Nat.eq_zero_or_pos size with rfl | hpos
  · rw [plan_eq, range_zero] at h
    simp only [measure] at h
    split at h
    · simp at h
    simp only [if_true, Prod.mk.injEq] at h
    rw [← h.2] at hrecovery
    exact absurd rfl hrecovery
  · exact hpos

theorem node2member_of_mem (hnodup : (members.map (fun m => m.2.node)).Nodup) (hm : m ∈ members) :
    node2member members m.2.node = m.1 :=
  foldl_update_of_mem (fun m : String × Info => m.2.node) Prod.fst hnodup hm _

theorem foldl_add (f : String → String) (t : String → Nat) (order : List String) (plan : BalancePlan)
    (m : String) :
    order.foldl (fun plan n => plan.add (f n) (t n)) plan m =
      plan m ++ (order.filter (fun n => decide (f n = m))).map t := by
  induction order generalizing plan with
  | nil => simp
  | cons n _ ih =>
    rw [foldl_cons, ih, BalancePlan.add]
    by_cases hn : f n = m
    · subst hn
      simp
    · simp [hn, update_of_ne (Ne.symm hn)]

section Members

variable {members : List (String × Info)} (hids : (members.map Prod.fst).Nodup)
  (hnodes : (members.map (fun m => m.2.node)).Nodup)

include hids hnodes

/-- Two members with one id are the same member. -/
theorem node2member_inj (hm : m ∈ members) (hm' : m' ∈ members)
    (heq : node2member members m.2.node = node2member members m'.2.node) : m = m' := by
  rw [node2member_of_mem hnodes hm, node2member_of_mem hnodes hm'] at heq
  exact inj_on_of_nodup_map hids hm hm' heq

/-- A clean plan: each member gets the partition of its node. -/
theorem cleanPlan_apply (horder : order.Perm (members.map (fun m => m.2.node))) (hm : m ∈ members) :
    P.cleanPlan members order m.1 = [P.node2partition m.2.node] := by
  unfold cleanPlan
  rw [foldl_add]
  have hselect : order.filter (fun n => decide (node2member members n = m.1)) = [m.2.node] := by
    refine filter_eq_singleton (horder.symm.nodup hnodes) (horder.symm.subset
      (mem_map_of_mem (f := fun m : String × Info => m.2.node) hm)) ?_
    intro n hn
    obtain ⟨m', hm', rfl⟩ := mem_map.mp (horder.subset hn)
    rw [decide_eq_true_eq]
    constructor
    · intro heq
      rw [← node2member_of_mem hnodes hm] at heq
      rw [node2member_inj hids hnodes hm' hm heq]
    · intro heq
      rw [heq, node2member_of_mem hnodes hm]
  rw [hselect]
  rfl

omit hids hnodes in
theorem foldl_add_if (member : String) (q : Nat → Prop) [DecidablePred q] (ps : List Nat)
    (plan : BalancePlan) (m : String) :
    ps.foldl (fun plan p => if q p then plan.add member p else plan) plan m =
      plan m ++ if m = member then ps.filter (fun p => decide (q p)) else [] := by
  induction ps generalizing plan with
  | nil => simp
  | cons p _ ih =>
    rw [foldl_cons, ih]
    by_cases hp : q p
    · by_cases hm : m = member
      · subst hm
        simp [hp, BalancePlan.add]
      · simp [hp, hm, BalancePlan.add]
    · simp [hp]

omit hids in
/-- The plan of a recovery: the leader gets what is not empty, and partition `0`. -/
theorem recoveryPlan_apply (hleader : leader ∈ members)
    (hself : P.self.node = leader.2.node) (m : String) :
    P.recoveryPlan members partitions m = if m = leader.1 then
      partitions.filter (fun p => decide (p = 0 ∨ P.newest p > 0)) else [] := by
  unfold recoveryPlan
  rw [foldl_add_if (node2member members P.self.node) (fun p => p = 0 ∨ P.newest p > 0), hself,
    node2member_of_mem hnodes hleader]
  rfl

end Members

end Process

end Kar.Rpc
