import Kar.Rpc.Generations

/-!
# Every generation assigns partitions safely

The leader mixes what the members publish with what it remembers of its own plans.
`GroupInv.inj` says that for every process that could lead, no two members share a
partition in that mixture.  It holds as long as no process that missed a generation
takes part in a later one: such a process publishes a partition that may have been
given to another node in the meantime, or leads with a table that is out of date.
-/

namespace Kar.Rpc

open Kar.Lib List Function

namespace Consumers

/-- A process that has taken part in everything since it started. -/
def Present (s : Consumers) (n : String) : Prop := n ∈ s.known ∧ s.missed n = false

/-- The partition of node `n`, as far as it was decided. -/
def partition (s : Consumers) (n : String) : Nat := (s.procs n).self.partition

/-- The partition that node `l` would know for node `n` if it led. -/
def knows (s : Consumers) (l n : String) : Nat :=
  if s.partition n = 0 then (s.procs l).node2partition n else s.partition n

/-- A plan that gives each member the partition of its node. -/
structure CleanPlan (s : Consumers) (members : List (String × Info)) (plan : BalancePlan) : Prop where
  one : ∀ m ∈ members, ∃ p, plan m.1 = [p] ∧ p ≠ 0
  same : ∀ m ∈ members, s.partition m.2.node ≠ 0 → plan m.1 = [s.partition m.2.node]
  distinct : ∀ m ∈ members, ∀ m' ∈ members, plan m.1 = plan m'.1 → m = m'

structure GenerationOk (s : Consumers) (g : Generation) : Prop where
  known : ∀ n ∈ g.nodes, n ∈ s.known
  nodes : g.nodes.Nodup
  leader : g.leader ∈ g.nodes
  /-- A process that started after the plan knows nothing yet, and nobody knows it. -/
  late : ∀ n, s.Present n → n ∉ g.nodes → s.partition n = 0 ∧
    (∀ x, (s.procs n).node2partition x = 0) ∧ ∀ l, (s.procs l).node2partition n = 0
  plan : ((s.procs g.leader).recovery = none ∧ s.CleanPlan g.members g.plan) ∨
    ((s.procs g.leader).recovery.isSome = true ∧
      ∀ m ∈ g.members, m.2.node ≠ g.leader → g.plan m.1 = [])

/-- A process publishes its own info. -/
structure Named (s : Consumers) : Prop where
  names : ∀ n, (s.procs n).self.node = n
  published : ∀ n, (s.procs n).userData = (s.procs n).self

structure GroupInv (s : Consumers) : Prop extends Named s where
  fresh : ∀ n, n ∉ s.known → s.partition n = 0
  tables : ∀ l n, n ∉ s.known → (s.procs l).node2partition n = 0
  inj : ∀ l n n', s.Present l → s.Present n → s.Present n' → s.knows l n ≠ 0 →
    s.knows l n = s.knows l n' → n = n'
  assigned : ∀ n, ∀ p ∈ s.assigned n, s.partition n = p ∧ p ≠ 0
  decided : ∀ n, s.partition n ≠ 0 → s.partition n ∈ s.assigned n
  generation : ∀ g, s.generation = some g → s.GenerationOk g

theorem groupInv_init : GroupInv .init where
  names := fun _ => rfl
  published := fun _ => rfl
  fresh := fun _ _ => rfl
  tables := fun _ _ _ => rfl
  inj := by
    intro l n n' hl
    simp [Present, init] at hl
  assigned := by simp [init]
  decided := by
    intro n hn
    exact absurd rfl hn
  generation := by simp [init]

variable {s : Consumers} {g : Generation} {pl : BalancePlan}

/-- What a leader knows is what its plan works with. -/
theorem Named.knows_eq (h : s.Named) :
    (s.procs l).knows (s.procs n).userData = s.knows l n := by
  unfold knows Process.knows partition
  rw [h.published n, h.names n]
  split
  · rename_i hpos
    rw [if_neg (Nat.ne_of_gt hpos)]
  · rw [if_pos (by omega)]

/-- The claims of a member. -/
theorem claims_of_mem (hnodes : g.nodes.Nodup) {m : String × Info}
    (hm : m ∈ g.members) : g.claims m.2.node = g.plan m.1 := by
  have hfind : g.members.find? (fun m' => decide (m'.2.node = m.2.node)) = some m := by
    rw [find?_eq_some_iff_append]
    refine ⟨by simp, ?_⟩
    obtain ⟨as, bs, hsplit⟩ := append_of_mem hm
    refine ⟨as, bs, hsplit, fun a ha => ?_⟩
    simp only [Bool.not_eq_eq_eq_not, Bool.not_true, decide_eq_false_iff_not]
    intro heq
    unfold Generation.nodes at hnodes
    rw [hsplit, map_append, map_cons, nodup_append] at hnodes
    exact hnodes.2.2 _ (mem_map_of_mem (f := fun m : String × Info => m.2.node) ha) _
      mem_cons_self heq
  unfold Generation.claims
  rw [hfind]

theorem claims_of_not_mem (hn : n ∉ g.nodes) : g.claims n = [] := by
  unfold Generation.claims
  split
  · rename_i m hfind
    have hnode := find?_some hfind
    simp only [decide_eq_true_eq] at hnode
    exact absurd (mem_map.mpr ⟨m, mem_of_find?_eq_some hfind, hnode⟩) hn
  · rfl

/-! ## Starting -/

section Start

variable {s : Consumers} (h : s.GroupInv) {n : String} {services : List String} (hn : n ∉ s.known)

theorem start_of_ne {x : String} (hx : x ≠ n) : (s.start n services).procs x = s.procs x :=
  update_of_ne hx _ _

theorem start_self : (s.start n services).procs n = .dial n services := update_self _ _ _

theorem start_table (l x : String) : ((s.start n services).procs l).node2partition x =
    if l = n then 0 else (s.procs l).node2partition x := by
  split
  · rename_i hl
    rw [hl, start_self]
    rfl
  · rename_i hl
    rw [start_of_ne hl]

theorem Named.start (h : s.Named) (n : String) (services : List String) :
    (s.start n services).Named := by
  refine ⟨fun x => ?_, fun x => ?_⟩
  · by_cases hx : x = n
    · rw [hx, start_self]
      rfl
    · rw [start_of_ne hx]
      exact h.names x
  · by_cases hx : x = n
    · rw [hx, start_self]
      rfl
    · rw [start_of_ne hx]
      exact h.published x

theorem present_of_start {x : String} (hx : x ≠ n) (hp : (s.start n services).Present x) :
    s.Present x :=
  ⟨(mem_cons.mp hp.1).resolve_left hx, hp.2⟩

include h hn

theorem start_partition (x : String) : (s.start n services).partition x = s.partition x := by
  unfold partition
  by_cases hx : x = n
  · rw [hx, start_self]
    exact (h.fresh n hn).symm
  · rw [start_of_ne hx]

/-- The new process knows what is published, and nobody knows it. -/
theorem knows_start (l x : String) : (s.start n services).knows l x =
    if l = n then s.partition x else s.knows l x := by
  unfold knows
  rw [start_partition h hn, start_table]
  split
  · rename_i hx
    simp [hx]
  · simp

theorem knows_of_new (l : String) : s.knows l n = 0 := by
  unfold knows
  rw [if_pos (h.fresh n hn)]
  exact h.tables l n hn

end Start

theorem GroupInv.dial (h : s.GroupInv) (services : List String)
    (hn : n ∉ s.known) : (s.start n services).GroupInv := by
  -- Neither the partitions nor what a process before knows changes.
  have hpartition := @start_partition s h n services hn
  have htable := @start_table s n services
  have hpresent := fun x => @present_of_start s n services x
  have hknows := @knows_start s h n services hn
  refine ⟨h.toNamed.start n services, ?_, ?_, ?_, ?_, ?_, ?_⟩
  · intro x hx
    rw [hpartition]
    exact h.fresh x fun hmem => hx (mem_cons_of_mem n hmem)
  · intro l x hx
    rw [htable]
    split
    · rfl
    · exact h.tables l x fun hmem => hx (mem_cons_of_mem n hmem)
  · intro l x x' hl hx hx' hne heq
    rw [hknows] at hne heq
    rw [hknows] at heq
    -- Nobody knows a partition of the new process.
    have hzero : ∀ y, (if l = n then s.partition y else s.knows l y) ≠ 0 → y ≠ n := by
      rintro y hy rfl
      apply hy
      split
      · exact h.fresh y hn
      · exact knows_of_new h hn l
    have hx := hpresent x (hzero x hne) hx
    have hx' := hpresent x' (hzero x' (heq ▸ hne)) hx'
    by_cases hln : l = n
    · rw [if_pos hln] at hne heq
      rw [if_pos hln] at heq
      have hself : ∀ y, s.partition y ≠ 0 → s.knows x y = s.partition y := fun y hy => if_neg hy
      apply h.inj x x x' hx hx hx'
      · rw [hself x hne]
        exact hne
      · rw [hself x hne, hself x' (heq ▸ hne), heq]
    · rw [if_neg hln] at hne heq
      rw [if_neg hln] at heq
      exact h.inj l x x' (hpresent l hln hl) hx hx' hne heq
  · intro x p hp
    rw [hpartition]
    exact h.assigned x p hp
  · intro x hx
    rw [hpartition] at hx ⊢
    exact h.decided x hx
  · intro g hg
    have hold := h.generation g hg
    have hleader : g.leader ≠ n := fun heq => hn (heq ▸ hold.known _ hold.leader)
    refine ⟨fun x hx => mem_cons_of_mem n (hold.known x hx), hold.nodes, hold.leader, ?_, ?_⟩
    · intro x hx hnot
      rw [hpartition]
      by_cases hxn : x = n
      · refine ⟨hxn ▸ h.fresh n hn, fun y => ?_, fun l => ?_⟩
        · rw [htable, if_pos hxn]
        · rw [htable, hxn, h.tables l n hn, ite_self]
      obtain ⟨hpart, htable₁, htable₂⟩ := hold.late x (hpresent x hxn hx) hnot
      refine ⟨hpart, fun y => ?_, fun l => ?_⟩
      · rw [htable, if_neg hxn]
        exact htable₁ y
      · rw [htable, htable₂ l, ite_self]
    · rw [start_of_ne hleader]
      refine hold.plan.imp_left fun hclean => ⟨hclean.1, hclean.2.one, ?_, hclean.2.distinct⟩
      intro m hm
      rw [hpartition]
      exact hclean.2.same m hm

/-! ## Planning -/

/-- What the plan of a recovery gives to the members. -/
def RecoveryPlan (leader : String) (members : List (String × String)) (size : Nat)
    (offsets : Nat → Option (Nat × Nat)) (pl : BalancePlan) : Prop :=
  ∀ m ∈ members, (m.2 = leader → ∀ p, p ∈ pl m.1 ↔
      p = 0 ∨ (p < size ∧ ∃ max, HasMessages offsets p max)) ∧
    (m.2 ≠ leader → pl m.1 = [])

section Plan

variable {s : Consumers} (h : s.Named) {leader : String} {members : List (String × String)}
  (hjoined : s.Joined leader members order order')

include h

theorem userData_node (n : String) : (s.procs n).userData.node = n := by
  rw [h.published, h.names]

theorem infos_nodes : ((s.infos members).map Prod.snd).map Info.node = members.map Prod.snd := by
  unfold infos
  rw [map_map, map_map]
  apply map_congr_left
  intro m _
  exact userData_node h m.2

theorem infos_nodes' : (s.infos members).map (fun m => m.2.node) = members.map Prod.snd := by
  rw [← infos_nodes h, map_map]
  rfl

omit h in
theorem infos_ids : (s.infos members).map Prod.fst = members.map Prod.fst := by
  unfold infos
  rw [map_map]
  rfl

omit h in
theorem info_of_mem (hm : m ∈ members) :
    (m.1, (s.procs m.2).userData) ∈ s.infos members :=
  mem_map_of_mem (f := fun m : String × String => (m.1, (s.procs m.2).userData)) hm

omit h in
theorem mem_infos (hn : n ∈ members.map Prod.snd) :
    (s.procs n).userData ∈ (s.infos members).map Prod.snd := by
  obtain ⟨m, hm, rfl⟩ := mem_map.mp hn
  exact mem_map.mpr ⟨_, mem_map_of_mem hm, rfl⟩

include hjoined

theorem infos_nodup : (((s.infos members).map Prod.snd).map Info.node).Nodup := by
  rw [infos_nodes h]
  exact hjoined.nodes

theorem infos_nodup' : ((s.infos members).map (fun m => m.2.node)).Nodup := by
  rw [infos_nodes' h]
  exact hjoined.nodes

omit h in
theorem infos_ids_nodup : ((s.infos members).map Prod.fst).Nodup := by
  rw [infos_ids]
  exact hjoined.ids

/-- The table of the leader after the loops over the members. -/
theorem merged_eq (n : String) :
    ((s.procs leader).merged ((s.infos members).map Prod.snd)).node2partition n =
      if n ∈ members.map Prod.snd then s.knows leader n else 0 := by
  split
  · rename_i hn
    have hmem := mem_infos (s := s) hn
    have hmerged := (s.procs leader).merged_of_mem (infos_nodup h hjoined) hmem
    rw [userData_node h] at hmerged
    rw [hmerged, h.knows_eq]
  · apply Process.merged_of_not_mem
    rwa [infos_nodes h]

theorem live_iff {p : Nat} :
    ((s.procs leader).merged ((s.infos members).map Prod.snd)).live p = true ↔
      p ≠ 0 ∧ ∃ n ∈ members.map Prod.snd, s.knows leader n = p := by
  rw [Process.merged_live _ (infos_nodup h hjoined)]
  constructor
  · rintro ⟨hp, v, hv, hknows⟩
    obtain ⟨m, hm, rfl⟩ := mem_map.mp hv
    obtain ⟨m', hm', rfl⟩ := mem_map.mp hm
    exact ⟨hp, m'.2, mem_map_of_mem hm', by rw [← h.knows_eq]; exact hknows⟩
  · rintro ⟨hp, n, hn, hknows⟩
    exact ⟨hp, _, mem_infos hn, by rw [h.knows_eq]; exact hknows⟩

variable {r : Except PlanError BalancePlan} {Q : Process}
  (hplan : s.planned leader members order order' size offsets = (r, Q))

include hplan

/-- What the leader knows after the plan is its table. -/
theorem table_of_mem (hn : n ∈ members.map Prod.snd) (hknown : s.knows leader n ≠ 0) :
    Q.node2partition n = s.knows leader n := by
  have heffect := Process.plan_effect hplan
  have hmerged := merged_eq h hjoined n
  rw [if_pos hn] at hmerged
  rw [heffect.kept n (by rwa [hmerged]), hmerged]

/-- A member that the leader knew no partition for gets an empty one of nobody. -/
theorem table_new (hn : n ∈ members.map Prod.snd) (hknown : s.knows leader n = 0)
    (hq : Q.node2partition n ≠ 0) : Q.node2partition n < size ∧ (∀ x ∈ members.map Prod.snd, s.knows
      leader x ≠ Q.node2partition n) ∧ ∀ max, ¬ HasMessages offsets (Q.node2partition n) max := by
  have heffect := Process.plan_effect hplan
  have hmerged := merged_eq h hjoined n
  rw [if_pos hn, hknown] at hmerged
  obtain ⟨hlt, hlive, hempty⟩ := heffect.new n hmerged hq
  refine ⟨hlt, fun x hx heq => ?_, hempty⟩
  rw [(live_iff h hjoined).mpr ⟨hq, x, hx, heq⟩] at hlive
  simp at hlive

/-- A clean plan gives each member the partition of its node in the table of the leader. -/
theorem clean_apply (hr : r = .ok pl) (hclean : Q.recovery = none) (hm : m ∈ members) :
    pl m.1 = [Q.node2partition m.2] ∧ Q.node2partition m.2 ≠ 0 := by
  subst hr
  obtain ⟨hset, ⟨-, hpl, -⟩ | ⟨hrecovery, -⟩⟩ := Process.plan_ok hplan
  · have horder : order'.Perm ((s.infos members).map (fun m => m.2.node)) := by
      rw [infos_nodes' h]
      exact hjoined.order'
    have happly := Process.cleanPlan_apply Q (infos_ids_nodup hjoined) (infos_nodup' h hjoined) horder
      (info_of_mem hm)
    rw [userData_node h] at happly
    refine ⟨hpl ▸ happly, hset m.2 (hjoined.order.symm.subset (mem_map_of_mem hm))⟩
  · rw [hclean] at hrecovery
    simp [Process.merged, Process.discard] at hrecovery

/-- The plan of a recovery gives everything to the leader. -/
theorem unclean_apply (hr : r = .ok pl) (hrecovery : Q.recovery ≠ none)
    (hm : m ∈ members) : pl m.1 = if m.2 = leader then
      (range size).filter (fun p => decide (p = 0 ∨ Q.newest p > 0)) else [] := by
  subst hr
  have heffect := Process.plan_effect hplan
  obtain ⟨-, ⟨hclean, -⟩ | ⟨-, hpl, -⟩⟩ := Process.plan_ok hplan
  · exact absurd hclean hrecovery
  obtain ⟨m₀, hm₀, hlead⟩ := mem_map.mp hjoined.leader
  have hself : Q.self.node = (s.procs m₀.2).userData.node := by
    rw [heffect.self, h.names, userData_node h, hlead]
  rw [hpl, Process.recoveryPlan_apply Q (infos_nodup' h hjoined) (info_of_mem hm₀) hself]
  by_cases hm' : m.2 = leader
  · have hsame : m = m₀ := inj_on_of_nodup_map hjoined.nodes hm hm₀ (hm'.trans hlead.symm)
    rw [if_pos hm', if_pos (congrArg Prod.fst hsame)]
  · rw [if_neg hm', if_neg]
    intro heq
    have hsame : m = m₀ := inj_on_of_nodup_map hjoined.ids hm hm₀ heq
    exact hm' (by rw [hsame, hlead])

theorem recoveryPlan_of_unclean (hr : r = .ok pl) (hrecovery : Q.recovery ≠ none) :
    RecoveryPlan leader members size offsets pl := by
  have happly := fun m hm => unclean_apply h hjoined hplan hr hrecovery (m := m) hm
  subst hr
  have hsize := Process.size_pos_of_unclean hplan hrecovery
  obtain ⟨-, ⟨hclean, -⟩ | ⟨-, -, hnewest⟩⟩ := Process.plan_ok hplan
  · exact absurd hclean hrecovery
  intro m hm
  refine ⟨fun hm' p => ?_, fun hm' => by rw [happly m hm, if_neg hm']⟩
  rw [happly m hm, if_pos hm', mem_filter, mem_range, decide_eq_true_eq]
  constructor
  · intro hp
    exact hp.2.imp id fun hpos => ⟨hp.1, (hnewest p hp.1).2.1.mp hpos⟩
  · rintro (rfl | ⟨hp, hmax⟩)
    · exact ⟨hsize, Or.inl rfl⟩
    · exact ⟨hp, Or.inr ((hnewest p hp).2.1.mpr hmax)⟩

omit hplan in
/-- The claims of a member in the generation of the plan. -/
theorem claims_of_plan (pl : BalancePlan) (hm : m ∈ members) :
    Generation.claims { leader := leader, members := s.infos members, plan := pl } m.2 = pl m.1 := by
  have hnodes : (Generation.nodes
      { leader := leader, members := s.infos members, plan := pl }).Nodup := infos_nodup' h hjoined
  have hclaims := claims_of_mem hnodes (info_of_mem hm)
  rw [userData_node h] at hclaims
  exact hclaims

omit h hjoined hplan in
/-- The members of a generation, and only they, are still present after its plan. -/
theorem mem_of_present_afterPlan {n : String} (hn : (s.afterPlan leader members r Q).Present n) :
    n ∈ members.map Prod.snd := by
  have hknown : n ∈ s.known := hn.1
  have hmissed := hn.2
  simp only [afterPlan, Bool.or_eq_false_iff, Bool.and_eq_false_iff, decide_eq_false_iff_not,
    not_not] at hmissed
  rcases hmissed.2 with hnot | hmem
  · exact absurd hknown hnot
  · exact hmem

omit h hjoined in
theorem afterPlan_self (n : String) :
    ((s.afterPlan leader members r Q).procs n).self = (s.procs n).self := by
  show (update s.procs leader Q n).self = _
  rw [update_apply]
  split
  · rename_i hn
    rw [hn, (Process.plan_effect hplan).self]
  · rfl

omit hjoined in
theorem Named.afterPlan : (s.afterPlan leader members r Q).Named := by
  refine ⟨fun n => ?_, fun n => ?_⟩
  · rw [afterPlan_self hplan]
    exact h.names n
  rw [afterPlan_self hplan, ← h.published n]
  show (update s.procs leader Q n).userData = _
  rw [update_apply]
  split
  · rename_i hn
    rw [hn, (Process.plan_effect hplan).userData]
  · rfl

omit h hjoined hplan in
theorem afterPlan_table (l n : String) :
    ((s.afterPlan leader members r Q).procs l).node2partition n =
      if l = leader then Q.node2partition n else (s.procs l).node2partition n := by
  show (update s.procs leader Q l).node2partition n = _
  rw [update_apply]
  split
  · rfl
  · rfl

/-- The leader knows what is in its table, and the others know what they knew. -/
theorem knows_afterPlan (l : String) (hn : n ∈ members.map Prod.snd) :
    (s.afterPlan leader members r Q).knows l n =
      if l = leader then Q.node2partition n else s.knows l n := by
  show (if ((s.afterPlan leader members r Q).procs n).self.partition = 0 then
    ((s.afterPlan leader members r Q).procs l).node2partition n
    else ((s.afterPlan leader members r Q).procs n).self.partition) = _
  rw [afterPlan_self hplan, afterPlan_table]
  by_cases hl : l = leader
  · split
    · rfl
    · rename_i hpart
      have hk : s.knows leader n = s.partition n := if_neg hpart
      rw [table_of_mem h hjoined hplan hn (by rwa [hk]), hk]
      rfl
  · rw [if_neg hl, if_neg hl]
    rfl

end Plan

section PlanInv

variable {s : Consumers} (h : s.GroupInv)
  (hjoined : s.Joined leader members order order') {r : Except PlanError BalancePlan}
  (hplan : s.planned leader members order order' size offsets = (r, Q))

include h hjoined hplan

/-- The members have distinct partitions in the table of the leader. -/
theorem table_inj (hpresent : ∀ n ∈ members.map Prod.snd, s.Present n) {n' : String}
    (hn : n ∈ members.map Prod.snd) (hn' : n' ∈ members.map Prod.snd)
    (hne : Q.node2partition n ≠ 0) (heq : Q.node2partition n = Q.node2partition n') : n = n' := by
  have heffect := Process.plan_effect hplan
  have hkeep := fun x hx => table_of_mem h.toNamed hjoined hplan (n := x) hx
  have hnew := fun x hx => table_new h.toNamed hjoined hplan (n := x) hx
  by_cases hk : s.knows leader n = 0
  · by_cases hk' : s.knows leader n' = 0
    · have hmerged := merged_eq h.toNamed hjoined n
      have hmerged' := merged_eq h.toNamed hjoined n'
      rw [if_pos hn, hk] at hmerged
      rw [if_pos hn', hk'] at hmerged'
      exact heffect.inj n n' hmerged hmerged' hne heq
    · exact absurd ((hkeep n' hn' hk').symm.trans heq.symm) ((hnew n hn hk hne).2.1 n' hn')
  · by_cases hk' : s.knows leader n' = 0
    · exact absurd ((hkeep n hn hk).symm.trans heq) ((hnew n' hn' hk' (heq ▸ hne)).2.1 n hn)
    · rw [hkeep n hn hk] at heq
      rw [hkeep n' hn' hk'] at heq
      exact h.inj leader n n' (hpresent leader hjoined.leader) (hpresent n hn) (hpresent n' hn') hk heq

/-- A clean plan gives each member one partition of its own. -/
theorem cleanPlan_of_plan (hpresent : ∀ n ∈ members.map Prod.snd, s.Present n)
    (hr : r = .ok pl) (hclean : Q.recovery = none) : s.CleanPlan (s.infos members) pl := by
  have happly := fun m hm => clean_apply h.toNamed hjoined hplan hr hclean (m := m) hm
  refine ⟨?_, ?_, ?_⟩
  · intro i hi
    obtain ⟨m, hm, rfl⟩ := mem_map.mp hi
    exact ⟨_, happly m hm⟩
  · intro i hi
    obtain ⟨m, hm, rfl⟩ := mem_map.mp hi
    simp only [userData_node h.toNamed]
    intro hpart
    have hknows : s.knows leader m.2 = s.partition m.2 := if_neg hpart
    rw [(happly m hm).1, table_of_mem h.toNamed hjoined hplan (mem_map_of_mem hm) (by rwa [hknows]),
      hknows]
  · intro i hi i' hi' heq
    obtain ⟨m, hm, rfl⟩ := mem_map.mp hi
    obtain ⟨m', hm', rfl⟩ := mem_map.mp hi'
    simp only [(happly m hm).1, (happly m' hm').1, cons.injEq, and_true] at heq
    have hnode := table_inj h hjoined hplan hpresent (mem_map_of_mem hm)
      (mem_map_of_mem hm') (happly m hm).2 heq
    rw [inj_on_of_nodup_map hjoined.nodes hm hm' hnode]

theorem GroupInv.plan (hpresent : ∀ n ∈ members.map Prod.snd, s.Present n) :
    (s.afterPlan leader members r Q).GroupInv := by
  have heffect := Process.plan_effect hplan
  have hmember := fun n => @mem_of_present_afterPlan s leader members r Q n
  have hself : (s.afterPlan leader members r Q).procs leader = Q := update_self _ _ _
  have hpartition := afterPlan_self hplan
  have htable := @afterPlan_table s leader members r Q
  refine ⟨h.toNamed.afterPlan hplan, ?_, ?_, ?_, ?_, ?_, ?_⟩
  · intro n hn
    show ((s.afterPlan leader members r Q).procs n).self.partition = 0
    rw [hpartition]
    exact h.fresh n hn
  · intro l n hn
    rw [htable]
    split
    · have hnot : n ∉ members.map Prod.snd := fun hmem => hn (hjoined.known n hmem)
      rw [heffect.other n fun hmem => hnot (hjoined.order.subset hmem), merged_eq h.toNamed hjoined,
        if_neg hnot]
    · exact h.tables l n hn
  · intro l n n' hl hn hn' hne heq
    have hmem := hmember n hn
    have hmem' := hmember n' hn'
    rw [knows_afterPlan h.toNamed hjoined hplan l hmem] at hne heq
    rw [knows_afterPlan h.toNamed hjoined hplan l hmem'] at heq
    by_cases hlead : l = leader
    · rw [if_pos hlead] at hne heq
      rw [if_pos hlead] at heq
      exact table_inj h hjoined hplan hpresent hmem hmem' hne heq
    · rw [if_neg hlead] at hne heq
      rw [if_neg hlead] at heq
      exact h.inj l n n' (hpresent l (hmember l hl)) (hpresent n hmem) (hpresent n' hmem') hne heq
  · intro n p hp
    show ((s.afterPlan leader members r Q).procs n).self.partition = p ∧ p ≠ 0
    rw [hpartition]
    exact h.assigned n p hp
  · intro n
    show ((s.afterPlan leader members r Q).procs n).self.partition ≠ 0 →
      ((s.afterPlan leader members r Q).procs n).self.partition ∈ s.assigned n
    rw [hpartition]
    exact h.decided n
  · intro g hg
    cases r with
    | error => simp [afterPlan] at hg
    | ok pl =>
      simp only [afterPlan, Option.some.injEq] at hg
      subst hg
      have hnodes : Generation.nodes { leader := leader, members := s.infos members, plan := pl } =
          members.map Prod.snd := infos_nodes' h.toNamed
      refine ⟨?_, ?_, ?_, ?_, ?_⟩
      · rw [hnodes]
        exact hjoined.known
      · rw [hnodes]
        exact hjoined.nodes
      · rw [hnodes]
        exact hjoined.leader
      · intro n hn hnot
        rw [hnodes] at hnot
        exact absurd (hmember n hn) hnot
      simp only [hself]
      cases hrecovery : Q.recovery with
      | none =>
        left
        refine ⟨rfl, ?_⟩
        have hclean := cleanPlan_of_plan h hjoined hplan hpresent rfl hrecovery
        refine ⟨hclean.one, ?_, hclean.distinct⟩
        intro m hm
        show ((s.afterPlan leader members (.ok pl) Q).procs m.2.node).self.partition ≠ 0 →
          pl m.1 = [((s.afterPlan leader members (.ok pl) Q).procs m.2.node).self.partition]
        rw [hpartition]
        intro hpart
        exact hclean.same m hm hpart
      | some =>
        right
        refine ⟨rfl, ?_⟩
        intro i hi
        obtain ⟨m, hm, rfl⟩ := mem_map.mp hi
        simp only [userData_node h.toNamed]
        exact (recoveryPlan_of_unclean h.toNamed hjoined hplan rfl (by simp [hrecovery]) m hm).2

end PlanInv

/-! ## Setting up -/

theorem Named.frame {s' : Consumers} (h : s.Named) (hprocs : ∀ n, (s'.procs n).self = (s.procs n).self ∧
      (s'.procs n).userData = (s.procs n).userData) : s'.Named := by
  refine ⟨fun n => ?_, fun n => ?_⟩
  · rw [(hprocs n).1]
    exact h.names n
  · rw [(hprocs n).1, (hprocs n).2]
    exact h.published n

/-- The invariant only looks at the infos and the tables of the processes. -/
theorem GroupInv.frame {s' : Consumers} (h : s.GroupInv) (hknown : s'.known = s.known)
    (hmissed : s'.missed = s.missed) (hassigned : s'.assigned = s.assigned)
    (hgeneration : s'.generation = none) (hprocs : ∀ n, (s'.procs n).self = (s.procs n).self ∧
      (s'.procs n).userData = (s.procs n).userData ∧
      (s'.procs n).node2partition = (s.procs n).node2partition) : s'.GroupInv := by
  have hpresent : ∀ n, s'.Present n → s.Present n := by
    intro n hn
    unfold Present at hn
    rwa [hknown, hmissed] at hn
  have hpartition : ∀ n, s'.partition n = s.partition n := by
    intro n
    unfold partition
    rw [(hprocs n).1]
  have hknows : ∀ l n, s'.knows l n = s.knows l n := by
    intro l n
    unfold knows
    rw [hpartition, (hprocs l).2.2]
  refine ⟨h.toNamed.frame fun n => ⟨(hprocs n).1, (hprocs n).2.1⟩, ?_, ?_, ?_, ?_, ?_, ?_⟩
  · intro n hn
    rw [hpartition]
    exact h.fresh n (hknown ▸ hn)
  · intro l n hn
    rw [(hprocs l).2.2]
    exact h.tables l n (hknown ▸ hn)
  · intro l n n' hl hn hn'
    rw [hknows, hknows]
    exact h.inj l n n' (hpresent l hl) (hpresent n hn) (hpresent n' hn')
  · intro n
    rw [hassigned, hpartition]
    exact h.assigned n
  · intro n
    rw [hassigned, hpartition]
    exact h.decided n
  · intro g hg
    rw [hgeneration] at hg
    simp at hg

theorem Process.cleanup_of_published {P : Process} (h : P.userData = P.self) : P.cleanup = P := by
  cases P
  simp only [Process.cleanup, Process.mk.injEq, and_true, true_and]
  exact h.symm

/-- A process that does not complete its `Setup` stays as it is. -/
theorem setUp_of_not_completes {s : Consumers} (h : s.Named) {g : Generation}
    {nodes : List String} {n : String} (hn : s.completes g nodes n = false) :
    (s.setUp g nodes).procs n = s.procs n := by
  show (if n ∈ nodes then ((s.procs n).setup g.members g.plan (g.claims n)).cleanup
    else s.procs n) = s.procs n
  split
  · rename_i hmem
    have hsetup : (s.procs n).setup g.members g.plan (g.claims n) = s.procs n := by
      unfold Process.setup
      unfold completes at hn
      split
      · rfl
      · rename_i p ps hclaims
        rw [if_pos]
        simpa [hmem, hclaims] using hn
    rw [hsetup]
    exact Process.cleanup_of_published (h.published n)
  · rfl

theorem Named.setUp (h : s.Named) (g : Generation) (nodes : List String) :
    (s.setUp g nodes).Named := by
  have hnode : ∀ n claims, ((s.procs n).setup g.members g.plan claims).self.node = n := by
    intro n claims
    unfold Process.setup
    split
    · exact h.names n
    · split
      · exact h.names n
      · exact h.names n
  refine ⟨fun n => ?_, fun n => ?_⟩
  · unfold Consumers.setUp
    simp only
    split
    · exact hnode n (g.claims n)
    · exact h.names n
  · unfold Consumers.setUp
    simp only
    split
    · rfl
    · exact h.published n

/-- A `Setup` leaves the services and the recovery variables alone. -/
theorem setUp_frame (s : Consumers) (g : Generation) (nodes : List String) (n : String) :
    ((s.setUp g nodes).procs n).self.services = (s.procs n).self.services ∧ ((s.setUp g nodes).procs
      n).offset0 = (s.procs n).offset0 ∧ ((s.setUp g nodes).procs n).max0 = (s.procs n).max0 ∧
      ((s.setUp g nodes).procs n).recovery = (s.procs n).recovery := by
  have hsetup : ∀ claims, ((s.procs n).setup g.members g.plan claims).self.services =
      (s.procs n).self.services ∧
      ((s.procs n).setup g.members g.plan claims).offset0 = (s.procs n).offset0 ∧
      ((s.procs n).setup g.members g.plan claims).max0 = (s.procs n).max0 ∧
      ((s.procs n).setup g.members g.plan claims).recovery = (s.procs n).recovery := by
    intro claims
    unfold Process.setup
    split
    · exact ⟨rfl, rfl, rfl, rfl⟩
    · split
      · exact ⟨rfl, rfl, rfl, rfl⟩
      · exact ⟨rfl, rfl, rfl, rfl⟩
  unfold setUp
  simp only
  split
  · exact hsetup (g.claims n)
  · exact ⟨rfl, rfl, rfl, rfl⟩

/-- A process that completes its `Setup` has a partition, and the table of the group. -/
theorem setUp_of_completes {nodes : List String}
    (hn : s.completes g nodes n = true) : ∃ p ps, g.claims n = p :: ps ∧ ((s.setUp g nodes).procs
      n).self = { (s.procs n).self with partition := p } ∧ ((s.setUp g nodes).procs n).userData =
      ((s.setUp g nodes).procs n).self ∧ ((s.setUp g nodes).procs n).node2partition =
      g.members.foldl (fun t m => update t m.2.node ((g.plan m.1).headD 0)) (fun _ => 0) := by
  simp only [completes, Bool.and_eq_true, decide_eq_true_eq, Option.isNone_iff_eq_none] at hn
  obtain ⟨⟨hmem, hclaims⟩, hrecovery⟩ := hn
  cases hc : g.claims n with
  | nil => simp [hc] at hclaims
  | cons p ps =>
    have hproc : (s.setUp g nodes).procs n = Process.cleanup
        { (s.procs n).updateRoutes g.members g.plan with
          self := { (s.procs n).self with partition := p } } := by
      show (if n ∈ nodes then ((s.procs n).setup g.members g.plan (g.claims n)).cleanup
        else s.procs n) = _
      rw [if_pos hmem, hc]
      unfold Process.setup
      simp only [hrecovery, Option.isSome_none, Bool.false_eq_true, if_false]
    refine ⟨p, ps, rfl, ?_, ?_, ?_⟩
    · rw [hproc]
      rfl
    · rw [hproc]
      rfl
    · rw [hproc]
      rfl

section SetUp

variable {s : Consumers} (h : s.GroupInv) (hg : s.generation = some g)

/-- Only a member completes its `Setup`. -/
theorem mem_of_completes (hn : s.completes g nodes n = true) : n ∈ g.nodes := by
  by_contra hnot
  simp [completes, claims_of_not_mem hnot] at hn

include h hg

/-- Only the members of a clean generation complete their `Setup`. -/
theorem clean_of_completes (hn : s.completes g nodes n = true) :
    (s.procs g.leader).recovery = none ∧ s.CleanPlan g.members g.plan := by
  have hok := h.generation g hg
  rcases hok.plan with hclean | ⟨hrecovery, hothers⟩
  · exact hclean
  obtain ⟨m, hm, hnode⟩ := mem_map.mp (mem_of_completes hn)
  simp only [completes, Bool.and_eq_true, Option.isNone_iff_eq_none] at hn
  by_cases hleader : n = g.leader
  · rw [← hleader, hn.2] at hrecovery
    simp at hrecovery
  · have hclaims := claims_of_mem hok.nodes hm
    rw [hnode, hothers m hm (by rwa [hnode])] at hclaims
    simp [hclaims] at hn

/-- The partition of each member of a clean generation. -/
theorem claims_of_clean (hclean : s.CleanPlan g.members g.plan) (hn : n ∈ g.nodes) :
    ∃ p, g.claims n = [p] ∧ p ≠ 0 ∧ (s.partition n ≠ 0 → p = s.partition n) ∧ g.members.foldl (fun t
      m => update t m.2.node ((g.plan m.1).headD 0)) (fun _ => 0) n = p := by
  have hok := h.generation g hg
  obtain ⟨m, hm, rfl⟩ := mem_map.mp hn
  obtain ⟨p, hp, hne⟩ := hclean.one m hm
  refine ⟨p, ?_, hne, ?_, ?_⟩
  · rw [claims_of_mem hok.nodes hm, hp]
  · intro hpart
    have hsame := hclean.same m hm hpart
    rw [hp] at hsame
    exact head_eq_of_cons_eq hsame
  · rw [foldl_update_of_mem (fun m : String × Info => m.2.node)
      (fun m => (g.plan m.1).headD 0) hok.nodes hm, hp]
    rfl

/-- Two members of a clean generation with one partition are the same. -/
theorem claims_inj (hclean : s.CleanPlan g.members g.plan) {n' : String} (hn : n ∈ g.nodes)
    (hn' : n' ∈ g.nodes) (heq : g.claims n = g.claims n') : n = n' := by
  have hok := h.generation g hg
  obtain ⟨m, hm, rfl⟩ := mem_map.mp hn
  obtain ⟨m', hm', rfl⟩ := mem_map.mp hn'
  rw [claims_of_mem hok.nodes hm, claims_of_mem hok.nodes hm'] at heq
  rw [hclean.distinct m hm m' hm' heq]

omit h hg in
/-- When a member completes its `Setup`, those who do not are not present any more. -/
theorem of_present_setUp (hc : s.completes g nodes c = true) (hn : (s.setUp g nodes).Present n) :
    s.Present n ∧ (n ∈ g.nodes → s.completes g nodes n = true) := by
  have hany : g.nodes.any (s.completes g nodes) = true :=
    any_eq_true.mpr ⟨c, mem_of_completes hc, hc⟩
  have hmissed := hn.2
  simp only [setUp, hany, Bool.and_true, Bool.or_eq_false_iff, Bool.and_eq_false_iff,
    decide_eq_false_iff_not, Bool.not_eq_eq_eq_not, Bool.not_false] at hmissed
  exact ⟨⟨hn.1, hmissed.1⟩, fun hmem => hmissed.2.resolve_left fun hnot => hnot hmem⟩

omit h hg in
theorem not_completes_of_not_mem (hn : n ∉ g.nodes) : s.completes g nodes n = false := by
  rw [← Bool.not_eq_true]
  exact fun hn' => hn (mem_of_completes hn')

omit h hg in
/-- The table of a process that completes its `Setup` has the members only. -/
theorem setUp_table_of_not_mem {l : String} (hl : s.completes g nodes l = true)
    (hn : n ∉ g.nodes) : ((s.setUp g nodes).procs l).node2partition n = 0 := by
  obtain ⟨-, -, -, -, -, htable⟩ := setUp_of_completes hl
  rw [htable]
  exact foldl_update_of_not_mem (fun m : String × Info => m.2.node) _ hn _

omit h hg in
theorem setUp_partition (hn : s.completes g nodes n = true) {p : Nat}
    (hp : g.claims n = [p]) : (s.setUp g nodes).partition n = p := by
  obtain ⟨q, qs, hq, hself, -⟩ := setUp_of_completes hn
  rw [hp, cons.injEq] at hq
  unfold partition
  rw [hself, hq.1]

/-- Only the members have a partition after a `Setup` that was completed. -/
theorem knows_setUp (hc : s.completes g nodes c = true) {l : String} (hl : (s.setUp g nodes).Present l)
    (hn : (s.setUp g nodes).Present n) (hne : (s.setUp g nodes).knows l n ≠ 0) :
    n ∈ g.nodes ∧ g.claims n = [(s.setUp g nodes).knows l n] := by
  have hok := h.generation g hg
  have hold := fun n => @setUp_of_not_completes s h.toNamed g nodes n
  by_cases hmem : n ∈ g.nodes
  · obtain ⟨p, hp, hp0, -⟩ := claims_of_clean h hg (clean_of_completes h hg hc).2 hmem
    have hpart := setUp_partition ((of_present_setUp hc hn).2 hmem) hp
    refine ⟨hmem, ?_⟩
    unfold knows
    rw [hpart, if_neg hp0]
    exact hp
  exfalso
  apply hne
  have hpart : (s.setUp g nodes).partition n = 0 := by
    unfold partition
    rw [hold n (not_completes_of_not_mem hmem)]
    exact (hok.late n (of_present_setUp hc hn).1 hmem).1
  unfold knows
  rw [if_pos hpart]
  by_cases hl' : l ∈ g.nodes
  · exact setUp_table_of_not_mem ((of_present_setUp hc hl).2 hl') hmem
  · rw [hold l (not_completes_of_not_mem hl')]
    exact (hok.late l (of_present_setUp hc hl).1 hl').2.1 n

theorem GroupInv.setUp_completed (hc : s.completes g nodes c = true) :
    (s.setUp g nodes).GroupInv := by
  have hok := h.generation g hg
  have hclean := (clean_of_completes h hg hc).2
  have hclaims := fun n => claims_of_clean h hg (n := n) hclean
  have hold := fun n => @setUp_of_not_completes s h.toNamed g nodes n
  refine ⟨h.toNamed.setUp g nodes, ?_, ?_, ?_, ?_, ?_, ?_⟩
  · intro n hn
    unfold partition
    rw [hold n (not_completes_of_not_mem fun hmem => hn (hok.known n hmem))]
    exact h.fresh n hn
  · intro l n hn
    by_cases hl : s.completes g nodes l = true
    · exact setUp_table_of_not_mem hl fun hmem => hn (hok.known n hmem)
    · rw [hold l (Bool.not_eq_true _ ▸ hl)]
      exact h.tables l n hn
  · intro l n n' hl hn hn' hne heq
    obtain ⟨hmem, hn⟩ := knows_setUp h hg hc hl hn hne
    obtain ⟨hmem', hn'⟩ := knows_setUp h hg hc hl hn' (heq ▸ hne)
    exact claims_inj h hg hclean hmem hmem' (by rw [hn, hn', heq])
  · intro n p hp
    by_cases hn : s.completes g nodes n = true
    · obtain ⟨q, hq, hq0, hsame, -⟩ := hclaims n (mem_of_completes hn)
      rw [setUp_partition hn hq]
      simp only [setUp, hn, if_true, hq, take_succ_cons, take_zero, mem_append, mem_singleton] at hp
      rcases hp with hp | rfl
      · obtain ⟨hpart, hp0⟩ := h.assigned n p hp
        exact ⟨by rw [hsame (by rwa [hpart]), hpart], hp0⟩
      · exact ⟨rfl, hq0⟩
    · have hsame : (s.setUp g nodes).assigned n = s.assigned n := if_neg hn
      unfold partition
      rw [hold n (Bool.not_eq_true _ ▸ hn)]
      exact h.assigned n p (hsame ▸ hp)
  · intro n hpart
    by_cases hn : s.completes g nodes n = true
    · obtain ⟨q, hq, -⟩ := hclaims n (mem_of_completes hn)
      rw [setUp_partition hn hq]
      simp [setUp, hn, hq]
    have hsame : (s.setUp g nodes).assigned n = s.assigned n := if_neg hn
    unfold partition at hpart ⊢
    rw [hold n (Bool.not_eq_true _ ▸ hn)] at hpart ⊢
    rw [hsame]
    exact h.decided n hpart
  · intro g' hg'
    simp [setUp] at hg'

theorem GroupInv.setUp (nodes : List String) : (s.setUp g nodes).GroupInv := by
  by_cases hany : g.nodes.any (s.completes g nodes) = true
  · obtain ⟨c, -, hc⟩ := any_eq_true.mp hany
    exact h.setUp_completed hg hc
  have hnobody : ∀ n, s.completes g nodes n = false := by
    intro n
    rw [← Bool.not_eq_true]
    exact fun hn => hany (any_eq_true.mpr ⟨n, mem_of_completes hn, hn⟩)
  refine h.frame rfl ?_ ?_ rfl fun n => ?_
  · funext n
    simp [Consumers.setUp, Bool.not_eq_true _ ▸ hany, Bool.and_false]
  · funext n
    simp only [Consumers.setUp, hnobody n, Bool.false_eq_true, if_false]
  · rw [setUp_of_not_completes h.toNamed (hnobody n)]
    exact ⟨rfl, rfl, rfl⟩

end SetUp

/-! ## All histories -/

theorem GroupInv.step {s s' : Consumers} (h : s.GroupInv) {e : GroupEvent} (hok : NoReturn s e)
    (hstep : s.step e = some s') : s'.GroupInv := by
  cases e with
  | dial n services =>
    obtain ⟨hn, rfl⟩ := of_guard hstep
    exact h.dial services hn
  | plan =>
    obtain ⟨hjoined, rfl⟩ := of_guard hstep
    exact h.plan hjoined (Prod.eta _).symm fun n hn => ⟨hjoined.known n hn, hok n hn⟩
  | setup nodes =>
    simp only [Consumers.step] at hstep
    split at hstep
    · simp at hstep
    rename_i g hg
    cases hstep
    exact h.setUp hg nodes
  | recovered =>
    simp only [Consumers.step] at hstep
    split at hstep
    · simp at hstep
    split at hstep
    · cases hstep
      refine h.frame rfl rfl rfl rfl fun n => ?_
      simp only [update_apply]
      split
      · rename_i hn
        rw [hn]
        exact ⟨rfl, rfl, rfl⟩
      · exact ⟨rfl, rfl, rfl⟩
    · simp at hstep

theorem groupInv_reachable (h : Reachable Consumers.step NoReturn .init s) :
    s.GroupInv :=
  h.invariant groupInv_init fun _ _ _ _ hinv hok hstep => hinv.step hok hstep

/-! ## The plan of a generation -/

/-- What a clean plan gives to the members. -/
structure SafePlan (s : Consumers) (leader : String) (members : List (String × String))
    (offsets : Nat → Option (Nat × Nat)) (pl : BalancePlan) : Prop where
  one : ∀ m ∈ members, ∃ p, pl m.1 = [p] ∧ p ≠ 0
  distinct : ∀ m ∈ members, ∀ m' ∈ members, pl m.1 = pl m'.1 → m = m'
  /-- A node keeps the partition of its earlier generations. -/
  same : ∀ m ∈ members, ∀ p ∈ s.assigned m.2, pl m.1 = [p]
  /-- A node that was never assigned one gets the partition that the leader holds for it
  from an earlier plan of its own. -/
  reserved : ∀ m ∈ members, s.assigned m.2 = [] → (s.procs leader).node2partition m.2 ≠ 0 →
    pl m.1 = [(s.procs leader).node2partition m.2]
  /-- If there is none, it gets an empty partition of no live node. -/
  new : ∀ m ∈ members, s.assigned m.2 = [] → (s.procs leader).node2partition m.2 = 0 →
    ∃ p, pl m.1 = [p] ∧ (∀ max, ¬ HasMessages offsets p max) ∧
      ∀ m' ∈ members, s.partition m'.2 ≠ p ∧ s.knows leader m'.2 ≠ p

section Plan

variable {s : Consumers} (h : s.GroupInv)
  (hjoined : s.Joined leader members order order') {pl : BalancePlan}
  (hplan : s.planned leader members order order' size offsets = (.ok pl, Q))

include h hjoined hplan

theorem safePlan_of_clean (hpresent : ∀ n ∈ members.map Prod.snd, s.Present n)
    (hclean : Q.recovery = none) : s.SafePlan leader members offsets pl := by
  have hok := cleanPlan_of_plan h hjoined hplan hpresent rfl hclean
  have happly := fun m hm => clean_apply h.toNamed hjoined hplan rfl hclean (m := m) hm
  have hmem : ∀ m ∈ members, m.2 ∈ members.map Prod.snd := fun m hm => mem_map_of_mem hm
  -- A node without an assignment is known by the table of the leader alone.
  have hknows : ∀ m, s.assigned m = [] → s.knows leader m = (s.procs leader).node2partition m := by
    intro m hm
    apply if_pos
    by_contra hpart
    have hdecided := h.decided m hpart
    rw [hm] at hdecided
    simp at hdecided
  refine ⟨?_, ?_, ?_, ?_, ?_⟩
  · intro m hm
    exact hok.one _ (info_of_mem hm)
  · intro m hm m' hm' heq
    have hsame := hok.distinct _ (info_of_mem hm) _ (info_of_mem hm') heq
    exact inj_on_of_nodup_map hjoined.ids hm hm' (Prod.mk.inj hsame).1
  · intro m hm p hp
    obtain ⟨hpart, hp0⟩ := h.assigned m.2 p hp
    have hsame := hok.same _ (info_of_mem hm)
    rw [userData_node h.toNamed, hpart] at hsame
    exact hsame hp0
  · intro m hm hassigned hheld
    have hknown := hknows m.2 hassigned
    rw [(happly m hm).1, table_of_mem h.toNamed hjoined hplan (hmem m hm) (by rwa [hknown]), hknown]
  intro m hm hassigned hheld
  have hknown := hknows m.2 hassigned
  rw [hheld] at hknown
  obtain ⟨hp, hp0⟩ := happly m hm
  obtain ⟨-, hfree, hempty⟩ := table_new h.toNamed hjoined hplan (hmem m hm) hknown hp0
  refine ⟨_, hp, hempty, fun m' hm' => ⟨fun hpart => ?_, hfree m'.2 (hmem m' hm')⟩⟩
  apply hfree m'.2 (hmem m' hm')
  unfold knows
  rw [hpart, if_neg hp0]

end Plan

/-- In every generation of every history in which no process that missed a generation
takes part in a later one, the plan is safe. -/
theorem plan_safe {s : Consumers} (h : Reachable Consumers.step NoReturn .init s) {leader : String}
    {members : List (String × String)} {order order' : List String} {size : Nat}
    {offsets : Nat → Option (Nat × Nat)} (hjoined : s.Joined leader members order order')
    (hok : NoReturn s (.plan leader members order order' size offsets)) {pl : BalancePlan}
    {Q : Process} (hplan : s.planned leader members order order' size offsets = (.ok pl, Q)) :
    (Q.recovery = none → s.SafePlan leader members offsets pl) ∧
      (Q.recovery ≠ none → RecoveryPlan leader members size offsets pl) := by
  have hinv := groupInv_reachable h
  have hpresent : ∀ n ∈ members.map Prod.snd, s.Present n := fun n hn =>
    ⟨hjoined.known n hn, hok n hn⟩
  exact ⟨safePlan_of_clean hinv hjoined hplan hpresent,
    recoveryPlan_of_unclean hinv.toNamed hjoined hplan rfl⟩

/-- One message in each of some partitions. -/
def oneMessage (ps : List Nat) (p : Nat) : Option (Nat × Nat) :=
  if p ∈ ps then some (0, 1) else some (0, 0)

/-- The node `n2` starts when partition `0` has a message, so that `n1` recovers. -/
def joinRun : List GroupEvent :=
  [.dial "n1" [], .plan "n1" [("m1", "n1")] ["n1"] ["n1"] 3 (oneMessage []), .setup ["n1"],
    .dial "n2" ["a"],
    .plan "n1" [("m1", "n1"), ("m2", "n2")] ["n2", "n1"] ["n1", "n2"] 3 (oneMessage [0]), .recovered]

theorem plan_safe_after_recovery : ∃ s pl, run step .init joinRun = some s ∧
    s.SafePlan "n1" [("m1", "n1"), ("m2", "n2")] (oneMessage [0, 2]) pl := by
  have hok : runOk step NoReturn .init joinRun = true := by decide
  obtain ⟨s, hrun, hs⟩ := reachable_of_run .init hok
  have hjoined := eq_of_run (fun s =>
    decide (s.Joined "n1" [("m1", "n1"), ("m2", "n2")] ["n1", "n2"] ["n1", "n2"]))
    (a := true) hrun (by decide)
  have hpresent := eq_of_run (fun s => (s.missed "n1", s.missed "n2")) (a := (false, false)) hrun
    (by decide)
  have hclean := eq_of_run (fun s =>
    let r := s.planned "n1" [("m1", "n1"), ("m2", "n2")] ["n1", "n2"] ["n1", "n2"] 3 (oneMessage [0, 2])
    (r.1.isOk, r.2.recovery.isNone)) (a := (true, true)) hrun (by decide)
  simp only [decide_eq_true_eq] at hjoined
  simp only [Prod.mk.injEq] at hpresent hclean
  cases hplan : s.planned "n1" [("m1", "n1"), ("m2", "n2")] ["n1", "n2"] ["n1", "n2"] 3
    (oneMessage [0, 2]) with
  | mk r Q =>
    rw [hplan] at hclean
    cases r with
    | error => simp [Except.isOk, Except.toBool] at hclean
    | ok pl =>
      have hnoReturn : NoReturn s (.plan "n1" [("m1", "n1"), ("m2", "n2")] ["n1", "n2"] ["n1", "n2"] 3
          (oneMessage [0, 2])) := by
        intro n hn
        simp only [List.map_cons, List.map_nil, List.mem_cons, List.not_mem_nil, or_false] at hn
        rcases hn with rfl | rfl
        · exact hpresent.1
        · exact hpresent.2
      exact ⟨s, pl, hrun, (plan_safe hs hjoined hnoReturn hplan).1
        (Option.isNone_iff_eq_none.mp hclean.2)⟩

/-- The recovery has put a message into partition `2`, which `n1` holds for `n2`.  The
next plan is clean, and `n2`, which was never assigned a partition, gets this one. -/
theorem new_node_given_nonempty_partition :
    runOk step NoReturn .init joinRun = true ∧
    (run step .init joinRun).map (fun s => (s.assigned "n2", s.partition "n2")) = some ([], 0) ∧
    (run step .init joinRun).map (fun s =>
      let r := s.planned "n1" [("m1", "n1"), ("m2", "n2")] ["n1", "n2"] ["n1", "n2"] 3
        (oneMessage [0, 2])
      (r.1.toOption.map (fun pl => (pl "m1", pl "m2")), r.2.recovery.isNone)) =
        some (some ([1], [2]), true) ∧
    HasMessages (oneMessage [0, 2]) 2 1 := by
  refine ⟨by decide, by decide, by decide, 0, by decide, by decide⟩

/-- A process that missed a generation can come back with the partition of another one. -/
example : (run step .init
      [.dial "n1" [], .dial "n2" [],
        .plan "n1" [("m1", "n1"), ("m2", "n2")] ["n1", "n2"] ["n1", "n2"] 3 (oneMessage []),
        .setup ["n1", "n2"],
        .plan "n1" [("m1", "n1")] ["n1"] ["n1"] 3 (oneMessage []), .setup ["n1"],
        .dial "n3" [],
        .plan "n1" [("m1", "n1"), ("m3", "n3")] ["n1", "n3"] ["n1", "n3"] 3 (oneMessage []),
        .setup ["n1", "n3"]]).map (fun s =>
      (s.planned "n1" [("m1", "n1"), ("m2", "n2"), ("m3", "n3")] ["n1", "n2", "n3"]
        ["n1", "n2", "n3"] 3 (oneMessage [])).1.toOption.map (fun pl => (pl "m2", pl "m3"))) =
    some (some ([2], [2])) := by
  decide

end Consumers

end Kar.Rpc
