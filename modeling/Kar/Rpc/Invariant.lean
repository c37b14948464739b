import Mathlib.Data.List.Nodup
import Kar.Rpc.Active

/-!
# The invariant of the system

`Inv` is the invariant that every run keeps, whatever fails and in whatever
order.  It is made of one structure for each part of the state:

* `GroupOk`: members have partitions of their own, and what a node publishes is in
  the table of the leader.
* `LogOk`: where the nodes have read to.
* `PlaceOk`: the requests for an actor are in the partition of the node where the
  store places it.
* `TaskOk`: the messages of the tasks are still in the log.
* `HistoryOk`: the log has no request or record that was never written.
* `OpenOk` for every request without completion record.
-/

namespace Kar.Rpc

open Kar.Lib List Function

/-! ## The group -/

structure GroupOk (g : Group) : Prop where
  size : 0 < g.size
  nodup : g.members.Nodup
  noname : "" ∉ g.members
  known : ∀ n ∈ g.members, n ∈ g.known
  alive : ∀ n, g.alive n = true → n ∈ g.members
  member : ∀ n, g.table n ≠ 0 → n ∈ g.members
  attached : ∀ n, g.attached n ≠ 0 → g.table n = g.attached n
  distinct : ∀ n n', g.table n ≠ 0 → g.table n = g.table n' → n = n'
  bound : ∀ n, g.table n < g.size
  offers : ∀ n, g.offers n ≠ [] → n ∈ g.known
  running : g.running = true → ∀ n ∈ g.members, g.attached n ≠ 0

namespace GroupOk

variable (h : GroupOk g)

include h

theorem table_noname : g.table "" = 0 := by
  by_contra hp
  exact h.noname (h.member "" hp)

theorem table_of_unknown (hn : n ∉ g.known) : g.table n = 0 := by
  by_contra hp
  exact hn (h.known n (h.member n hp))

theorem attached_of_table (hn : g.table n = 0) : g.attached n = 0 := by
  by_contra hp
  exact hp (h.attached n hp ▸ hn)

theorem table_ne_zero (hn : g.attached n ≠ 0) : g.table n ≠ 0 :=
  fun hp => hn (h.attached_of_table hp)

theorem kill (n : String) : GroupOk (g.kill n) where
  size := h.size
  nodup := h.nodup
  noname := h.noname
  known := h.known
  alive := by
    intro n' hn'
    simp only [Group.kill, update_apply] at hn'
    split at hn'
    · simp at hn'
    exact h.alive n' hn'
  member := h.member
  attached := h.attached
  distinct := h.distinct
  bound := h.bound
  offers := h.offers
  running := h.running

theorem expel (hdead : g.alive n = false) : GroupOk (g.expel n) where
  size := h.size
  nodup := h.nodup.filter _
  noname := fun hn => h.noname (mem_filter.mp hn).1
  known := fun n' hn' => h.known n' (mem_filter.mp hn').1
  alive := by
    intro n' hn'
    have hne : n' ≠ n := by
      rintro rfl
      simp [Group.expel, hdead] at hn'
    exact mem_filter.mpr ⟨h.alive n' hn', by simpa using hne⟩
  member := by
    intro n' hn'
    simp only [Group.expel, update_apply, ne_eq, ite_eq_left_iff, not_forall] at hn'
    exact mem_filter.mpr ⟨h.member n' hn'.2, by simpa using hn'.1⟩
  attached := by
    intro n' hn'
    simp only [Group.expel, update_apply] at hn' ⊢
    split
    · rfl
    · rename_i hne
      rw [if_neg hne] at hn'
      exact h.attached n' hn'
  distinct := by
    intro n₁ n₂ hp heq
    simp only [Group.expel, update_apply] at hp heq
    split at hp
    · simp at hp
    rename_i hne
    rw [if_neg hne] at heq
    split at heq
    · exact absurd heq hp
    · exact h.distinct n₁ n₂ hp heq
  bound := by
    intro n'
    simp only [Group.expel, update_apply]
    split
    · exact h.size
    · exact h.bound n'
  offers := h.offers
  running := by
    intro hrunning n' hn'
    obtain ⟨hmem, hne⟩ := mem_filter.mp hn'
    simp only [decide_eq_true_eq] at hne
    simpa [Group.expel, hne] using h.running hrunning n' hmem

theorem join (services : List String) (hnew : n ∉ g.known) (hne : n ≠ "")
    (hstopped : g.running = false) : GroupOk (g.join n services) where
  size := h.size
  nodup := by
    refine List.Nodup.append h.nodup (nodup_singleton n) ?_
    rw [disjoint_singleton]
    exact fun hmem => hnew (h.known n hmem)
  noname := by
    simp only [Group.join, mem_append, mem_singleton, not_or]
    exact ⟨h.noname, hne.symm⟩
  known := by
    intro n' hn'
    rcases mem_append.mp hn' with hold | hn
    · exact mem_cons_of_mem _ (h.known n' hold)
    · exact mem_singleton.mp hn ▸ mem_cons_self
  alive := by
    intro n' hn'
    simp only [Group.join, update_apply] at hn'
    split at hn'
    · rename_i heq
      exact mem_append_right _ (mem_singleton.mpr heq)
    · exact mem_append_left _ (h.alive n' hn')
  member := fun n' hn' => mem_append_left _ (h.member n' hn')
  attached := h.attached
  distinct := h.distinct
  bound := h.bound
  offers := by
    intro n' hn'
    simp only [Group.join, update_apply] at hn'
    split at hn'
    · rename_i heq
      exact heq ▸ mem_cons_self
    · exact mem_cons_of_mem _ (h.offers n' hn')
  running := fun hrunning => by simp [Group.join, hstopped] at hrunning

/-- What is not published is forgotten. -/
theorem newLeader : GroupOk { g with table := g.attached } where
  size := h.size
  nodup := h.nodup
  noname := h.noname
  known := h.known
  alive := h.alive
  member := fun n hn => h.member n (h.table_ne_zero hn)
  attached := fun _ _ => rfl
  distinct := by
    intro n n' hp heq
    have hp' : g.attached n' ≠ 0 := fun h0 => hp (heq.trans h0)
    refine h.distinct n n' (h.table_ne_zero hp) ?_
    rw [h.attached n hp, h.attached n' hp']
    exact heq
  bound := by
    intro n
    show g.attached n < g.size
    by_cases hp : g.attached n = 0
    · exact hp ▸ h.size
    · exact h.attached n hp ▸ h.bound n
  offers := h.offers
  running := h.running

theorem stop : GroupOk { g with running := false } :=
  { h with running := fun hrunning => by simp at hrunning }

theorem grow : GroupOk { g with size := g.size + 1 } :=
  { h with
    size := Nat.succ_pos _
    bound := fun n => Nat.lt_succ_of_lt (h.bound n) }

end GroupOk

namespace Group

variable {g : Group}

theorem planTable_of_table (h : GroupOk g) (hn : g.table n ≠ 0) :
    g.planTable assign n = g.table n := by
  unfold planTable
  rw [if_pos (h.member n hn), if_neg hn]

theorem planTable_of_member (hn : n ∈ g.members) (hp : g.table n = 0) :
    g.planTable assign n = assign n := by
  unfold planTable
  rw [if_pos hn, if_pos hp]

theorem member_of_planTable (hn : g.planTable assign n ≠ 0) : n ∈ g.members := by
  unfold planTable at hn
  by_contra hnot
  rw [if_neg hnot] at hn
  exact hn rfl

/-- A partition of the plan is one of the table, or it is empty. -/
theorem PlanOk.old_or_empty (hplan : g.PlanOk log assign)
    (hn : g.planTable assign n ≠ 0) : g.planTable assign n = g.table n ∨
      (g.table n = 0 ∧ log.messages (g.planTable assign n) = []) := by
  have hmem := member_of_planTable hn
  by_cases hp : g.table n = 0
  · rw [planTable_of_member hmem hp]
    exact Or.inr ⟨hp, hplan.empty n hmem hp⟩
  · unfold planTable
    rw [if_pos hmem, if_neg hp]
    exact Or.inl rfl

theorem mem_live {table : String → Nat} {p : Nat} :
    (g.live table).mem p = true ↔ p ≠ 0 ∧ ∃ n ∈ g.members, table n = p := by
  simp [live]

end Group

/-- The group after a plan, published or not. -/
theorem GroupOk.plan (h : GroupOk g)
    (hplan : g.PlanOk log assign) : GroupOk { g with table := g.planTable assign } where
  size := h.size
  nodup := h.nodup
  noname := h.noname
  known := h.known
  alive := h.alive
  member := fun _ hn => Group.member_of_planTable (g := g) hn
  attached := fun n hn => (Group.planTable_of_table h (h.table_ne_zero hn)).trans (h.attached n hn)
  distinct := by
    intro n n' hp heq
    have hp' : g.planTable assign n' ≠ 0 := fun h0 => hp (heq.trans h0)
    exact inj_on_of_nodup_map hplan.nodup (Group.member_of_planTable hp)
      (Group.member_of_planTable hp') heq
  bound := by
    intro n
    show g.planTable assign n < g.size
    by_cases hp : g.planTable assign n = 0
    · exact hp ▸ h.size
    · exact (hplan.pos n (Group.member_of_planTable hp)).2
  offers := h.offers
  running := h.running

theorem GroupOk.setup (h : GroupOk g) (hplan : g.PlanOk log assign) :
    GroupOk { g with
      running := true
      table := g.planTable assign
      attached := g.planTable assign } :=
  { h.plan hplan with
    attached := fun _ _ => rfl
    running := fun _ n hn => (hplan.pos n hn).1 }

/-! ## The other parts -/

/-- Where the nodes have read to. -/
structure LogOk (g : Group) (log : Log) (head : String → Nat) : Prop where
  empty : ∀ p, g.size ≤ p → log.messages p = []
  /-- A node that never published a partition has read nothing. -/
  fresh : ∀ n, g.attached n = 0 → (n ∈ g.members ∨ n ∉ g.known) → head n = 0
  head_le : ∀ n, g.table n ≠ 0 → head n ≤ (log (g.table n)).newest

/-- Where the actors are placed. -/
structure PlaceOk (g : Group) (placementCache : Bool) (log : Log) (store : Store)
    (caches : String → Cache) : Prop where
  valid : ∀ p v, Message.request v ∈ log.messages p → v.target.validName = true
  placed : ∀ n v name id flow lock, g.table n ≠ 0 →
    Message.request v ∈ log.messages (g.table n) → v.target = .session name id flow lock →
    store.get? (place name id) = some n
  offers : ∀ name id n, '_' ∉ name.toList → store.get? (place name id) = some n →
    name ∈ g.offers n
  caches : g.running = true → ∀ n, CacheStore (g.tables placementCache n g.table) (caches n) store

/-- The tasks run on live nodes, and their messages are still there. -/
structure TaskOk (g : Group) (log : Log) (tasks : List Task) (nextTid : Nat) : Prop where
  alive : ∀ t ∈ tasks, g.alive t.node = true
  attached : ∀ t ∈ tasks, g.attached t.node ≠ 0
  msg : ∀ t ∈ tasks, Message.request t.msg ∈ log.messages (g.table t.node)
  tid : ∀ t ∈ tasks, t.tid < nextTid
  nodup : (tasks.map Task.tid).Nodup

/-- The log has nothing that was never written. -/
structure HistoryOk (log : Log) (h : History) : Prop where
  sent : ∀ k p v, log.Holds k p v → h.sent k ≠ none
  record : ∀ k, log.Answered k → h.recorded k = true
  recorded : ∀ k, h.recorded k = true → h.sent k ≠ none

structure Inv (s : State) : Prop where
  group : GroupOk s.group
  reads : LogOk s.group s.log s.head
  places : PlaceOk s.group s.placementCache s.log s.store s.caches
  tasks : TaskOk s.group s.log s.tasks s.nextTid
  history : HistoryOk s.log s.history
  opened : ∀ k, s.history.recorded k = false → OpenOk s.group.table s.log s.active k

theorem inv_init (placementCache : Bool) : Inv (.init placementCache) where
  group := by
    constructor <;> simp [State.init]
  reads := by
    constructor <;> simp [State.init, Log.empty, Log.messages]
  places := by
    constructor <;> simp [State.init, Log.empty, Log.messages]
  tasks := by
    constructor <;> simp [State.init]
  history := by
    constructor <;> simp [State.init, Log.Holds, Log.Answered, Log.empty, Log.messages]
  opened := by
    intro k _
    refine .of_inactive ?_ ?_
    · constructor <;> simp [State.init, Log.Holds, Log.empty, Log.messages]
    · simp [State.init, State.active]

/-- An active request is in the log. -/
theorem Inv.holds_of_active (h : Inv s) (hv : v ∈ s.active n) :
    s.group.table n ≠ 0 ∧ s.log.Holds v.requestID (s.group.table n) v := by
  obtain ⟨-, hpending | ⟨t, ht, rfl, rfl⟩⟩ := State.mem_active.mp hv
  · obtain ⟨hp, hmem⟩ := State.mem_of_mem_pending hpending
    exact ⟨hp, hmem, rfl⟩
  · exact ⟨h.group.table_ne_zero (h.tasks.attached t ht), h.tasks.msg t ht, rfl⟩

theorem Inv.task_active (h : Inv s) (ht : t ∈ s.tasks) :
    t.msg ∈ s.active t.node :=
  State.mem_active.mpr ⟨h.tasks.alive t ht, Or.inr ⟨t, ht, rfl, rfl⟩⟩

end Kar.Rpc
