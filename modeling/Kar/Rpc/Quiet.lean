import Kar.Rpc.Recovered

/-!
# Steps that write nothing

Most outcomes of a step leave the log alone, start nothing and wake nobody: a
failed send, a task that ends without record, and every change of the group.
`Quiet s s'` collects what the later invariants need to know about them.

A node that reads a message and a task that enters its handler write nothing either.
`mem_tasks_consume` and `mem_tasks_start` say what becomes of the tasks.
-/

namespace Kar.Rpc

open Kar.Lib List

structure Quiet (s s' : State) : Prop where
  log : s'.log = s.log
  sent : s'.history.sent = s.history.sent
  recorded : s'.history.recorded = s.history.recorded
  nested : s'.history.nested = s.history.nested
  retry : s'.history.retry = s.history.retry
  /-- A live node has the messages to read that it had, or none. -/
  pending : ∀ n, s'.group.alive n = true →
    s'.pending n = [] ∨ (s.group.alive n = true ∧ s'.pending n = s.pending n)
  tasks : s'.tasks.Sublist s.tasks
  nextTid : s'.nextTid = s.nextTid
  requests : ∀ n c x, (s'.requests n).get? c = some x → (s.requests n).get? c = some x
  /-- The node of a task has the same messages to read and waits for the same
  responses. -/
  node : ∀ t ∈ s'.tasks, s'.pending t.node = s.pending t.node ∧
    s'.requests t.node = s.requests t.node

namespace Quiet

theorem mem_pending (h : Quiet s s') (halive : s'.group.alive n = true)
    (hm : m ∈ s'.pending n) : s.group.alive n = true ∧ m ∈ s.pending n := by
  rcases h.pending n halive with hnone | ⟨halive, hsame⟩
  · rw [hnone] at hm
    simp at hm
  · exact ⟨halive, hsame ▸ hm⟩

/-- Nothing becomes active. -/
theorem mem_active (h : Quiet s s') (hinv : Inv s) (hv : v ∈ s'.active n) : v ∈ s.active n := by
  obtain ⟨halive, hpending | ⟨t, ht, rfl, rfl⟩⟩ := State.mem_active.mp hv
  · obtain ⟨halive, hpending⟩ := h.mem_pending halive hpending
    exact State.mem_active.mpr ⟨halive, .inl hpending⟩
  · exact hinv.task_active (h.tasks.subset ht)

/-- A change outside of the group. -/
theorem of_group (hgroup : s'.group = s.group) (hhead : s'.head = s.head) (hlog : s'.log = s.log)
    (hhistory : ∃ done, s'.history = { s.history with done := done })
    (htasks : s'.tasks.Sublist s.tasks) (hnext : s'.nextTid = s.nextTid)
    (hrequests : s'.requests = s.requests) : Quiet s s' := by
  obtain ⟨done, hhistory⟩ := hhistory
  have hpending : ∀ n, s'.pending n = s.pending n := by
    intro n
    unfold State.pending
    rw [hgroup, hhead, hlog]
  exact ⟨hlog, by rw [hhistory], by rw [hhistory], by rw [hhistory], by rw [hhistory],
    fun n halive => .inr ⟨hgroup ▸ halive, hpending n⟩, htasks, hnext,
    fun n c x hx => hrequests ▸ hx, fun t _ => ⟨hpending t.node, by rw [hrequests]⟩⟩

/-- A change of the group, with the history and the tasks as they were.  Only a node
without a published partition gets another one. -/
theorem of_regroup (h : Inv s) (halive : ∀ n, s.group.alive n = true → g.alive n = true)
    (hnode : ∀ n, g.alive n = true → (g.table n = s.group.table n ∧ s.group.alive n = true) ∨
      (s.group.attached n = 0 ∧ State.pending { s with group := g } n = [])) :
    Quiet s { s with group := g, caches := caches } := by
  refine ⟨rfl, rfl, rfl, rfl, rfl, ?_, List.Sublist.refl _, rfl, fun _ _ _ hx => hx, ?_⟩
  · intro n hn
    rcases hnode n hn with ⟨htable, hn'⟩ | ⟨-, hnone⟩
    · exact .inr ⟨hn', State.pending_regroup htable⟩
    · exact .inl hnone
  · intro t ht
    rcases hnode t.node (halive _ (h.tasks.alive t ht)) with ⟨htable, -⟩ | ⟨hnone, -⟩
    · exact ⟨State.pending_regroup htable, rfl⟩
    · exact absurd hnone (h.tasks.attached t ht)

theorem route (store : Store) (caches : String → Cache) :
    Quiet s { s with store := store, caches := caches } :=
  .of_group rfl rfl rfl ⟨_, rfl⟩ (List.Sublist.refl _) rfl rfl

theorem drop (store : Store) (caches : String → Cache) (done : String → Bool) (tid : Nat) :
    Quiet s { s with
      store := store
      caches := caches
      tasks := s.tasks.filter (fun t' => decide (t'.tid ≠ tid))
      history := { s.history with done := done } } :=
  .of_group rfl rfl rfl ⟨done, rfl⟩ filter_sublist rfl rfl

theorem kill (store : Store) (caches : String → Cache) (n : String) :
    Quiet s (State.kill { s with store := store, caches := caches } n) := by
  refine ⟨rfl, rfl, rfl, rfl, rfl, ?_, filter_sublist, rfl, ?_, ?_⟩
  · intro n' halive
    simp only [State.kill, Group.kill, Function.update_apply] at halive
    split at halive
    · simp at halive
    exact .inr ⟨halive, rfl⟩
  · intro n' c x hx
    simp only [State.kill, Function.update_apply] at hx
    split at hx
    · simp at hx
    exact hx
  · intro t ht
    have hne : t.node ≠ n := by simpa using (mem_filter.mp ht).2
    exact ⟨rfl, by simp [State.kill, hne]⟩

theorem expel (h : Inv s) (hdead : s.group.alive n = false) :
    Quiet s { s with group := s.group.expel n } := by
  refine .of_regroup h (fun _ hn => hn) fun n' halive => .inl ⟨?_, halive⟩
  have hne : n' ≠ n := by
    rintro rfl
    simp [Group.expel, hdead] at halive
  simp [Group.expel, hne]

theorem join (h : Inv s) (services : List String) (hnew : n ∉ s.group.known) :
    Quiet s { s with group := s.group.join n services } := by
  have hnone := h.group.table_of_unknown hnew
  refine .of_regroup h ?_ fun n' halive => ?_
  · intro n' halive
    simp only [Group.join, Function.update_apply]
    split
    · rfl
    · exact halive
  by_cases hne : n' = n
  · subst hne
    refine .inr ⟨h.group.attached_of_table hnone, ?_⟩
    unfold State.pending
    rw [if_pos]
    exact hnone
  · simp only [Group.join, Function.update_apply, if_neg hne] at halive
    exact .inl ⟨rfl, halive⟩

theorem rebalance (h : Inv s) : Quiet s { s with group := { s.group with running := false } } :=
  .of_regroup h (fun _ hn => hn) fun _ halive => .inl ⟨rfl, halive⟩

theorem newLeader (h : Inv s) :
    Quiet s { s with group := { s.group with table := s.group.attached } } := by
  refine .of_regroup h (fun _ hn => hn) fun n halive => ?_
  by_cases hp : s.group.attached n = 0
  · refine .inr ⟨hp, ?_⟩
    unfold State.pending
    rw [if_pos (by exact hp)]
  · exact .inl ⟨(h.group.attached n hp).symm, halive⟩

theorem grow (h : Inv s) : Quiet s { s with group := { s.group with size := s.group.size + 1 } } :=
  .of_regroup h (fun _ hn => hn) fun _ halive => .inl ⟨rfl, halive⟩

theorem setup (h : Inv s) (hplan : s.group.PlanOk s.log assign) :
    Quiet s { s with
      group := { s.group with
        running := true
        table := s.group.planTable assign
        attached := s.group.planTable assign }
      caches := fun _ => .empty } := by
  refine .of_regroup h (fun _ hn => hn) fun n halive => ?_
  have hp := (hplan.pos n (h.group.alive n halive)).1
  rcases hplan.old_or_empty hp with hold | ⟨hnone, hempty⟩
  · exact .inl ⟨hold, halive⟩
  · refine .inr ⟨h.group.attached_of_table hnone, ?_⟩
    unfold State.pending
    rw [if_neg (by exact hp)]
    rw [show (s.log (s.group.planTable assign n)).records = [] from hempty, drop_nil]

end Quiet

/-! ## Reading a message -/

section Consume

variable {s : State} {n : String}

theorem acceptMessage_frame (s : State) (n : String) (m : Message) :
    (s.acceptMessage n m).log = s.log ∧ (s.acceptMessage n m).group = s.group ∧
      (s.acceptMessage n m).head = s.head ∧ (s.acceptMessage n m).store = s.store ∧
      (s.acceptMessage n m).history = s.history := by
  cases m with
  | request => exact ⟨rfl, rfl, rfl, rfl, rfl⟩
  | done => exact ⟨rfl, rfl, rfl, rfl, rfl⟩
  | response =>
    simp only [State.acceptMessage, State.acceptResponse]
    split <;> exact ⟨rfl, rfl, rfl, rfl, rfl⟩

theorem pending_consume (hpending : s.pending n = m :: ms) :
    ((s.advance n).acceptMessage n m).pending n' = if n' = n then ms else s.pending n' := by
  obtain ⟨hlog, hgroup, hhead, -⟩ := acceptMessage_frame (s.advance n) n m
  have hsame : ((s.advance n).acceptMessage n m).pending n' = (s.advance n).pending n' := by
    unfold State.pending
    rw [hlog, hgroup, hhead]
  rw [hsame]
  split
  · rename_i hn
    rw [hn, State.pending_advance hpending]
  · rename_i hn
    exact State.pending_advance_of_ne hn

/-- A task after a message was read: it is an old one, perhaps woken by a response, or
it is the task of the request that was read. -/
theorem mem_tasks_consume (ht : t ∈ ((s.advance n).acceptMessage n m).tasks) :
    (∃ t₀ ∈ s.tasks, t.tid = t₀.tid ∧ t.node = t₀.node ∧ t.msg = t₀.msg ∧
      (t.phase = t₀.phase ∨ (t.phase = .ready ∧ ∃ x, m = .response x ∧
        (s.requests n).get? x.requestID = some (.parent t.tid)))) ∨
      ∃ v, m = .request v ∧ t = {
        tid := s.nextTid
        node := n
        msg := v
        phase := if v.childID = "" ∨ v.target.service? = none then .ready else .waiting } := by
  cases m with
  | done => exact .inl ⟨t, ht, rfl, rfl, rfl, .inl rfl⟩
  | request v =>
    rcases mem_append.mp ht with hold | hnew
    · exact .inl ⟨t, hold, rfl, rfl, rfl, .inl rfl⟩
    · exact .inr ⟨v, rfl, mem_singleton.mp hnew⟩
  | response x =>
    refine .inl ?_
    simp only [State.acceptMessage, State.acceptResponse] at ht
    split at ht
    · exact ⟨t, ht, rfl, rfl, rfl, .inl rfl⟩
    · exact ⟨t, ht, rfl, rfl, rfl, .inl rfl⟩
    rename_i tid hwaiter
    obtain ⟨t₀, ht₀, rfl⟩ := mem_map.mp ht
    refine ⟨t₀, ht₀, ?_⟩
    split
    · rename_i heq
      exact ⟨rfl, rfl, rfl, .inr ⟨rfl, x, rfl, heq.1 ▸ hwaiter⟩⟩
    · exact ⟨rfl, rfl, rfl, .inl rfl⟩

/-- No task is lost when a message is read. -/
theorem exists_task_consume (ht : t ∈ s.tasks) :
    ∃ t' ∈ ((s.advance n).acceptMessage n m).tasks, t'.node = t.node ∧ t'.msg = t.msg := by
  cases m with
  | done => exact ⟨t, ht, rfl, rfl⟩
  | request => exact ⟨t, mem_append_left _ ht, rfl, rfl⟩
  | response =>
    simp only [State.acceptMessage, State.acceptResponse]
    split
    · exact ⟨t, ht, rfl, rfl⟩
    · exact ⟨t, ht, rfl, rfl⟩
    · refine ⟨_, mem_map_of_mem ht, ?_⟩
      split <;> exact ⟨rfl, rfl⟩

theorem active_consume_of_mem (hpending : s.pending n = m :: ms)
    (hv : v ∈ s.active n') : v ∈ ((s.advance n).acceptMessage n m).active n' := by
  obtain ⟨halive, hpend | ⟨t, ht, rfl, rfl⟩⟩ := State.mem_active.mp hv
  · rw [State.mem_active, pending_consume hpending, (acceptMessage_frame _ n m).2.1]
    refine ⟨halive, ?_⟩
    by_cases hn : n' = n
    · subst hn
      rw [hpending] at hpend
      rcases mem_cons.mp hpend with rfl | hpend
      · exact .inr ⟨_, mem_append_right _ (mem_singleton_self _), rfl, rfl⟩
      · exact .inl (by rwa [if_pos rfl])
    · exact .inl (by rwa [if_neg hn])
  · obtain ⟨t', ht', hnode, hmsg⟩ := exists_task_consume (n := n) (m := m) ht
    rw [State.mem_active, (acceptMessage_frame _ n m).2.1]
    exact ⟨halive, .inr ⟨t', ht', hnode, hmsg⟩⟩

theorem mem_active_consume (h : Inv s) (halive : s.group.alive n = true)
    (hpending : s.pending n = m :: ms)
    (hv : v ∈ ((s.advance n).acceptMessage n m).active n') : v ∈ s.active n' := by
  rw [State.mem_active, pending_consume hpending, (acceptMessage_frame _ n m).2.1] at hv
  obtain ⟨halive', hpend | ⟨t, ht, rfl, rfl⟩⟩ := hv
  · refine State.mem_active.mpr ⟨halive', .inl ?_⟩
    split at hpend
    · rename_i hn
      rw [hn, hpending]
      exact mem_cons_of_mem m hpend
    · exact hpend
  · rcases mem_tasks_consume ht with ⟨t₀, ht₀, -, hnode, hmsg, -⟩ | ⟨v, rfl, rfl⟩
    · rw [hnode, hmsg]
      exact h.task_active ht₀
    · refine State.mem_active.mpr ⟨halive, .inl ?_⟩
      rw [hpending]
      exact mem_cons_self

end Consume

/-- A task after one entered its handler. -/
theorem mem_tasks_start (h : Inv s) (ht : t ∈ s.tasks) (ht' : t' ∈ s.tasks.map (fun t' =>
      if t'.tid = t.tid then { t' with phase := .running } else t')) :
    t' ∈ s.tasks ∨ t' = { t with phase := .running } := by
  obtain ⟨t₀, ht₀, rfl⟩ := mem_map.mp ht'
  split
  · rename_i heq
    refine .inr ?_
    rw [inj_on_of_nodup_map h.tasks.nodup ht₀ ht heq]
  · exact .inl ht₀

theorem mem_active_start (h : Inv s) (ht : t ∈ s.tasks) (hv : v ∈ State.active { s with
      tasks := s.tasks.map (fun t' =>
        if t'.tid = t.tid then { t' with phase := .running } else t') } n) : v ∈ s.active n := by
  obtain ⟨halive, hpending | ⟨t', ht', rfl, rfl⟩⟩ := State.mem_active.mp hv
  · exact State.mem_active.mpr ⟨halive, .inl hpending⟩
  · rcases mem_tasks_start h ht ht' with hold | rfl
    · exact h.task_active hold
    · show t.msg ∈ s.active t.node
      exact h.task_active ht

theorem active_start_of_mem {s : State} {tid : Nat} (hv : v ∈ s.active n) : v ∈ State.active { s with
      tasks := s.tasks.map (fun t => if t.tid = tid then { t with phase := .running } else t) } n := by
  obtain ⟨halive, hpending | ⟨t, ht, rfl, rfl⟩⟩ := State.mem_active.mp hv
  · exact State.mem_active.mpr ⟨halive, .inl hpending⟩
  · refine State.mem_active.mpr ⟨halive, .inr ⟨_, mem_map_of_mem ht, ?_⟩⟩
    split <;> exact ⟨rfl, rfl⟩

end Kar.Rpc
