import Kar.Rpc.Steps

/-!
# Every step keeps the invariant

One lemma for each part of the state and each kind of change, then one lemma for
each outcome of a step, and `inv_reachable` for whole runs.
-/

namespace Kar.Rpc

open Kar.Lib Function

/-! ## The parts of the state -/

theorem Partition.newest_append (p : Partition) (m : Message) :
    (p.append m).newest = p.newest + 1 := by
  simp [Partition.append, Partition.newest, Nat.add_assoc]

theorem Log.newest_append_le (log : Log) (p q : Nat) (m : Message) :
    (log q).newest ≤ ((log.append p m) q).newest := by
  unfold Log.append
  rw [update_apply]
  split
  · rename_i hq
    rw [hq, Partition.newest_append]
    omega
  · exact Nat.le_refl _

variable {log : Log} {g : Group} {tasks : List Task}
  {s' : State}

theorem mem_messages_append :
    m' ∈ (log.append p m).messages q ↔ m' ∈ log.messages q ∨ (q = p ∧ m' = m) := by
  rw [Log.messages_append]
  split
  · rename_i hq
    simp [hq]
  · rename_i hq
    simp [hq]

theorem LogOk.append (h : LogOk g log head)
    (hp : p < g.size) (m : Message) : LogOk g (log.append p m) head where
  empty := by
    intro q hq
    rw [Log.messages_append, if_neg (by omega)]
    exact h.empty q hq
  fresh := h.fresh
  head_le := fun n hn => Nat.le_trans (h.head_le n hn) (log.newest_append_le p _ m)

section PlaceOk

variable {caches caches' : String → Cache} (h : PlaceOk g placementCache log store caches)

include h

theorem PlaceOk.route (hstep : StoreStep (g.tables placementCache n g.table) store store')
    (hcaches : g.running = true → ∀ n',
      CacheStore (g.tables placementCache n' g.table) (caches' n') store') :
    PlaceOk g placementCache log store' caches' where
  valid := h.valid
  placed := by
    intro n' v name id flow lock hp hv htarget
    exact hstep.stable name id n' (h.placed n' v name id flow lock hp hv htarget) hp
  offers := by
    intro name id n' hname hget
    rcases hstep.placed name id n' hname hget with hold | hnode
    · exact h.offers name id n' hname hold
    · simpa using (List.mem_filter.mp hnode).2
  caches := hcaches

/-- A message is written where the store places its target. -/
theorem PlaceOk.append (hm : ∀ v, m = .request v → v.target.validName = true ∧ ∀ n name id flow lock,
      g.table n ≠ 0 → g.table n = p → v.target = .session name id flow lock →
      store.get? (place name id) = some n) :
    PlaceOk g placementCache (log.append p m) store caches where
  valid := by
    intro q v hv
    rcases mem_messages_append.mp hv with hold | ⟨-, hnew⟩
    · exact h.valid q v hold
    · exact (hm v hnew.symm).1
  placed := by
    intro n v name id flow lock hp hv htarget
    rcases mem_messages_append.mp hv with hold | ⟨hq, hnew⟩
    · exact h.placed n v name id flow lock hp hold htarget
    · exact (hm v hnew.symm).2 n name id flow lock hp hq htarget
  offers := h.offers
  caches := h.caches

end PlaceOk

theorem TaskOk.append (h : TaskOk g log tasks nextTid) (p : Nat) (m : Message) :
    TaskOk g (log.append p m) tasks nextTid :=
  { h with msg := fun t ht => mem_messages_append.mpr (.inl (h.msg t ht)) }

theorem TaskOk.sublist (h : TaskOk g log tasks nextTid) (hsub : tasks'.Sublist tasks) :
    TaskOk g log tasks' nextTid where
  alive := fun t ht => h.alive t (hsub.subset ht)
  attached := fun t ht => h.attached t (hsub.subset ht)
  msg := fun t ht => h.msg t (hsub.subset ht)
  tid := fun t ht => h.tid t (hsub.subset ht)
  nodup := h.nodup.sublist (hsub.map _)

theorem log_answered_append :
    (log.append p m).Answered k ↔ log.Answered k ∨ (m.isRecord = true ∧ m.requestID = k) := by
  constructor
  · rintro ⟨q, m', hm', hrecord, hid⟩
    rcases mem_messages_append.mp hm' with hold | ⟨-, rfl⟩
    · exact .inl ⟨q, m', hold, hrecord, hid⟩
    · exact .inr ⟨hrecord, hid⟩
  · rintro (⟨q, m', hm', hrecord, hid⟩ | ⟨hrecord, hid⟩)
    · exact ⟨q, m', mem_messages_append.mpr (.inl hm'), hrecord, hid⟩
    · exact ⟨p, m, mem_messages_append.mpr (.inr ⟨rfl, rfl⟩), hrecord, hid⟩

theorem HistoryOk.append (h : HistoryOk log x) (hsent : ∀ k, x.sent k ≠ none → y.sent k ≠ none)
    (hrequest : ∀ v, m = .request v → y.sent v.requestID ≠ none) (hrecord : ∀ k, y.recorded k = true ↔
      x.recorded k = true ∨ (m.isRecord = true ∧ m.requestID = k))
    (hknown : m.isRecord = true → x.sent m.requestID ≠ none) : HistoryOk (log.append p m) y where
  sent := by
    intro k q v hv
    rcases holds_append.mp hv with hold | ⟨-, hm, hid⟩
    · exact hsent k (h.sent k q v hold)
    · exact hid ▸ hrequest v hm
  record := by
    intro k hk
    rw [hrecord]
    exact (log_answered_append.mp hk).imp_left (h.record k)
  recorded := by
    intro k hk
    rcases (hrecord k).mp hk with hold | ⟨hm, rfl⟩
    · exact hsent k (h.recorded k hold)
    · exact hsent _ (hknown hm)

/-! ## Writing a message -/

/-- The partition of a destination exists. -/
theorem Destination.zero_or_table
    (hdest : Destination (g.tables placementCache n g.table) store target p) :
    p = 0 ∨ ∃ n, g.table n = p := by
  unfold Destination at hdest
  split at hdest
  · rcases hdest with ⟨-, hp⟩ | ⟨node, -, hp⟩
    · exact .inl hp
    · exact .inr ⟨node, hp.symm⟩
  · rcases hdest with ⟨-, hp⟩ | ⟨-, node, -, hp⟩
    · exact .inl hp
    · exact .inr ⟨node, hp⟩
  · exact .inr ⟨_, hdest.2.symm⟩

theorem GroupOk.lt_size (h : GroupOk g) (hp : p = 0 ∨ ∃ n, g.table n = p) :
    p < g.size := by
  rcases hp with rfl | ⟨n, rfl⟩
  · exact h.size
  · exact h.bound n

/-- An actor is placed on the node whose partition its request is written to. -/
theorem Destination.placed (h : GroupOk g) {name id flow lock : String}
    (hdest : Destination (g.tables placementCache n g.table) store target p) (hp : g.table n' ≠ 0)
    (hn' : g.table n' = p) (htarget : target = .session name id flow lock) :
    store.get? (place name id) = some n' := by
  subst htarget hn'
  rcases hdest with ⟨-, h0⟩ | ⟨-, node, hget, hnode⟩
  · exact absurd h0 hp
  · rw [hget, h.distinct n' node hp hnode.symm]

/-- The pending messages when one is written to partition `p`. -/
theorem pending_write (h : Inv s) (hgroup : s'.group = s.group) (hhead : s'.head = s.head)
    (hlog : s'.log = s.log.append p m) (n : String) : s'.pending n =
      s.pending n ++ if s.group.table n = p ∧ p ≠ 0 then [m] else [] := by
  have hrecords : s'.log.messages (s.group.table n) = s.log.messages (s.group.table n) ++
      if s.group.table n = p then [m] else [] := by
    rw [hlog, Log.messages_append]
    split
    · rename_i hn
      rw [hn]
    · simp
  have holdest : (s'.log (s.group.table n)).oldest = (s.log (s.group.table n)).oldest := by
    rw [hlog, Log.oldest_append]
  rw [State.pending_append _ (congrArg (fun g => g.table n) hgroup) (congrFun hhead n)
    (h.reads.head_le n) holdest hrecords]
  by_cases hn : s.group.table n = p
  · by_cases hp : p = 0 <;> simp [hn, hp]
  · simp [hn]

section Write

variable (h : Inv s)
  {history : History}

include h

/-- A message is written while tasks end.  For the id of a request that is written,
`hnew` has to give the invariant. -/
theorem Inv.write (hroute : Routes s n store caches) (hp : p < s.group.size)
    (hplace : ∀ v, m = .request v → v.target.validName = true ∧ ∀ n' name id flow lock,
      s.group.table n' ≠ 0 → s.group.table n' = p → v.target = .session name id flow lock →
      store.get? (place name id) = some n')
    (htasks : tasks.Sublist s.tasks) (hhistory : HistoryOk (s.log.append p m) history)
    (hrecorded : ∀ k, history.recorded k = false → s.history.recorded k = false)
    (hnew : ∀ v, m = .request v → history.recorded v.requestID = false → OpenOk s.group.table
      (s.log.append p m) (State.active { s with log := s.log.append p m, tasks := tasks })
      v.requestID) :
    Inv { s with
      log := s.log.append p m
      store := store
      caches := caches
      tasks := tasks
      requests := requests
      history := history } where
  group := h.group
  reads := h.reads.append hp m
  places := (h.places.route hroute.step hroute.fresh).append hplace
  tasks := (h.tasks.append p m).sublist htasks
  history := hhistory
  opened := by
    intro k hk
    by_cases hm : ∃ v, m = .request v ∧ v.requestID = k
    · obtain ⟨v, hv, rfl⟩ := hm
      exact hnew v hv hk
    have hother : ∀ v, m = .request v → v.requestID ≠ k := fun v hv hid => hm ⟨v, hv, hid⟩
    refine (h.opened k (hrecorded k hk)).mono (fun q u => holds_append_of_ne hother)
      (fun _ _ _ _ => rfl) (fun n' => ?_)
    refine (State.filter_active_sublist (if s.group.table n' = p ∧ p ≠ 0 then [m] else [])
      ?_ ?_ ?_ ?_).subperm
    · exact fun halive => halive
    · exact sublist_of_eq (pending_write h (by rfl) (by rfl) (by rfl) n')
    · intro v hv
      split at hv
      · exact hother v (List.mem_singleton.mp hv).symm
      · simp at hv
    · exact htasks.map _

/-- The active messages when one is written. -/
theorem mem_active_write (hgroup : s'.group = s.group)
    (hhead : s'.head = s.head) (hlog : s'.log = s.log.append p m)
    (hu : u ∈ s'.active n') : u ∈ State.active { s with tasks := s'.tasks } n' ∨
      (m = .request u ∧ s.group.table n' = p ∧ p ≠ 0) := by
  rw [State.mem_active, pending_write h hgroup hhead hlog, hgroup, List.mem_append] at hu
  obtain ⟨halive, (hold | hnew) | htask⟩ := hu
  · exact .inl (State.mem_active.mpr ⟨halive, .inl hold⟩)
  · split at hnew
    · rename_i hp
      exact .inr ⟨(List.mem_singleton.mp hnew).symm, hp⟩
    · simp at hnew
  · exact .inl (State.mem_active.mpr ⟨halive, .inr htask⟩)

theorem count_active_write (hgroup : s'.group = s.group)
    (hhead : s'.head = s.head) (hlog : s'.log = s.log.append p m) (n' k : String) :
    (s'.active n').countP (fun v => decide (v.requestID = k)) ≤ (State.active { s with tasks :=
      s'.tasks } n').countP (fun v => decide (v.requestID = k)) + 1 := by
  by_cases halive : s.group.alive n' = true
  · rw [State.countP_active (hgroup ▸ halive), State.countP_active (by exact halive),
      pending_write h hgroup hhead hlog, List.filterMap_append, List.countP_append]
    have hone : ((if s.group.table n' = p ∧ p ≠ 0 then [m] else []).filterMap
        Message.request?).countP (fun v => decide (v.requestID = k)) ≤ 1 := by
      refine Nat.le_trans List.countP_le_length (Nat.le_trans (List.length_filterMap_le _ _) ?_)
      split <;> simp
    have hpending : State.pending { s with tasks := s'.tasks } n' = s.pending n' := rfl
    rw [hpending]
    simp only
    omega
  · unfold State.active
    rw [if_neg (hgroup ▸ halive)]
    exact Nat.zero_le _

/-- A request is written after which nothing else of its id is active. -/
theorem openOk_write (hchain : ChainOk (s.log.append p (.request v)) v.requestID)
    (hlater : ∀ q u, s.log.Holds v.requestID q u → u.sequence < v.sequence)
    (hnone : ∀ n' u, u ∈ State.active { s with tasks := tasks } n' →
      u.requestID ≠ v.requestID) :
    OpenOk s.group.table (s.log.append p (.request v))
      (State.active { s with log := s.log.append p (.request v), tasks := tasks })
      v.requestID := by
  refine .write hchain rfl hlater h.group.distinct (fun n' u hu hid => ?_) (fun n' => ?_)
  · rcases mem_active_write h (by rfl) (by rfl) (by rfl) hu with hold | ⟨hm, hp⟩
    · exact absurd hid (hnone n' u hold)
    · exact ⟨(Message.request.inj hm).symm, hp⟩
  · refine Nat.le_trans (count_active_write h (by rfl) (by rfl) (by rfl) n' _) ?_
    rw [List.countP_eq_zero.mpr]
    intro u hu
    simpa using hnone n' u hu

end Write

/-! ## The outcomes of a step -/

namespace State

/-- A tail call goes from an actor to a service or an actor. -/
theorem tailTarget_spec (h : tailTarget v target = true) : target.validName = true ∧
    target.service? ≠ none ∧ ∃ name id flow lock, v.target = .session name id flow lock ∧
      (target.deferredLockID ≠ "" → ∃ flow' lock', target = .session name id flow' lock') := by
  unfold tailTarget at h
  rw [Bool.and_eq_true] at h
  refine ⟨h.1, ?_⟩
  replace h := h.2
  split at h
  · rename_i name id flow lock name' hv
    exact ⟨by simp [Target.service?], name, id, flow, lock, hv, by simp [Target.deferredLockID]⟩
  · rename_i name id flow lock name' id' flow' lock' hv
    refine ⟨by simp [Target.service?], name, id, flow, lock, hv, fun hlock => ?_⟩
    rw [decide_eq_true_eq] at h
    rcases h with h | ⟨rfl, rfl⟩
    · exact absurd h hlock
    · exact ⟨flow', lock', rfl⟩
  · simp at h

end State

section Outcomes

variable (h : Inv s)

include h

variable {caches : String → Cache}

/-- A new request is written. -/
theorem Inv.request (hnew : s.NewRequest n v) (hroute : Routes s n store caches)
    (hdest : Destination (s.group.tables s.placementCache n s.group.table) store v.target p) :
    Inv (State.recordSend
      { s with
        log := s.log.append p (.request (v.wire n))
        store := store
        caches := caches } n v) := by
  obtain ⟨hfresh, -, -, -, hfree, hvalid, -, -⟩ := hnew
  have hnone : ∀ q u, ¬ s.log.Holds v.requestID q u := fun q u hu => h.history.sent _ q u hu hfresh
  refine h.write hroute (h.group.lt_size hdest.zero_or_table) ?_ (List.Sublist.refl _) ?_ ?_ ?_
  · rintro u hu
    rw [← Message.request.inj hu]
    simp only [Request.target_wire]
    exact ⟨hvalid, fun n' name id flow lock hp hn' htarget => hdest.placed h.group hp hn' htarget⟩
  · refine h.history.append ?_ ?_ ?_ ?_
    · intro k hk
      by_cases hid : k = v.requestID <;> simp [hid, hk]
    · intro u hu
      rw [← Message.request.inj hu]
      simp
    · simp [Message.isRecord]
    · simp [Message.isRecord]
  · exact fun _ hk => hk
  rintro u hu -
  obtain rfl := Message.request.inj hu
  refine openOk_write h (.append_first ?_ ?_) ?_ ?_
  · simpa using hnone
  · simpa using hfree
  · intro q u hu
    exact absurd (by simpa using hu) (hnone q u)
  · intro n' u hu hid
    have hold := (h.holds_of_active hu).2
    rw [hid, Request.requestID_wire] at hold
    exact hnone _ _ hold

/-- The other active messages of its id, when a task ends. -/
theorem Inv.not_active_drop (ht : t ∈ s.tasks) (hopen : s.history.recorded t.msg.requestID = false)
    (hu : u ∈ (s.drop t.tid).active n) : u.requestID ≠ t.msg.requestID := by
  intro hid
  have hk := h.opened _ hopen
  have hold : u ∈ s.active n := by
    rw [State.mem_active] at hu ⊢
    exact ⟨hu.1, hu.2.imp_right fun ⟨t', ht', heq⟩ => ⟨t', (List.mem_filter.mp ht').1, heq⟩⟩
  have hn : n = t.node := hk.single n t.node u t.msg hold hid (h.task_active ht) rfl
  subst hn
  exact State.not_mem_active_drop ht (h.tasks.alive t ht) (hk.once t.node) hu hid

/-- A task ends with a tail call. -/
theorem Inv.tail {caches : String → Cache} (ht : t ∈ s.tasks)
    (htarget : State.tailTarget t.msg target = true)
    (hv : v = State.continuation t.msg target method value deferred)
    (hroute : Routes s t.node store caches)
    (hdest : Destination (s.group.tables s.placementCache t.node s.group.table) store target p) :
    Inv { s with
      log := s.log.append p (.request (v.wire t.node))
      store := store
      caches := caches
      tasks := s.tasks.filter (fun t' => decide (t'.tid ≠ t.tid)) } := by
  obtain ⟨hvalid, hservice, name, id, flow, lock, hmsg, hlock⟩ := State.tailTarget_spec htarget
  have htable : s.group.table t.node ≠ 0 := h.group.table_ne_zero (h.tasks.attached t ht)
  -- The actor of the task is placed on the node of the task, before and after.
  have hplaced : store.get? (place name id) = some t.node :=
    hroute.step.stable name id t.node
      (h.places.placed t.node t.msg name id flow lock htable (h.tasks.msg t ht) hmsg) htable
  have hoffers : name ∈ s.group.offers t.node := by
    have hname : '_' ∉ name.toList :=
      Target.not_mem_of_validName (h.places.valid _ _ (h.tasks.msg t ht)) (hmsg ▸ rfl)
    exact h.places.offers name id t.node hname
      (h.places.placed t.node t.msg name id flow lock htable (h.tasks.msg t ht) hmsg)
  have hsame : target.deferredLockID ≠ "" → p = s.group.table t.node := by
    intro hne
    obtain ⟨flow', lock', rfl⟩ := hlock hne
    rcases hdest with ⟨hnone, -⟩ | ⟨-, node, hget, rfl⟩
    · have hmem : t.node ∈ s.group.members.filter (fun n => decide (name ∈ s.group.offers n)) :=
        List.mem_filter.mpr ⟨h.group.member _ htable, by simpa using hoffers⟩
      have hempty : s.group.members.filter (fun n => decide (name ∈ s.group.offers n)) = [] := hnone
      rw [hempty] at hmem
      simp at hmem
    · rw [hplaced, Option.some.injEq] at hget
      rw [hget]
      rfl
  subst hv
  refine h.write hroute (h.group.lt_size hdest.zero_or_table) ?_ List.filter_sublist ?_ ?_ ?_
  · intro u hu
    rw [← Message.request.inj hu]
    simp only [Request.target_wire, State.target_continuation]
    exact ⟨hvalid, fun n' name id flow lock hp hn' heq => hdest.placed h.group hp hn' heq⟩
  · refine h.history.append (fun _ hk => hk) ?_ ?_ ?_
    · intro u hu
      rw [← Message.request.inj hu]
      simp only [Request.requestID_wire, State.requestID_continuation]
      exact h.history.sent _ _ _ ⟨h.tasks.msg t ht, rfl⟩
    · simp [Message.isRecord]
    · simp [Message.isRecord]
  · exact fun _ hk => hk
  intro u hu hopen
  obtain rfl := Message.request.inj hu
  simp only [Request.requestID_wire, State.requestID_continuation] at hopen
  have hk := h.opened _ hopen
  obtain ⟨-, hholds, htop⟩ := hk.top t.node t.msg (h.task_active ht) rfl
  refine openOk_write h ?_ ?_ ?_
  · simp only [Request.requestID_wire, State.requestID_continuation]
    refine hk.chain.append_next hholds (fun q u hu => (htop q u hu).1)
      (fun q u hu heq => (htop q u hu).2 heq) (by simp) (by simp) ?_ (by simpa using hservice) ?_
    · rw [hmsg]
      simp [Target.service?]
    · intro hlocked
      have hne : target.deferredLockID ≠ "" := by
        simpa [Request.locked] using hlocked
      exact ⟨hsame hne, hsame hne ▸ htable⟩
  · intro q u hu
    simp only [Request.requestID_wire, State.requestID_continuation] at hu
    simp only [Request.sequence_wire, State.sequence_continuation]
    have := (htop q u hu).1
    omega
  · intro n' u hu
    simp only [Request.requestID_wire, State.requestID_continuation]
    exact h.not_active_drop ht hopen hu

omit h in
theorem Answers.zero_or_table (hm : Answers s v m p store) : p = 0 ∨ ∃ n, s.group.table n = p := by
  cases hm with
  | done => exact .inl rfl
  | caller => exact .inr ⟨_, rfl⟩
  | redirected => exact .inr ⟨_, rfl⟩

theorem Answers.record (hm : Answers s v m p store) :
    m.isRecord = true ∧ m.requestID = v.requestID ∧ p < s.group.size := by
  refine ⟨?_, ?_, h.group.lt_size hm.zero_or_table⟩
  · cases hm <;> rfl
  · cases hm with
    | done m d hv hid => rw [hv]; exact hid
    | caller _ _ hv hid => rw [hv]; exact hid
    | redirected _ _ _ hv hid => rw [hv]; exact hid

theorem Answers.not_request
    (hm : Answers s v m p store) (self : String) (u : Request) : m.wire self ≠ .request u := by
  intro hu
  have hrecord := congrArg Message.isRecord hu
  rw [Message.isRecord_wire, (hm.record h).1] at hrecord
  simp [Message.isRecord] at hrecord

/-- A task ends with its completion record. -/
theorem Inv.record (ht : t ∈ s.tasks)
    (hroute : Routes s t.node store caches) (hm : Answers s t.msg m p store) :
    Inv { s with
      log := s.log.append p (m.wire t.node)
      store := store
      caches := caches
      tasks := s.tasks.filter (fun t' => decide (t'.tid ≠ t.tid))
      history := { s.history with
        recorded := update s.history.recorded t.msg.requestID true
        done := done } } := by
  obtain ⟨hrecord, hid, hp⟩ := hm.record h
  have hnot := hm.not_request h t.node
  refine h.write hroute hp (fun v hv => absurd hv (hnot v)) List.filter_sublist ?_ ?_
    (fun v hv => absurd hv (hnot v))
  · refine h.history.append (fun _ hk => hk) (fun v hv => absurd hv (hnot v)) ?_ ?_
    · intro k
      simp only [update_apply, Message.isRecord_wire, Message.requestID_wire, hrecord, hid,
        true_and]
      by_cases hk : k = t.msg.requestID
      · simp [hk]
      · simp [hk, Ne.symm hk]
    · intro _
      rw [Message.requestID_wire, hid]
      exact h.history.sent _ _ _ ⟨h.tasks.msg t ht, rfl⟩
  · intro k hk
    simp only [update_apply] at hk
    split at hk
    · simp at hk
    exact hk

/-- The store moves on, and tasks end without a message. -/
theorem Inv.shrink {history : History}
    (hroute : Routes s n store caches) (htasks : tasks.Sublist s.tasks)
    (hsent : history.sent = s.history.sent) (hrecorded : history.recorded = s.history.recorded) :
    Inv { s with
      store := store
      caches := caches
      tasks := tasks
      requests := requests
      history := history } where
  group := h.group
  reads := h.reads
  places := h.places.route hroute.step hroute.fresh
  tasks := h.tasks.sublist htasks
  history := by
    refine ⟨?_, ?_, ?_⟩
    · rw [hsent]
      exact h.history.sent
    · rw [hrecorded]
      exact h.history.record
    · rw [hrecorded, hsent]
      exact h.history.recorded
  opened := by
    intro k hk
    simp only [hrecorded] at hk
    refine (h.opened k hk).mono (fun _ _ => Iff.rfl) (fun _ _ _ _ => rfl) (fun n' => ?_)
    refine State.filter_active_subperm ?_ ?_ ?_
    · exact fun halive => halive
    · exact List.Sublist.refl _
    · exact htasks.map _

/-- A process ends. -/
theorem Inv.kill (n : String) : Inv (s.kill n) where
  group := h.group.kill n
  reads := ⟨h.reads.empty, h.reads.fresh, h.reads.head_le⟩
  places := ⟨h.places.valid, h.places.placed, h.places.offers, h.places.caches⟩
  tasks := by
    have hsub := h.tasks.sublist (List.filter_sublist (p := fun t => decide (t.node ≠ n)))
    refine ⟨fun t ht => ?_, hsub.attached, hsub.msg, hsub.tid, hsub.nodup⟩
    have hne : t.node ≠ n := by simpa using (List.mem_filter.mp ht).2
    simpa [State.kill, Group.kill, hne] using hsub.alive t ht
  history := h.history
  opened := by
    intro k hk
    refine (h.opened k hk).mono (fun _ _ => Iff.rfl) (fun _ _ _ _ => rfl) (fun n' => ?_)
    refine State.filter_active_subperm ?_ ?_ ?_
    · intro halive
      simp only [State.kill, Group.kill, update_apply] at halive
      split at halive
      · simp at halive
      exact halive
    · exact List.Sublist.refl _
    · exact List.filter_sublist.map _

/-- Tasks change their phase. -/
theorem Inv.phases (f : Task → Task) (requests : String → GoMap String Waiter)
    (hf : ∀ t, (f t).node = t.node ∧ (f t).msg = t.msg ∧ (f t).tid = t.tid) :
    Inv { s with tasks := s.tasks.map f, requests := requests } where
  group := h.group
  reads := h.reads
  places := h.places
  tasks := by
    refine ⟨?_, ?_, ?_, ?_, ?_⟩
    · intro t ht
      obtain ⟨t', ht', rfl⟩ := List.mem_map.mp ht
      exact (hf t').1 ▸ h.tasks.alive t' ht'
    · intro t ht
      obtain ⟨t', ht', rfl⟩ := List.mem_map.mp ht
      exact (hf t').1 ▸ h.tasks.attached t' ht'
    · intro t ht
      obtain ⟨t', ht', rfl⟩ := List.mem_map.mp ht
      rw [(hf t').1, (hf t').2.1]
      exact h.tasks.msg t' ht'
    · intro t ht
      obtain ⟨t', ht', rfl⟩ := List.mem_map.mp ht
      exact (hf t').2.2 ▸ h.tasks.tid t' ht'
    · have htids : (s.tasks.map f).map Task.tid = s.tasks.map Task.tid := by
        rw [List.map_map]
        exact List.map_congr_left fun t _ => (hf t).2.2
      exact htids ▸ h.tasks.nodup
  history := h.history
  opened := by
    intro k hk
    refine (h.opened k hk).mono (fun _ _ => Iff.rfl) (fun _ _ _ _ => rfl) (fun n' => ?_)
    refine State.filter_active_subperm ?_ ?_ ?_
    · exact fun halive => halive
    · exact List.Sublist.refl _
    · refine sublist_of_eq ?_
      rw [List.map_map]
      exact List.map_congr_left fun t _ => Prod.ext (hf t).1 (hf t).2.1

/-- A task enters its handler. -/
theorem Inv.start (tid : Nat) : Inv { s with
    tasks := s.tasks.map (fun t => if t.tid = tid then { t with phase := .running } else t) } := by
  refine h.phases _ s.requests fun t => ?_
  split <;> exact ⟨rfl, rfl, rfl⟩

theorem Inv.acceptResponse (n id : String) : Inv (s.acceptResponse n id) := by
  unfold State.acceptResponse
  split
  · exact h
  · exact ⟨h.group, h.reads, h.places, h.tasks, h.history, h.opened⟩
  · refine h.phases _ _ fun t => ?_
    split <;> exact ⟨rfl, rfl, rfl⟩

/-! ### Consuming -/

omit h in
theorem State.pending_advance (hpending : s.pending n = m :: ms) : (s.advance n).pending n = ms := by
  unfold State.pending at hpending ⊢
  split at hpending
  · simp at hpending
  rename_i hp
  rw [if_neg (by exact hp)]
  simp only [State.advance, update_self]
  have hsub : max (s.head n) (s.log (s.group.table n)).oldest + 1 -
      (s.log (s.group.table n)).oldest =
      (s.head n - (s.log (s.group.table n)).oldest) + 1 := by
    omega
  rw [hsub, ← List.drop_drop, hpending]
  rfl

omit h in
theorem State.pending_advance_of_ne (hne : n' ≠ n) :
    (s.advance n).pending n' = s.pending n' := by
  unfold State.pending
  simp [State.advance, hne]

theorem Inv.reads_advance (hrunning : s.group.running = true) (halive : s.group.alive n = true)
    (hpending : s.pending n = m :: ms) : LogOk s.group s.log (s.advance n).head where
  empty := h.reads.empty
  fresh := by
    intro n' hattached hn'
    have hne : n' ≠ n := by
      rintro rfl
      exact h.group.running hrunning n' (h.group.alive n' halive) hattached
    simpa [State.advance, hne] using h.reads.fresh n' hattached hn'
  head_le := by
    intro n' hp
    by_cases hne : n' = n
    · subst hne
      unfold State.pending at hpending
      rw [if_neg hp] at hpending
      have hlen := congrArg List.length hpending
      simp only [List.length_drop, List.length_cons] at hlen
      simp only [State.advance, update_self, Partition.newest]
      omega
    · simpa [State.advance, hne] using h.reads.head_le n' hp

/-- A completion record is read. -/
theorem Inv.advance (hrunning : s.group.running = true) (halive : s.group.alive n = true)
    (hpending : s.pending n = m :: ms) : Inv (s.advance n) where
  group := h.group
  reads := h.reads_advance hrunning halive hpending
  places := h.places
  tasks := h.tasks
  history := h.history
  opened := by
    intro k hk
    refine (h.opened k hk).mono (fun _ _ => Iff.rfl) (fun _ _ _ _ => rfl) (fun n' => ?_)
    refine State.filter_active_subperm (fun halive => halive) ?_ (List.Sublist.refl _)
    by_cases hne : n' = n
    · subst hne
      rw [State.pending_advance hpending, hpending]
      exact List.sublist_cons_self m ms
    · rw [State.pending_advance_of_ne hne]

/-- A request is read, and a task is made of it, in any phase. -/
theorem Inv.acceptTask (phase : Phase)
    (requests : String → GoMap String Waiter) (hrunning : s.group.running = true)
    (halive : s.group.alive n = true) (hpending : s.pending n = .request v :: ms) :
    Inv { s.advance n with
      tasks := s.tasks ++ [{ tid := s.nextTid, node := n, msg := v, phase := phase }]
      nextTid := s.nextTid + 1
      requests := requests } where
  group := h.group
  reads := h.reads_advance hrunning halive hpending
  places := h.places
  tasks := by
    have hmem := (State.mem_of_mem_pending (hpending ▸ List.mem_cons_self)).2
    have hattached := h.group.running hrunning n (h.group.alive n halive)
    refine ⟨?_, ?_, ?_, ?_, ?_⟩
    · intro t ht
      rcases List.mem_append.mp ht with hold | hnew
      · exact h.tasks.alive t hold
      · rw [List.mem_singleton.mp hnew]
        exact halive
    · intro t ht
      rcases List.mem_append.mp ht with hold | hnew
      · exact h.tasks.attached t hold
      · rw [List.mem_singleton.mp hnew]
        exact hattached
    · intro t ht
      rcases List.mem_append.mp ht with hold | hnew
      · exact h.tasks.msg t hold
      · rw [List.mem_singleton.mp hnew]
        exact hmem
    · intro t ht
      rcases List.mem_append.mp ht with hold | hnew
      · exact Nat.lt_succ_of_lt (h.tasks.tid t hold)
      · rw [List.mem_singleton.mp hnew]
        exact Nat.lt_succ_self _
    · simp only [List.map_append, List.map_singleton]
      refine List.nodup_append.mpr ⟨h.tasks.nodup, List.nodup_singleton _, ?_⟩
      intro tid htid tid' htid'
      obtain ⟨t, ht, rfl⟩ := List.mem_map.mp htid
      rw [List.mem_singleton.mp htid']
      exact Nat.ne_of_lt (h.tasks.tid t ht)
  history := h.history
  opened := by
    intro k hk
    refine (h.opened k hk).mono (fun _ _ => Iff.rfl) (fun _ _ _ _ => rfl) (fun n' => ?_)
    by_cases hne : n' = n
    · subst hne
      refine List.Perm.subperm (List.Perm.filter _ ?_)
      exact State.active_perm rfl hpending (State.pending_advance hpending) rfl rfl rfl
    refine List.Perm.subperm (List.Perm.of_eq ?_)
    unfold State.active
    have hpend : State.pending { s.advance n with
        tasks := s.tasks ++ [{ tid := s.nextTid, node := n, msg := v, phase := phase }]
        nextTid := s.nextTid + 1
        requests := requests } n' = s.pending n' :=
      State.pending_advance_of_ne (s := s) hne
    rw [hpend]
    simp [State.advance, Ne.symm hne]

theorem Inv.consume (hrunning : s.group.running = true) (halive : s.group.alive n = true)
    (hpending : s.pending n = m :: ms) : Inv ((s.advance n).acceptMessage n m) := by
  cases m with
  | request => exact h.acceptTask _ _ hrunning halive hpending
  | response x => exact (h.advance hrunning halive hpending).acceptResponse n x.requestID
  | done => exact h.advance hrunning halive hpending

/-! ### The group changes -/

omit h in
/-- A node that keeps its partition keeps its messages. -/
theorem State.pending_regroup (htable : g.table n = s.group.table n) :
    State.pending { s with group := g, caches := caches } n = s.pending n := by
  unfold State.pending
  rw [htable]

/-- A change of the group, under which every node keeps its active messages or has
none. -/
theorem Inv.regroup (hgroup : GroupOk g)
    (hreads : LogOk g s.log s.head) (hplaces : PlaceOk g s.placementCache s.log s.store caches)
    (htasks : TaskOk g s.log s.tasks s.nextTid)
    (hactive : ∀ n, g.alive n = true → (g.table n = s.group.table n ∧ s.group.alive n = true) ∨
      State.active { s with group := g } n = []) :
    Inv { s with group := g, caches := caches } where
  group := hgroup
  reads := hreads
  places := hplaces
  tasks := htasks
  history := h.history
  opened := by
    intro k hk
    refine (h.opened k hk).mono (fun _ _ => Iff.rfl) (fun n v hv _ => ?_) (fun n => ?_)
    · rcases hactive n (State.mem_active.mp hv).1 with ⟨htable, -⟩ | hnone
      · exact htable
      · have hv' : v ∈ State.active { s with group := g } n := hv
        rw [hnone] at hv'
        simp at hv'
    by_cases halive : g.alive n = true
    · rcases hactive n halive with ⟨htable, halive'⟩ | hnone
      · exact State.filter_active_subperm (fun _ => halive')
          (sublist_of_eq (State.pending_regroup htable)) (List.Sublist.refl _)
      · have hnone' : State.active { s with group := g, caches := caches } n = [] := hnone
        rw [hnone']
        exact List.nil_subperm
    · unfold State.active
      rw [if_neg halive]
      exact List.nil_subperm

omit h in
/-- A node without partition, or with an empty one, and without tasks. -/
theorem State.active_eq_nil (hpending : s.pending n = [])
    (htasks : ∀ t ∈ s.tasks, t.node ≠ n) : s.active n = [] := by
  unfold State.active
  split
  · rw [hpending, List.filter_eq_nil_iff.mpr (by simpa using htasks)]
    rfl
  · rfl

theorem Inv.expel (hstopped : s.group.running = false) (hdead : s.group.alive n = false) :
    Inv { s with group := s.group.expel n } := by
  have htable : ∀ n', n' ≠ n → (s.group.expel n).table n' = s.group.table n' ∧
      (s.group.expel n).attached n' = s.group.attached n' := by
    intro n' hne
    simp [Group.expel, hne]
  have hgone : (s.group.expel n).table n = 0 ∧ (s.group.expel n).attached n = 0 := by
    simp [Group.expel]
  have hne_of_alive : ∀ n', s.group.alive n' = true → n' ≠ n := by
    rintro n' halive rfl
    simp [hdead] at halive
  have hne_of_table : ∀ n', (s.group.expel n).table n' ≠ 0 → n' ≠ n := by
    rintro n' hp rfl
    exact hp hgone.1
  refine h.regroup (h.group.expel hdead) ⟨h.reads.empty, ?_, ?_⟩
    ⟨h.places.valid, ?_, h.places.offers, ?_⟩ ⟨h.tasks.alive, ?_, ?_, h.tasks.tid, h.tasks.nodup⟩ ?_
  · intro n' hattached hn'
    by_cases hne : n' = n
    · subst hne
      rcases hn' with hmem | hunknown
      · simp [Group.expel] at hmem
      · exact h.reads.fresh n' (h.group.attached_of_table (h.group.table_of_unknown hunknown))
          (.inr hunknown)
    · rw [(htable n' hne).2] at hattached
      exact h.reads.fresh n' hattached (hn'.imp_left fun hmem => (List.mem_filter.mp hmem).1)
  · intro n' hp
    have hne := hne_of_table n' hp
    rw [(htable n' hne).1] at hp ⊢
    exact h.reads.head_le n' hp
  · intro n' v name id flow lock hp hv htarget
    have hne := hne_of_table n' hp
    rw [(htable n' hne).1] at hp hv
    exact h.places.placed n' v name id flow lock hp hv htarget
  · intro hrunning
    simp [Group.expel, hstopped] at hrunning
  · intro t ht
    rw [(htable _ (hne_of_alive _ (h.tasks.alive t ht))).2]
    exact h.tasks.attached t ht
  · intro t ht
    rw [(htable _ (hne_of_alive _ (h.tasks.alive t ht))).1]
    exact h.tasks.msg t ht
  · intro n' halive
    exact .inl ⟨(htable n' (hne_of_alive n' halive)).1, halive⟩

theorem Inv.task_node (ht : t ∈ s.tasks) : t.node ∈ s.group.members :=
  h.group.alive _ (h.tasks.alive t ht)

theorem Inv.join (hstopped : s.group.running = false) (hnew : n ∉ s.group.known) (hne : n ≠ "") :
    Inv { s with group := s.group.join n services } := by
  have htable := h.group.table_of_unknown hnew
  have hattached := h.group.attached_of_table htable
  have hother : ∀ n', n' ≠ n → (s.group.join n services).alive n' = s.group.alive n' := by
    intro n' hne'
    simp [Group.join, hne']
  have hnode : ∀ t ∈ s.tasks, t.node ≠ n := by
    rintro t ht rfl
    exact hnew (h.group.known _ (h.task_node ht))
  refine h.regroup (h.group.join services hnew hne hstopped) ⟨h.reads.empty, ?_, h.reads.head_le⟩
    ⟨h.places.valid, h.places.placed, ?_, ?_⟩
    ⟨?_, h.tasks.attached, h.tasks.msg, h.tasks.tid, h.tasks.nodup⟩ ?_
  · intro n' hattached' hn'
    by_cases hne' : n' = n
    · subst hne'
      exact h.reads.fresh n' hattached (.inr hnew)
    · refine h.reads.fresh n' hattached' ?_
      simpa [Group.join, hne'] using hn'
  · intro name id n' hname hget
    have hold := h.places.offers name id n' hname hget
    have hne' : n' ≠ n := by
      rintro rfl
      exact hnew (h.group.offers n' (List.ne_nil_of_mem hold))
    simpa [Group.join, hne'] using hold
  · intro hrunning
    simp [Group.join, hstopped] at hrunning
  · intro t ht
    rw [hother _ (hnode t ht)]
    exact h.tasks.alive t ht
  intro n' halive
  by_cases hne' : n' = n
  · subst hne'
    refine .inr (State.active_eq_nil ?_ hnode)
    unfold State.pending
    rw [if_pos (by exact htable)]
  · rw [hother n' hne'] at halive
    exact .inl ⟨rfl, halive⟩

theorem Inv.rebalance : Inv { s with group := { s.group with running := false } } := by
  refine h.regroup h.group.stop ⟨h.reads.empty, h.reads.fresh, h.reads.head_le⟩
    ⟨h.places.valid, h.places.placed, h.places.offers, ?_⟩
    ⟨h.tasks.alive, h.tasks.attached, h.tasks.msg, h.tasks.tid, h.tasks.nodup⟩ ?_
  · intro hrunning
    simp at hrunning
  · exact fun n halive => .inl ⟨rfl, halive⟩

theorem Inv.newLeader (hstopped : s.group.running = false) :
    Inv { s with group := { s.group with table := s.group.attached } } := by
  refine h.regroup h.group.newLeader ⟨h.reads.empty, h.reads.fresh, ?_⟩ ⟨h.places.valid, ?_,
    h.places.offers, ?_⟩ ⟨h.tasks.alive, h.tasks.attached, ?_, h.tasks.tid, h.tasks.nodup⟩ ?_
  · intro n hp
    have hle := h.reads.head_le n (h.group.table_ne_zero hp)
    rwa [h.group.attached n hp] at hle
  · intro n v name id flow lock hp hv htarget
    refine h.places.placed n v name id flow lock (h.group.table_ne_zero hp) ?_ htarget
    rwa [h.group.attached n hp]
  · intro hrunning
    simp [hstopped] at hrunning
  · intro t ht
    have hmsg := h.tasks.msg t ht
    rwa [h.group.attached _ (h.tasks.attached t ht)] at hmsg
  intro n halive
  by_cases hp : s.group.attached n = 0
  · refine .inr (State.active_eq_nil ?_ ?_)
    · unfold State.pending
      rw [if_pos (by exact hp)]
    · rintro t ht rfl
      exact h.tasks.attached t ht hp
  · exact .inl ⟨(h.group.attached n hp).symm, halive⟩

theorem Inv.grow : Inv { s with group := { s.group with size := s.group.size + 1 } } := by
  refine h.regroup h.group.grow ⟨?_, h.reads.fresh, h.reads.head_le⟩ ⟨h.places.valid,
    h.places.placed, h.places.offers, h.places.caches⟩ ⟨h.tasks.alive, h.tasks.attached,
    h.tasks.msg, h.tasks.tid, h.tasks.nodup⟩ (fun n halive => .inl ⟨rfl, halive⟩)
  intro p hp
  refine h.reads.empty p ?_
  simp only at hp
  omega

/-- A node that gets a partition has read nothing. -/
theorem Inv.head_le_plan (hplan : s.group.PlanOk s.log assign) (hnewest : ∀ n, s.group.table n ≠ 0 →
      (s.log (s.group.table n)).newest ≤ (log (s.group.table n)).newest) (n : String)
    (hp : s.group.planTable assign n ≠ 0) :
    s.head n ≤ (log (s.group.planTable assign n)).newest := by
  rcases hplan.old_or_empty hp with hold | ⟨h0, -⟩
  · rw [hold] at hp ⊢
    exact Nat.le_trans (h.reads.head_le n hp) (hnewest n hp)
  · have hhead := h.reads.fresh n (h.group.attached_of_table h0)
      (.inl (Group.member_of_planTable hp))
    omega

theorem Inv.setup (hplan : s.group.PlanOk s.log assign) :
    Inv { s with
      group := { s.group with
        running := true
        table := s.group.planTable assign
        attached := s.group.planTable assign }
      caches := fun _ => .empty } := by
  refine h.regroup (h.group.setup hplan) ⟨h.reads.empty, ?_, ?_⟩ ⟨h.places.valid, ?_,
    h.places.offers, ?_⟩ ⟨h.tasks.alive, ?_, ?_, h.tasks.tid, h.tasks.nodup⟩ ?_
  · intro n hp hn
    rcases hn with hmem | hunknown
    · exact absurd hp (hplan.pos n hmem).1
    · exact h.reads.fresh n (h.group.attached_of_table (h.group.table_of_unknown hunknown))
        (.inr hunknown)
  · exact h.head_le_plan hplan (fun _ _ => Nat.le_refl _)
  · intro n v name id flow lock hp hv htarget
    rcases hplan.old_or_empty hp with hold | ⟨-, hempty⟩
    · have hp' : s.group.table n ≠ 0 := hold ▸ hp
      refine h.places.placed n v name id flow lock hp' ?_ htarget
      exact hold ▸ hv
    · have hv' : .request v ∈ s.log.messages (s.group.planTable assign n) := hv
      rw [hempty] at hv'
      simp at hv'
  · exact fun _ n => cacheStore_empty _ _
  · intro t ht
    exact (hplan.pos _ (h.task_node ht)).1
  · intro t ht
    rw [show ({ s.group with
        running := true
        table := s.group.planTable assign
        attached := s.group.planTable assign } : Group).table t.node = _ from
      Group.planTable_of_table h.group (h.group.table_ne_zero (h.tasks.attached t ht))]
    exact h.tasks.msg t ht
  intro n halive
  have hp := (hplan.pos n (h.group.alive n halive)).1
  rcases hplan.old_or_empty hp with hold | ⟨h0, hempty⟩
  · exact .inl ⟨hold, halive⟩
  refine .inr (State.active_eq_nil ?_ ?_)
  · unfold State.pending
    rw [if_neg (by exact hp)]
    rw [show (s.log (s.group.planTable assign n)).records = [] from hempty, List.drop_nil]
  · rintro t ht rfl
    exact h.tasks.attached t ht (h.group.attached_of_table h0)

end Outcomes

end Kar.Rpc
