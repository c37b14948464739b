import Kar.Rpc.Completed
import Kar.Rpc.Nested

/-!
# A retry runs after the nested calls of the failed execution

`recover` gives the request that it sends again one `ChildID`: the last nested call
without completion record among those whose message with the `ParentID` is still in
the log.  The handler of the retry waits for that call.  When at most one nested
call lacks its completion record, and its message is still there, the retry enters
its handler only after all nested calls of the failed execution are completed.
-/

namespace Kar.Rpc

open Kar.Lib List Function

/-- Of the nested calls of a request that is sent again, at most one lacks its
completion record, and the log still has its message. -/
def OneOpenCall (s : State) : Label → Prop
  | .recover _ _ _ => ∀ k ∈ s.resent, ∀ c ∈ s.history.nested k, s.history.recorded c = false →
      c ∈ s.reads.filterMap (nestedOf k) ∧
        ∀ c' ∈ s.history.nested k, s.history.recorded c' = false → c' = c
  | _ => True

instance (s : State) : (l : Label) → Decidable (OneOpenCall s l)
  | .recover _ _ _ => inferInstanceAs (Decidable (∀ k ∈ s.resent, ∀ c ∈ s.history.nested k, _))
  | .send .. | .consume .. | .start .. | .finish .. | .reject .. | .tail .. | .die .. | .expel ..
  | .join .. | .rebalance | .newLeader | .grow | .setup .. => inferInstanceAs (Decidable True)

/-- The only nested call of `k` without completion record is its child. -/
theorem childOf_eq (hc : c ∈ reads.filterMap (nestedOf k))
    (hopen : ¬ Answered reads c) (hone : ∀ x ∈ reads.filterMap (nestedOf k), ¬ Answered reads x → x = c) :
    childOf reads k = c := by
  have hmem : c ∈ openCalls reads k := mem_filter.mpr ⟨hc, by simpa using hopen⟩
  unfold childOf
  cases hlast : (openCalls reads k).getLast? with
  | none =>
    rw [getLast?_eq_none_iff.mp hlast] at hmem
    simp at hmem
  | some x =>
    obtain ⟨hx, hx'⟩ := mem_filter.mp (mem_of_getLast? hlast)
    exact hone x hx (by simpa using hx')

/-- The nested calls that a request waits for have a completion record, except for its
child as long as the request is blocked. -/
structure RetryOk (s : State) : Prop where
  fresh : ∀ k, s.history.sent k = none → s.history.retry k = []
  queued : ∀ n v, s.group.alive n = true → Message.request v ∈ s.pending n →
    ∀ c ∈ s.history.retry v.requestID, s.history.recorded c = true ∨
      (c = v.childID ∧ c ≠ "" ∧ v.target.service? ≠ none)
  tasks : ∀ t ∈ s.tasks, ∀ c ∈ s.history.retry t.msg.requestID, s.history.recorded c = true ∨
    (c = t.msg.childID ∧ t.phase = .waiting)
  /-- A response wakes the task that waits for it. -/
  waiters : ∀ n c tid, (s.requests n).get? c = some (.parent tid) → tid < s.nextTid ∧
    ∀ t ∈ s.tasks, t.tid = tid → t.msg.childID = c

namespace RetryOk

variable {s s' : State} (hr : RetryOk s)

omit hr in
theorem init (placementCache : Bool) : RetryOk (.init placementCache) := by
  constructor <;> simp [State.init]

include hr

theorem quiet (hq : Quiet s s') : RetryOk s' where
  fresh := by
    rw [hq.sent, hq.retry]
    exact hr.fresh
  queued := by
    rw [hq.retry, hq.recorded]
    intro n v halive hv
    obtain ⟨halive, hv⟩ := hq.mem_pending halive hv
    exact hr.queued n v halive hv
  tasks := by
    rw [hq.retry, hq.recorded]
    exact fun t ht => hr.tasks t (hq.tasks.subset ht)
  waiters := by
    rw [hq.nextTid]
    intro n c tid hget
    obtain ⟨hlt, htask⟩ := hr.waiters n c tid (hq.requests n c _ hget)
    exact ⟨hlt, fun t ht => htask t (hq.tasks.subset ht)⟩

/-- A handler that runs has all its nested calls completed. -/
theorem recorded_of_started (ht : t ∈ s.tasks) (hphase : t.phase ≠ .waiting)
    (hc : c ∈ s.history.retry t.msg.requestID) : s.history.recorded c = true := by
  rcases hr.tasks t ht c hc with hrec | ⟨-, hwait⟩
  · exact hrec
  · exact absurd hwait hphase

/-- A message is written, and tasks end. -/
theorem write (h : Inv s) (hgroup : s'.group = s.group)
    (hhead : s'.head = s.head) (hlog : s'.log = s.log.append p m) (htasks : s'.tasks.Sublist s.tasks)
    (hnext : s'.nextTid = s.nextTid) (hretry : s'.history.retry = s.history.retry)
    (hrecorded : ∀ c, s.history.recorded c = true → s'.history.recorded c = true)
    (hsent : ∀ k, s'.history.sent k = none → s.history.sent k = none)
    (hnew : ∀ v, m = .request v → ∀ c ∈ s.history.retry v.requestID, s.history.recorded c = true)
    (hrequests : ∀ n c tid, (s'.requests n).get? c = some (.parent tid) →
      (s.requests n).get? c = some (.parent tid)) : RetryOk s' where
  fresh := by
    rw [hretry]
    exact fun k hk => hr.fresh k (hsent k hk)
  queued := by
    intro n v halive hv c hc
    rw [hretry] at hc
    rw [pending_write h hgroup hhead hlog, mem_append] at hv
    rcases hv with hold | hv
    · exact (hr.queued n v (hgroup ▸ halive) hold c hc).imp_left (hrecorded c)
    · split at hv
      · exact .inl (hrecorded c (hnew v (mem_singleton.mp hv).symm c hc))
      · simp at hv
  tasks := by
    rw [hretry]
    exact fun t ht c hc => (hr.tasks t (htasks.subset ht) c hc).imp_left (hrecorded c)
  waiters := by
    rw [hnext]
    intro n c tid hget
    obtain ⟨hlt, htask⟩ := hr.waiters n c tid (hrequests n c tid hget)
    exact ⟨hlt, fun t ht => htask t (htasks.subset ht)⟩

/-- A node reads a message. -/
theorem consume (h : Inv s) (halive : s.group.alive n = true) (hpending : s.pending n = m :: ms) :
    RetryOk ((s.advance n).acceptMessage n m) := by
  obtain ⟨-, hgroup, -, -, hhistory⟩ := acceptMessage_frame (s.advance n) n m
  have hmem : m ∈ s.pending n := by
    rw [hpending]
    exact mem_cons_self
  refine ⟨?_, ?_, ?_, ?_⟩
  · rw [hhistory]
    exact hr.fresh
  · rw [hhistory, hgroup]
    intro n' v halive' hv
    rw [pending_consume hpending] at hv
    refine hr.queued n' v halive' ?_
    split at hv
    · rename_i hn
      rw [hn, hpending]
      exact mem_cons_of_mem m hv
    · exact hv
  · rw [hhistory]
    intro t ht c hc
    rcases mem_tasks_consume ht with ⟨t₀, ht₀, htid, -, hmsg, hphase⟩ | ⟨v, rfl, rfl⟩
    · rw [hmsg] at hc ⊢
      rcases hphase with hphase | ⟨-, x, rfl, hwaiter⟩
      · rw [hphase]
        exact hr.tasks t₀ ht₀ c hc
      -- The response of the child is in the log, so the child is completed.
      rcases hr.tasks t₀ ht₀ c hc with hrec | ⟨hchild, -⟩
      · exact .inl hrec
      have hid : t₀.msg.childID = x.requestID :=
        (hr.waiters n x.requestID t.tid hwaiter).2 t₀ ht₀ htid.symm
      refine .inl (h.history.record c ⟨_, _, (State.mem_of_mem_pending hmem).2, rfl, ?_⟩)
      rw [hchild, hid]
      rfl
    · rcases hr.queued n v halive hmem c hc with hrec | ⟨hchild, hne, hservice⟩
      · exact .inl hrec
      refine .inr ⟨hchild, ?_⟩
      rw [if_neg]
      rintro (hempty | hnone)
      · exact hne (hchild.trans hempty)
      · exact hservice hnone
  · intro n' c tid hget
    have hold : ∀ c' tid', (s.requests n').get? c' = some (.parent tid') →
        tid' < s.nextTid ∧ ∀ t ∈ ((s.advance n).acceptMessage n m).tasks, t.tid = tid' →
          t.msg.childID = c' := by
      intro c' tid' hget'
      obtain ⟨hlt, htask⟩ := hr.waiters n' c' tid' hget'
      refine ⟨hlt, fun t ht heq => ?_⟩
      rcases mem_tasks_consume ht with ⟨t₀, ht₀, htid, -, hmsg, -⟩ | ⟨v, -, rfl⟩
      · rw [hmsg]
        exact htask t₀ ht₀ (htid.symm.trans heq)
      · exact absurd heq (Nat.ne_of_gt hlt)
    cases m with
    | done => exact hold c tid hget
    | response x =>
      have hnext : ((s.advance n).acceptMessage n (.response x)).nextTid = s.nextTid := by
        simp only [State.acceptMessage, State.acceptResponse]
        split <;> rfl
      rw [hnext]
      refine hold c tid ?_
      simp only [State.acceptMessage, State.acceptResponse] at hget
      split at hget
      · exact hget
      all_goals
        simp only [update_apply] at hget
        split at hget
        · rename_i hn
          rw [GoMap.get?_delete] at hget
          split at hget
          · simp at hget
          exact hn ▸ hget
        · exact hget
    | request v =>
      simp only [State.acceptMessage, State.acceptRequest] at hget
      by_cases hnew : v.childID ≠ "" ∧ n' = n ∧ c = v.childID
      · obtain ⟨hne, rfl, rfl⟩ := hnew
        rw [if_neg hne, update_self, GoMap.get?_set_self] at hget
        simp only [Option.some.injEq, Waiter.parent.injEq] at hget
        subst hget
        refine ⟨Nat.lt_succ_self _, fun t ht htid => ?_⟩
        rcases mem_tasks_consume ht with ⟨t₀, ht₀, htid', -⟩ | ⟨v', hv', rfl⟩
        · have hlt := h.tasks.tid t₀ ht₀
          have htid'' : t.tid = s.nextTid := htid
          omega
        · rw [Message.request.inj hv']
      · obtain ⟨hlt, htask⟩ := hold c tid (by
          split at hget
          · exact hget
          rename_i hne
          rw [update_apply] at hget
          split at hget
          · rename_i hn
            rw [GoMap.get?_set_of_ne _ (fun hc => hnew ⟨hne, hn, hc⟩)] at hget
            exact hn ▸ hget
          · exact hget)
        exact ⟨Nat.lt_succ_of_lt hlt, htask⟩

/-- A task enters its handler. -/
theorem start (h : Inv s) (ht : t ∈ s.tasks) (hphase : t.phase = .ready) :
    RetryOk { s with
      tasks := s.tasks.map (fun t' =>
        if t'.tid = t.tid then { t' with phase := .running } else t') } where
  fresh := hr.fresh
  queued := hr.queued
  tasks := by
    intro t' ht' c hc
    rcases mem_tasks_start h ht ht' with hold | rfl
    · exact hr.tasks t' hold c hc
    · exact .inl (hr.recorded_of_started ht (by simp [hphase]) hc)
  waiters := by
    intro n c tid hget
    obtain ⟨hlt, htask⟩ := hr.waiters n c tid hget
    refine ⟨hlt, fun t' ht' htid => ?_⟩
    rcases mem_tasks_start h ht ht' with hold | rfl
    · exact htask t' hold htid
    · exact htask t ht htid

/-- A new request is written. -/
theorem request (h : Inv s) (hnew : s.NewRequest n v) :
    RetryOk (State.recordSend
      { s with
        log := s.log.append p (.request (v.wire n))
        store := store
        caches := caches } n v) := by
  refine hr.write h (m := .request (v.wire n)) rfl rfl rfl (List.Sublist.refl _) rfl rfl
    (fun _ hc => hc) ?_ ?_ ?_
  · intro k hk
    simp only [State.recordSend, update_apply] at hk
    split at hk
    · simp at hk
    exact hk
  · intro u hu c hc
    rw [← Message.request.inj hu, Request.requestID_wire, hr.fresh _ hnew.1] at hc
    simp at hc
  intro n' c tid hget
  cases v with
  | tell => exact hget
  | call =>
    simp only [State.recordSend, update_apply] at hget
    split at hget
    · rename_i heq
      rw [GoMap.get?_set] at hget
      split at hget
      · simp at hget
      exact heq ▸ hget
    · exact hget

/-- A tail call is written. -/
theorem tail (h : Inv s) (ht : t ∈ s.tasks) (hphase : t.phase = .running)
    (hv : v = State.continuation t.msg target method value deferred) :
    RetryOk { s with
      log := s.log.append p (.request (v.wire t.node))
      store := store
      caches := caches
      tasks := s.tasks.filter (fun t' => decide (t'.tid ≠ t.tid)) } := by
  refine hr.write h (m := .request (v.wire t.node)) rfl rfl rfl filter_sublist rfl
    rfl (fun _ hc => hc) (fun _ hk => hk) ?_ (fun _ _ _ hget => hget)
  intro u hu c hc
  rw [← Message.request.inj hu, Request.requestID_wire, hv, State.requestID_continuation] at hc
  exact hr.recorded_of_started ht (by simp [hphase]) hc

omit hr in
/-- A request that is sent again waits for the only nested call that is open. -/
theorem queued_resent (h : Inv s) (hsettled : Settled s) (hn : NestedOk s)
    (hone : OneOpenCall s (.recover leader assign cs)) (hk : k ∈ s.resent) (hk0 : k ≠ "")
    (hc : c ∈ s.history.nested k) (hopen : s.history.recorded c = false) : c = childOf s.reads k := by
  obtain ⟨hmem, huniq⟩ := hone k hk c hc hopen
  refine (childOf_eq hmem ?_ fun x hx hans => ?_).symm
  · exact fun hans => h.not_answered hopen ((answered_reads h.covers).mp hans)
  obtain ⟨⟨p, m⟩, hread, hnested⟩ := mem_filterMap.mp hx
  obtain ⟨v, rfl, hparent, rfl⟩ := nestedOf_eq_some.mp hnested
  have hv := (mem_reads h.covers).mp hread
  refine huniq _ (hn.parents p v k hv hparent hk0) ?_
  rw [Bool.eq_false_iff]
  intro hrec
  exact hans ((answered_reads h.covers).mpr (hsettled.record _ hrec p v ⟨hv, rfl⟩))

/-- A recovery that completes. -/
theorem recover (h : Inv s) (hsettled : Settled s) (hn : NestedOk s)
    (hplan : s.group.PlanOk s.log assign)
    (hone : OneOpenCall s (.recover leader assign cs)) (hrecover : Kar.Rpc.recover (s.group.tables
      s.placementCache leader (s.group.planTable assign)) (s.group.live s.group.table) (.ofPlan
      s.group.size s.log) cs (.start s.log s.store) = (.ok (), w)) : RetryOk (s.recovered assign w)
      := by
  have hrec := recover_plan h hplan hrecover
  have hresent := resent_eq h hplan
  have hmono : ∀ c, s.history.recorded c = true → (s.recovered assign w).history.recorded c = true
      := fun c hc => recorded_recovered.mpr (.inl hc)
  have hretry : ∀ n v, v ∈ s.active n →
      (s.recovered assign w).history.retry v.requestID = s.history.retry v.requestID := by
    intro n v hv
    have hnot : v.requestID ∉ resentIds (s.planLive assign) ((Claims.ofPlan s.group.size
        s.log).reads s.log) := not_resent_of_active h (hsettled.open_of_active hv) hv
    simp only [State.recovered]
    rw [if_neg]
    rwa [hresent]
  refine ⟨?_, ?_, ?_, hr.waiters⟩
  · intro k hk
    simp only [State.recovered]
    rw [if_neg]
    · exact hr.fresh k hk
    · rw [hresent]
      exact fun hmem => sent_of_resent h hmem hk
  · intro n v halive hv c hc
    have hp := (hplan.pos n (h.group.alive n halive)).1
    rw [pending_recovered h hplan hrecover hp, mem_append] at hv
    rcases hv with hold | hnew
    · rw [hretry n v (State.mem_active.mpr ⟨halive, .inl hold⟩)] at hc
      exact (hr.queued n v halive hold c hc).imp_left (hmono c)
    obtain ⟨⟨q, m⟩, hsent, rfl⟩ := mem_map.mp hnew
    have hnew := ((recover_written hrec).2.1 q _ (mem_filter.mp hsent).1).restarted
    have hmem : v.requestID ∈ s.resent := hresent ▸ hnew.resent
    simp only [State.recovered, if_pos hmem] at hc
    cases hopen : s.history.recorded c with
    | true => exact .inl (hmono c hopen)
    | false =>
      have hk0 := hn.ne_noname (sent_of_resent h hnew.resent)
      have hchild := queued_resent h hsettled hn hone hmem hk0 hc hopen
      obtain ⟨node, name, hname, -⟩ := hnew.routed
      exact .inr ⟨hchild.trans hnew.child.symm,
        hn.ne_noname (hn.sent_ne_none hk0 hc), by simp [hname]⟩
  · intro t ht c hc
    rw [hretry t.node t.msg (h.task_active ht)] at hc
    exact (hr.tasks t ht c hc).imp_left (hmono c)

theorem step (h : Inv s) (hsettled : Settled s) (hn : NestedOk s) (hl : OneOpenCall s l)
    (heffect : Effect s l s') : RetryOk s' := by
  cases heffect with
  | request _ _ _ _ _ _ _ _ hnew => exact hr.request h hnew
  | tail t target method value deferred c v p store caches ht hrunning hphase htarget hv hroute
      halt hdest => exact hr.tail h ht hphase hv
  | record _ t _ _ _ _ _ _ _ _ _ hm =>
    refine hr.write h rfl rfl rfl filter_sublist rfl rfl ?_ (fun _ hk => hk)
      (fun v hv => absurd hv (hm.not_request h t.node v)) (fun _ _ _ hget => hget)
    intro c hc
    simp only [update_apply]
    split
    · rfl
    · exact hc
  | recover _ _ _ _ _ _ hplan hrecover =>
    exact hr.recover h hsettled hn hplan hl hrecover
  | consume _ _ _ _ halive hpending => exact hr.consume h halive hpending
  | start t ht hphase => exact hr.start h ht hphase
  | route _ _ store caches => exact hr.quiet (.route store caches)
  | drop _ t store caches done =>
    exact hr.quiet (.drop store caches done t.tid)
  | kill _ n store caches => exact hr.quiet (.kill store caches n)
  | expel _ _ hdead => exact hr.quiet (.expel h hdead)
  | join _ services _ hnew => exact hr.quiet (.join h services hnew)
  | rebalance => exact hr.quiet (.rebalance h)
  | newLeader => exact hr.quiet (.newLeader h)
  | grow => exact hr.quiet (.grow h)
  | setup _ _ hplan => exact hr.quiet (.setup h hplan)

end RetryOk

theorem retryOk_reachable (hok : ∀ s l, ok s l → WithinSentinel s l ∧ OneOpenCall s l)
    (hs : Reachable step ok (.init placementCache) s) : RetryOk s := by
  refine Reachable.invariant (.init placementCache) ?_ hs
  intro s l s' hs hr hl hstep
  have h := inv_reachable hs
  exact hr.step h (settled_reachable (fun s l hl => (hok s l hl).1) hs) (nestedOk_reachable hs)
    (hok s l hl).2 (step_effect h hstep)

/-- Request `P` runs on `n2` and calls an actor on `n3`. -/
def nestedRun : List Label :=
  [.grow, .grow, .grow, .grow, .join "n1" [], .join "n2" ["a"], .join "n3" ["b"],
    .setup samplePlan, .send "n1" (newCall "P" "a" "x" "A" "") (calm 0), .consume "n2", .start 0,
    .send "n2" (newCall "c" "b" "y" "B" "P") (calm 0)]

/-- Request `P` makes a second nested call before its node dies. -/
def earlyRun : List Label :=
  nestedRun ++ [.send "n2" (newCall "d" "b" "z" "B" "P") (calm 0), .die "n2", .rebalance,
    .expel "n2", .join "n4" ["a"], .recover "n1" samplePlan calm, .setup samplePlan,
    .consume "n3", .consume "n3", .start 2, .finish 2 [] "" (calm 0), .consume "n4", .consume "n4"]

end Kar.Rpc
