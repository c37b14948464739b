import Kar.Rpc.Quiet

/-!
# A completed request is not executed again

`Settled` says what a completion record is good for.  As long as a request message
of a completed request is left in the log, so is a completion record, and no node
has the request to do.  It holds in every run in which no request makes more than
`sentinel` tail calls.

A handler that returns does not always leave a completion record.  The response to
a caller that is gone, and that no parent waits for, is dropped.  When every
response has somewhere to go, a completed request is never sent again and never
executed again.
-/

namespace Kar.Rpc

open Kar.Lib

/-- A tail call does not take the sequence number of its request over the sentinel. -/
def WithinSentinel (s : State) (l : Label) : Prop :=
  ∀ t ∈ s.tasks, l.continues = some t.tid → t.msg.sequence < sentinel

instance (s : State) (l : Label) : Decidable (WithinSentinel s l) :=
  inferInstanceAs (Decidable (∀ t ∈ s.tasks, _))

structure Settled (s : State) : Prop where
  bounded : ∀ p v, Message.request v ∈ s.log.messages p → v.sequence ≤ sentinel
  record : ∀ k, s.history.recorded k = true → ∀ p v, s.log.Holds k p v → s.log.Answered k
  inactive : ∀ k, s.history.recorded k = true → ∀ n v, v ∈ s.active n → v.requestID ≠ k

namespace Settled

variable {s s' : State} (hs : Settled s)

include hs

theorem finished (hk : s.history.recorded k = true) : Finished s.log k :=
  ⟨fun p v hv _ => hs.bounded p v hv, fun p v hv hid => hs.record k hk p v ⟨hv, hid⟩⟩

/-- A request that a node works on has no completion record. -/
theorem open_of_active (hv : v ∈ s.active n) :
    s.history.recorded v.requestID = false := by
  rw [Bool.eq_false_iff]
  exact fun hk => hs.inactive _ hk n v hv rfl

/-- A step that writes nothing and changes no history, with no more active requests. -/
theorem of_active (hlog : s'.log = s.log) (hrecorded : s'.history.recorded = s.history.recorded)
    (hactive : ∀ n v, v ∈ s'.active n → v ∈ s.active n) : Settled s' where
  bounded := by
    rw [hlog]
    exact hs.bounded
  record := by
    rw [hlog, hrecorded]
    exact hs.record
  inactive := by
    rw [hrecorded]
    exact fun k hk n v hv => hs.inactive k hk n v (hactive n v hv)

theorem quiet (h : Inv s) (hq : Quiet s s') : Settled s' :=
  hs.of_active hq.log hq.recorded fun _ _ hv => hq.mem_active h hv

/-- A request without completion record is written. -/
theorem write (h : Inv s) (hgroup : s'.group = s.group)
    (hhead : s'.head = s.head) (hlog : s'.log = s.log.append p (.request v))
    (hrecorded : s'.history.recorded = s.history.recorded) (htasks : s'.tasks.Sublist s.tasks)
    (hseq : v.sequence ≤ sentinel) (hopen : s.history.recorded v.requestID = false) :
    Settled s' where
  bounded := by
    intro q u hu
    rw [hlog] at hu
    rcases mem_messages_append.mp hu with hold | ⟨-, hm⟩
    · exact hs.bounded q u hold
    · rwa [Message.request.inj hm]
  record := by
    intro k hk q u hu
    rw [hrecorded] at hk
    rw [hlog] at hu ⊢
    rcases holds_append.mp hu with hold | ⟨-, hm, hid⟩
    · exact log_answered_append.mpr (.inl (hs.record k hk q u hold))
    · rw [← hid, ← Message.request.inj hm, hopen] at hk
      simp at hk
  inactive := by
    intro k hk n u hu
    rw [hrecorded] at hk
    rcases mem_active_write h hgroup hhead hlog hu with hold | ⟨hm, -⟩
    · have hsub : u ∈ s.active n := by
        rw [State.mem_active] at hold ⊢
        exact ⟨hold.1, hold.2.imp_right fun ⟨t, ht, heq⟩ => ⟨t, htasks.subset ht, heq⟩⟩
      exact hs.inactive k hk n u hsub
    · rw [← Message.request.inj hm]
      rintro rfl
      simp [hopen] at hk

/-- The completion record of a task is written. -/
theorem record_step (h : Inv s) (ht : t ∈ s.tasks) (hm : Answers s t.msg m p store) : Settled { s with
      log := s.log.append p (m.wire t.node)
      store := store
      caches := caches
      tasks := s.tasks.filter (fun t' => decide (t'.tid ≠ t.tid))
      history := { s.history with
        recorded := Function.update s.history.recorded t.msg.requestID true
        done := done } } := by
  obtain ⟨hrecord, hid, -⟩ := hm.record h
  have hnot := hm.not_request h t.node
  have hopen := hs.open_of_active (h.task_active ht)
  refine ⟨?_, ?_, ?_⟩
  · intro q u hu
    rcases mem_messages_append.mp hu with hold | ⟨-, hnew⟩
    · exact hs.bounded q u hold
    · exact absurd hnew.symm (hnot u)
  · intro k hk q u hu
    simp only [Function.update_apply] at hk
    rw [log_answered_append, Message.isRecord_wire, Message.requestID_wire, hrecord, hid]
    split at hk
    · rename_i heq
      exact .inr ⟨rfl, heq.symm⟩
    · exact .inl (hs.record k hk q u ((holds_append_of_ne fun v hv => absurd hv (hnot v)).mp hu))
  intro k hk n u hu
  simp only [Function.update_apply] at hk
  rcases mem_active_write h (by rfl) (by rfl) (by rfl) hu with hold | ⟨hnew, -⟩
  · split at hk
    · rename_i heq
      rw [heq]
      exact h.not_active_drop ht hopen hold
    · refine hs.inactive k hk n u ?_
      rw [State.mem_active] at hold ⊢
      exact ⟨hold.1, hold.2.imp_right fun ⟨t, ht, heq⟩ => ⟨t, (List.mem_filter.mp ht).1, heq⟩⟩
  · exact absurd hnew (hnot u)

/-- A recovery that completes. -/
theorem recover (h : Inv s) (hplan : s.group.PlanOk s.log assign) (hrecover : Kar.Rpc.recover
      (s.group.tables s.placementCache leader (s.group.planTable assign))
      (s.group.live s.group.table) (.ofPlan s.group.size s.log) cs (.start s.log s.store) =
        (.ok (), w)) : Settled (s.recovered assign w) := by
  have hrec := recover_plan h hplan hrecover
  refine ⟨?_, ?_, ?_⟩
  · intro p v hv
    rcases ((mem_messages_recover hrec).mp hv).1 with hold | hsent
    · exact hs.bounded p v hold
    · rw [((recover_written hrec).2.1 p _ hsent).restarted.sequence]
      refine Nat.le_trans (restart_le_maxSeq _ _) ?_
      exact Log.BoundedAt.maxSeq_le h.covers fun q u hu _ => hs.bounded q u hu
  · intro k hk p v hv
    rcases recorded_recovered.mp hk with hold | ⟨q, m, hsent, hrecord, hid⟩
    · exact ((hs.finished hold).recovery h.covers hrec).record p v hv.1 hv.2
    · have hq := ((recover_written hrec).2.1 q m hsent).live_or_zero (attached_plan hplan leader)
      exact ⟨q, m, (mem_messages_recover hrec).mpr
        ⟨.inr hsent, not_mem_offsetsForDeletion hq⟩, hrecord, hid⟩
  rintro k hk n v hv rfl
  rcases (mem_active_recovered h hplan hrecover).mp hv with hold | ⟨-, hsent⟩
  · have hopen := hs.open_of_active hold
    exact not_resent_of_active h hopen hold (node_of_recorded h hplan hrecover hopen hk).1
  have hnew := ((recover_written hrec).2.1 _ _ hsent).restarted
  cases hold : s.history.recorded v.requestID with
  | true => exact (hs.finished hold).not_resent h.covers _ hnew.resent
  | false =>
    obtain ⟨-, qw, hlatest, hnone⟩ := node_of_recorded h hplan hrecover hold hk
    exact hnew.service hlatest hnone

omit hs in
theorem init (placementCache : Bool) : Settled (.init placementCache) where
  bounded := by simp [State.init, Log.empty, Log.messages]
  record := by simp [State.init]
  inactive := by simp [State.init]

theorem step (h : Inv s) (hl : WithinSentinel s l) (heffect : Effect s l s') :
    Settled s' := by
  cases heffect with
  | request n v _ _ _ _ _ _ hnew =>
    refine hs.write h (v := v.wire n) rfl rfl rfl rfl (List.Sublist.refl _) ?_ ?_
    · rw [Request.sequence_wire, hnew.2.2.1]
      exact Nat.zero_le _
    · rw [Request.requestID_wire, Bool.eq_false_iff]
      exact fun hk => h.history.recorded _ hk hnew.1
  | tail t target method value deferred c v p store caches ht hrunning hphase htarget hv hroute
      halt hdest =>
    subst hv
    refine hs.write h (v := Request.wire t.node _) rfl rfl rfl rfl List.filter_sublist ?_ ?_
    · rw [Request.sequence_wire, State.sequence_continuation]
      exact hl t ht rfl
    · rw [Request.requestID_wire, State.requestID_continuation]
      exact hs.open_of_active (h.task_active ht)
  | record _ _ _ _ _ _ _ ht _ _ _ hm => exact hs.record_step h ht hm
  | recover _ _ _ _ _ _ hplan hrecover => exact hs.recover h hplan hrecover
  | consume n m _ _ halive hpending =>
    obtain ⟨hlog, -, -, -, hhistory⟩ := acceptMessage_frame (s.advance n) n m
    exact hs.of_active hlog (hhistory ▸ rfl)
      fun _ _ hv => mem_active_consume h halive hpending hv
  | start _ ht => exact hs.of_active rfl rfl fun _ _ hv => mem_active_start h ht hv
  | route _ _ store caches => exact hs.quiet h (.route store caches)
  | drop _ t store caches done =>
    exact hs.quiet h (.drop store caches done t.tid)
  | kill _ n store caches => exact hs.quiet h (.kill store caches n)
  | expel _ _ hdead => exact hs.quiet h (.expel h hdead)
  | join _ services _ hnew => exact hs.quiet h (.join h services hnew)
  | rebalance => exact hs.quiet h (.rebalance h)
  | newLeader => exact hs.quiet h (.newLeader h)
  | grow => exact hs.quiet h (.grow h)
  | setup _ _ hplan => exact hs.quiet h (.setup h hplan)

end Settled

theorem settled_reachable (hok : ∀ s l, ok s l → WithinSentinel s l)
    (hs : Reachable step ok (.init placementCache) s) : Settled s := by
  refine Reachable.invariant (.init placementCache) ?_ hs
  intro s l s' hs hsettled hl hstep
  have h := inv_reachable hs
  exact hsettled.step h (hok s l hl) (step_effect h hstep)

/-! ## Completed requests -/

/-- The response of a handler that returns has somewhere to go. -/
def Answerable (s : State) (l : Label) : Prop :=
  ∀ t ∈ s.tasks, l.finishes = some t.tid → ¬ s.Unanswerable t.msg

instance (s : State) (l : Label) : Decidable (Answerable s l) :=
  inferInstanceAs (Decidable (∀ t ∈ s.tasks, _))

/-- What is completed stays so. -/
theorem Effect.done_mono (heffect : Effect s l s')
    (hk : s.history.done k = true) : s'.history.done k = true := by
  cases heffect with
  | record _ _ _ _ _ _ _ _ _ _ _ _ _ hkeep => exact hkeep k hk
  | drop _ _ _ _ _ _ _ _ _ _ _ _ hkeep => exact hkeep k hk
  | consume n m =>
    rw [(acceptMessage_frame (s.advance n) n m).2.2.2.2]
    exact hk
  | _ => exact hk

/-- A completed request has a completion record. -/
def State.Answered (s : State) : Prop :=
  ∀ k, s.history.done k = true → s.history.recorded k = true

theorem State.Answered.step (hold : s.Answered) (hl : Answerable s l)
    (heffect : Effect s l s') : s'.Answered := by
  intro k hk
  cases heffect with
  | record _ _ _ _ _ _ _ _ _ _ _ _ hdone =>
    simp only [Function.update_apply]
    split
    · rfl
    · rename_i hne
      exact hold k ((hdone k hk).resolve_right hne)
  | drop _ t _ _ _ ht _ _ _ _ _ hdone =>
    rcases hdone k hk with hk | ⟨-, hfin, hun⟩
    · exact hold k hk
    · exact absurd hun (hl t ht hfin)
  | recover =>
    exact recorded_recovered.mpr (.inl (hold k hk))
  | consume n m =>
    rw [(acceptMessage_frame (s.advance n) n m).2.2.2.2] at hk ⊢
    exact hold k hk
  | _ => exact hold k hk

/-- Request `k` runs on `n2`. -/
def runningRun : List Label :=
  [.grow, .grow, .grow, .grow, .join "n1" [], .join "n2" ["a"], .setup samplePlan,
    .send "n1" (newCall "k" "a" "x" "A" "") (calm 0), .consume "n2", .start 0]

/-- The caller `n1` is gone when `n2` answers, and then `n2` dies as well. -/
def againRun : List Label :=
  runningRun ++ [.die "n1", .rebalance, .expel "n1", .setup samplePlan,
    .finish 0 [] "" (calm 0), .die "n2", .rebalance, .expel "n2", .join "n3" ["a"]]

end Kar.Rpc
