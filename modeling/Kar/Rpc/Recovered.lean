import Kar.Rpc.Preserved

/-!
# A recovery in a run

The recovery step of the system keeps the invariant.  The leader has planned a
partition for every member before it recovers, so the requests that it sends again
go to the partitions of the plan.  Those that the plan has just given out are
empty, and the leader does not read them.  Hence the results about recoveries apply
with the partitions of the plan as the live ones.
-/

namespace Kar.Rpc

open Kar.Lib

/-- The partitions that belong to members after the plan. -/
def State.planLive (s : State) (assign : String → Nat) : Live :=
  s.group.live (s.group.planTable assign)

theorem State.mem_planLive {s : State} {assign : String → Nat} (hp : s.group.planTable assign n ≠ 0) :
    (s.planLive assign).mem (s.group.planTable assign n) = true :=
  Group.mem_live.mpr ⟨hp, n, Group.member_of_planTable hp, rfl⟩

section Recovered

variable (h : Inv s)
   (hplan : s.group.PlanOk s.log assign)

include h

theorem Inv.covers : (Claims.ofPlan s.group.size s.log).Covers s.log :=
  covers_ofPlan h.group.size h.reads.empty

include hplan

theorem live_plan (hp : p ∈ (Claims.ofPlan s.group.size s.log).partitions) :
    (s.group.live s.group.table).mem p = (s.planLive assign).mem p := by
  rw [Bool.eq_iff_iff]
  unfold State.planLive
  rw [Group.mem_live, Group.mem_live]
  refine and_congr_right fun hp0 => ?_
  constructor
  · rintro ⟨n, hn, rfl⟩
    exact ⟨n, hn, Group.planTable_of_table h.group hp0⟩
  rintro ⟨n, hn, rfl⟩
  rcases hplan.old_or_empty hp0 with hold | ⟨-, hempty⟩
  · exact ⟨n, hn, hold.symm⟩
  · simp only [Claims.ofPlan, List.mem_filter, decide_eq_true_eq] at hp
    rcases hp.2 with h0 | hlt
    · exact absurd h0 hp0
    · exact absurd hempty ((Partition.oldest_lt_newest _).mp hlt)

omit h in
theorem attached_plan (leader : String) :
    (s.group.tables s.placementCache leader (s.group.planTable assign)).Attached
      (s.planLive assign) where
  offered := fun _ n hn => (hplan.pos n (List.mem_filter.mp hn).1).1
  live := fun _ hn => State.mem_planLive hn

variable (hrecover : recover
  (s.group.tables s.placementCache leader (s.group.planTable assign))
  (s.group.live s.group.table) (.ofPlan s.group.size s.log) cs (.start s.log s.store) = (.ok (), w))

include hrecover

theorem recover_plan : recover
    (s.group.tables s.placementCache leader (s.group.planTable assign))
    (s.planLive assign) (.ofPlan s.group.size s.log) cs (.start s.log s.store) = (.ok (), w) := by
  rw [← hrecover]
  exact (recover_congr (fun p hp => (live_plan h hplan hp).symm) _ _ _).2

omit hrecover in
/-- The ids that the recovery sends again, in terms of the plan. -/
theorem resent_eq : s.resent = resentIds (s.planLive assign) s.reads := by
  unfold State.resent State.reads
  have hactions := (recover_congr (fun p hp => live_plan h hplan hp)
    (s.group.tables s.placementCache "" s.group.table) calm (.start s.log s.store)).1
  rw [World.start_log] at hactions
  rw [hactions]
  exact resends_ids _ _

/-- A partition of a member keeps its messages and gets the new ones. -/
theorem messages_recovered (hp : s.group.planTable assign n ≠ 0) :
    (w.log (s.group.planTable assign n)).oldest = (s.log (s.group.planTable assign n)).oldest ∧
      w.log.messages (s.group.planTable assign n) = s.log.messages (s.group.planTable assign n) ++
      (w.sent.filter (fun pm => pm.1 = s.group.planTable assign n)).map Prod.snd := by
  have hlog := (recover_written (recover_plan h hplan hrecover)).1
  have hkept := not_mem_offsetsForDeletion (c := .ofPlan s.group.size s.log)
    (.inl (State.mem_planLive hp))
  rw [hlog]
  constructor
  · unfold Log.deleteRecords
    rw [if_neg hkept]
    exact Log.oldest_appendAll _ _ _
  · rw [Log.messages_deleteRecords, if_neg hkept, Log.messages_appendAll]

theorem pending_recovered (hp : s.group.planTable assign n ≠ 0) :
    (s.recovered assign w).pending n = s.pending n ++
      (w.sent.filter (fun pm => pm.1 = s.group.planTable assign n)).map Prod.snd := by
  obtain ⟨holdest, hmessages⟩ := messages_recovered h hplan hrecover hp
  rcases hplan.old_or_empty hp with hold | ⟨h0, hempty⟩
  · rw [hold] at holdest hmessages hp ⊢
    have happ : (s.recovered assign w).pending n = _ :=
      State.pending_append _ hold rfl (h.reads.head_le n) holdest hmessages
    rwa [if_neg hp] at happ
  -- The node has read nothing of its new partition, which was empty.
  have hhead := h.reads.fresh n (h.group.attached_of_table h0) (.inl (Group.member_of_planTable hp))
  rw [hempty, List.nil_append] at hmessages
  unfold State.pending
  rw [if_pos h0, List.nil_append, if_neg (by exact hp)]
  simp only [State.recovered, hhead, Nat.zero_sub, List.drop_zero]
  exact hmessages

/-- The active messages after a recovery: the ones before, and the ones that were
sent again. -/
theorem mem_active_recovered :
    v ∈ (s.recovered assign w).active n ↔ v ∈ s.active n ∨
      (s.group.alive n = true ∧ (s.group.planTable assign n, .request v) ∈ w.sent) := by
  rw [State.mem_active, State.mem_active]
  by_cases halive : s.group.alive n = true
  · have hp := (hplan.pos n (h.group.alive n halive)).1
    rw [pending_recovered h hplan hrecover hp, List.mem_append]
    have hsent : .request v ∈
        (w.sent.filter (fun pm => pm.1 = s.group.planTable assign n)).map Prod.snd ↔
        (s.group.planTable assign n, .request v) ∈ w.sent := by
      simp
    rw [hsent]
    simp only [State.recovered, halive, true_and]
    exact or_right_comm
  · simp [State.recovered, halive]

omit hplan hrecover in
theorem Inv.not_answered (hopen : s.history.recorded k = false) :
    ¬ s.log.Answered k := by
  intro hans
  have hrecorded := h.history.record k hans
  simp [hopen] at hrecorded

omit hplan hrecover in
/-- What was active before the recovery is in a live partition, so it is not sent
again. -/
theorem not_resent_of_active (hopen : s.history.recorded v.requestID = false) (hv : v ∈ s.active n) :
    v.requestID ∉ resentIds (s.planLive assign)
      ((Claims.ofPlan s.group.size s.log).reads s.log) := by
  obtain ⟨hp, hholds, htop⟩ := (h.opened _ hopen).top n v hv rfl
  have hans : ¬ Answered ((Claims.ofPlan s.group.size s.log).reads s.log) v.requestID :=
    fun ha => h.not_answered hopen ((answered_reads h.covers).mp ha)
  rw [mem_resentIds_of_not_answered _ _ hans]
  refine fun horphan => horphan.notHeld ?_
  refine ⟨(s.group.table n, v), (mem_requestsOf_reads h.covers).mpr hholds, ?_, ?_⟩
  · have hsame : s.group.planTable assign n = s.group.table n := Group.planTable_of_table h.group hp
    exact hsame ▸ State.mem_planLive (hsame ▸ hp)
  · exact (top_iff h.covers hholds).mp fun q u hu => (htop q u hu).1

theorem not_sent_of_active (hopen : s.history.recorded k = false) (hv : v ∈ s.active n)
    (hid : v.requestID = k) (hu : (p, .request u) ∈ w.sent) : u.requestID ≠ k := by
  rintro rfl
  rw [← hid] at hopen
  have hresent := ((recover_written (recover_plan h hplan hrecover)).2.1 p _ hu).restarted.resent
  rw [← hid] at hresent
  exact not_resent_of_active h hopen hv hresent

theorem count_active_recovered (n k : String) :
    ((s.recovered assign w).active n).countP (fun v => decide (v.requestID = k)) ≤
      (s.active n).countP (fun v => decide (v.requestID = k)) + (sentIds w.sent).count k := by
  by_cases halive : s.group.alive n = true
  · have hp := (hplan.pos n (h.group.alive n halive)).1
    rw [State.countP_active (by exact halive), State.countP_active halive,
      pending_recovered h hplan hrecover hp, List.filterMap_append, List.countP_append, sentIds_eq,
      List.count, List.countP_map, List.filterMap_map]
    have hle := ((List.filter_sublist (p := fun pm : Nat × Message =>
      decide (pm.1 = s.group.planTable assign n)) (l := w.sent)).filterMap
        (Message.request? ∘ Prod.snd)).countP_le (p := fun v => decide (v.requestID = k))
    have hsame : (fun v : Request => decide (v.requestID = k)) =
        (fun x => x == k) ∘ Request.requestID := by
      funext v
      simp [Function.comp, beq_eq_decide]
    rw [hsame] at hle ⊢
    have htasks : (s.recovered assign w).tasks = s.tasks := rfl
    rw [htasks]
    simp only [Function.comp_def] at hle ⊢
    omega
  · unfold State.active
    rw [if_neg (by exact halive)]
    exact Nat.zero_le _

theorem openOk_recovered (hopen : s.history.recorded k = false) (hopen' : ¬ w.log.Answered k) :
    OpenOk (s.group.planTable assign) w.log (s.recovered assign w).active k := by
  have hk := h.opened k hopen
  have hnot := h.not_answered hopen
  have hrec := recover_plan h hplan hrecover
  have hatt := attached_plan hplan leader
  have hdistinct := (h.group.plan hplan).distinct
  refine ⟨hk.chain.recover h.covers hatt hrec hnot hopen', ?_, ?_, ?_⟩
  · intro n v hv hid
    rcases (mem_active_recovered h hplan hrecover).mp hv with hold | ⟨halive, hsent⟩
    · obtain ⟨hp, hholds, htop⟩ := hk.top n v hold hid
      have hsame : s.group.planTable assign n = s.group.table n :=
        Group.planTable_of_table h.group hp
      rw [hsame]
      refine ⟨hp, (holds_recover h.covers hatt hrec).mpr (.inl ⟨hholds, ?_⟩), fun q u hu => ?_⟩
      · exact .inl (hsame ▸ State.mem_planLive (hsame ▸ hp))
      · rcases (holds_recover h.covers hatt hrec).mp hu with ⟨hu, -⟩ | ⟨hu, huid⟩
        · exact htop q u hu
        · exact absurd huid (not_sent_of_active h hplan hrecover hopen hold hid hu)
    · have hp := (hplan.pos n (h.group.alive n halive)).1
      refine ⟨hp, (holds_recover h.covers hatt hrec).mpr (.inr ⟨hsent, hid⟩), fun q u hu => ?_⟩
      rcases (holds_recover h.covers hatt hrec).mp hu with ⟨hu, hq⟩ | ⟨hu, huid⟩
      · obtain ⟨hle, hlt⟩ := sent_sequence h.covers hrec hnot hk.chain hsent hid hu hq
        refine ⟨hle, fun heq => .inr ?_⟩
        by_contra hq0
        have := hlt hq0
        omega
      · obtain ⟨hpq, rfl⟩ := sent_request_unique hrec hsent hu (hid.trans huid.symm)
        exact ⟨Nat.le_refl _, fun _ => .inl hpq.symm⟩
  · intro n n' v v' hv hid hv' hid'
    rcases (mem_active_recovered h hplan hrecover).mp hv with hold | ⟨halive, hsent⟩
    · rcases (mem_active_recovered h hplan hrecover).mp hv' with hold' | ⟨-, hsent'⟩
      · exact hk.single n n' v v' hold hid hold' hid'
      · exact absurd hid' (not_sent_of_active h hplan hrecover hopen hold hid hsent')
    · rcases (mem_active_recovered h hplan hrecover).mp hv' with hold' | ⟨-, hsent'⟩
      · exact absurd hid (not_sent_of_active h hplan hrecover hopen hold' hid' hsent)
      · obtain ⟨hpq, -⟩ := sent_request_unique hrec hsent hsent' (hid.trans hid'.symm)
        exact hdistinct n n' (hplan.pos n (h.group.alive n halive)).1 hpq
  · intro n
    refine Nat.le_trans (count_active_recovered h hplan hrecover n k) ?_
    by_cases hold : ∃ v ∈ s.active n, v.requestID = k
    · obtain ⟨v, hv, hid⟩ := hold
      have hzero : (sentIds w.sent).count k = 0 := by
        rw [List.count_eq_zero]
        intro hmem
        obtain ⟨p, u, hu, huid⟩ := mem_sentIds.mp hmem
        exact not_sent_of_active h hplan hrecover hopen hv hid hu huid
      have := hk.once n
      omega
    · have hzero : (s.active n).countP (fun v => decide (v.requestID = k)) = 0 := by
        rw [List.countP_eq_zero]
        intro v hv
        simpa using fun hid => hold ⟨v, hv, hid⟩
      have := List.nodup_iff_count_le_one.mp (nodup_sentIds hrec) k
      omega

omit h hplan hrecover in
theorem recorded_recovered : (s.recovered assign w).history.recorded k = true ↔
    s.history.recorded k = true ∨ ∃ p m, (p, m) ∈ w.sent ∧ m.isRecord = true ∧ m.requestID = k := by
  simp [State.recovered]

omit h hplan hrecover in
/-- A request without completion record after the recovery had none before. -/
theorem open_of_recovered (hk : (s.recovered assign w).history.recorded k = false) :
    s.history.recorded k = false := by
  rw [Bool.eq_false_iff] at hk ⊢
  exact fun hold => hk (recorded_recovered.mpr (.inl hold))

/-- A request that gets its completion record from the recovery is a call to a node. -/
theorem node_of_recorded (hopen : s.history.recorded k = false)
    (hk : (s.recovered assign w).history.recorded k = true) :
    k ∈ resentIds (s.planLive assign) s.reads ∧
      ∃ qw, latestRead s.reads k = some qw ∧ qw.2.target.service? = none := by
  rcases recorded_recovered.mp hk with hold | ⟨p, m, hsent, hrecord, rfl⟩
  · simp [hopen] at hold
  · rcases ((recover_written (recover_plan h hplan hrecover)).2.1 p m hsent).record_cases hrecord with
      hcase | ⟨-, hans⟩
    · exact hcase
    · exact absurd ((answered_reads h.covers).mp hans) (h.not_answered hopen)

theorem answered_recovered (hk : w.log.Answered k) :
    (s.recovered assign w).history.recorded k = true := by
  obtain ⟨p, m, hm, hrecord, hid⟩ := hk
  rw [recorded_recovered]
  rcases ((mem_messages_recover (recover_plan h hplan hrecover)).mp hm).1 with hold | hsent
  · exact .inl (h.history.record k ⟨p, m, hold, hrecord, hid⟩)
  · exact .inr ⟨p, m, hsent, hrecord, hid⟩

omit hplan hrecover in
/-- A request that is sent again has a message in the log. -/
theorem sent_of_resent
    (hk : k ∈ resentIds (s.planLive assign) ((Claims.ofPlan s.group.size s.log).reads s.log)) :
    s.history.sent k ≠ none := by
  rw [← resends_ids] at hk
  obtain ⟨r, hr, rfl⟩ := List.mem_map.mp hk
  obtain ⟨-, qw, hlatest, heq⟩ := mem_resends (s.planLive assign) _ hr
  have hholds := (mem_requestsOf_reads h.covers).mp (latestRead_mem hlatest)
  exact h.history.sent _ _ _ hholds

theorem history_recovered : HistoryOk w.log (s.recovered assign w).history where
  sent := by
    intro k p v hv
    have hrec := recover_plan h hplan hrecover
    rcases (holds_recover h.covers (attached_plan hplan leader) hrec).mp hv with
      ⟨hold, -⟩ | ⟨hsent, rfl⟩
    · exact h.history.sent k p v hold
    · exact sent_of_resent h ((recover_written hrec).2.1 p _ hsent).restarted.resent
  record := fun _ hk => answered_recovered h hplan hrecover hk
  recorded := by
    intro k hk
    rcases recorded_recovered.mp hk with hold | ⟨p, m, hsent, hrecord, rfl⟩
    · exact h.history.recorded k hold
    · have hwritten := (recover_written (recover_plan h hplan hrecover)).2.1 p m hsent
      rcases hwritten.record_cases hrecord with ⟨hresent, -⟩ | ⟨-, hans⟩
      · exact sent_of_resent h hresent
      · exact h.history.recorded _ (h.history.record _ ((answered_reads h.covers).mp hans))

theorem reads_recovered :
    LogOk { s.group with table := s.group.planTable assign } w.log s.head where
  empty := by
    intro p hp
    rw [List.eq_nil_iff_forall_not_mem]
    intro m hm
    have hrec := recover_plan h hplan hrecover
    rcases ((mem_messages_recover hrec).mp hm).1 with hold | hsent
    · have hempty := h.reads.empty p hp
      rw [hempty] at hold
      simp at hold
    have hlt : p < s.group.size := by
      rcases ((recover_written hrec).2.1 p m hsent).live_or_zero (attached_plan hplan leader) with
        hlive | rfl
      · obtain ⟨-, n, -, rfl⟩ := Group.mem_live.mp hlive
        exact (h.group.plan hplan).bound n
      · exact h.group.size
    exact absurd hp (Nat.not_le.mpr hlt)
  fresh := h.reads.fresh
  head_le := by
    refine h.head_le_plan hplan fun n hp => ?_
    have hsame : s.group.planTable assign n = s.group.table n := Group.planTable_of_table h.group hp
    obtain ⟨holdest, hmessages⟩ := messages_recovered h hplan hrecover (hsame ▸ hp)
    have hlen := congrArg List.length hmessages
    rw [hsame] at holdest hlen
    rw [List.length_append] at hlen
    unfold Log.messages at hlen
    unfold Partition.newest
    omega

theorem places_recovered (hstopped : s.group.running = false) :
    PlaceOk { s.group with table := s.group.planTable assign } s.placementCache w.log w.store
      s.caches := by
  have hrec := recover_plan h hplan hrecover
  have hgroup := h.group.plan hplan
  obtain ⟨hstep, hdest⟩ := recover_store h.covers hgroup.table_noname h.places.valid hrec
  refine ⟨?_, ?_, ?_, ?_⟩
  · intro p v hv
    rcases ((mem_messages_recover hrec).mp hv).1 with hold | hsent
    · exact h.places.valid p v hold
    obtain ⟨qw, hlatest, hcontent⟩ := ((recover_written hrec).2.1 p _ hsent).restarted.latest
    have hread := (mem_requestsOf_reads h.covers).mp (latestRead_mem hlatest)
    have hvalid := h.places.valid _ _ hread.1
    have hservice : v.target.service? = qw.2.target.service? := by
      rw [← Target.service?_clearLock v.target, ← Target.service?_clearLock qw.2.target]
      exact congrArg (fun c => c.1.service?) hcontent
    unfold Target.validName at hvalid ⊢
    rwa [hservice]
  · intro n v name id flow lock hp hv htarget
    rcases ((mem_messages_recover hrec).mp hv).1 with hold | hsent
    · rcases hplan.old_or_empty hp with hsame | ⟨-, hempty⟩
      · have hp' : s.group.table n ≠ 0 := hsame ▸ hp
        have hold' : Message.request v ∈ s.log.messages (s.group.table n) := hsame ▸ hold
        exact hstep.stable name id n (h.places.placed n v name id flow lock hp' hold' htarget) hp
      · have hold' : Message.request v ∈ s.log.messages (s.group.planTable assign n) := hold
        rw [hempty] at hold'
        simp at hold'
    · exact Destination.placed hgroup (hdest _ v hsent) hp rfl htarget
  · intro name id n hname hget
    rcases hstep.placed name id n hname hget with hold | hnode
    · exact h.places.offers name id n hname hold
    · simpa using (List.mem_filter.mp hnode).2
  · intro hrunning
    simp [hstopped] at hrunning

/-- A recovery that completes keeps the invariant. -/
theorem Inv.recover (hstopped : s.group.running = false) : Inv (s.recovered assign w) where
  group := h.group.plan hplan
  reads := reads_recovered h hplan hrecover
  places := places_recovered h hplan hrecover hstopped
  tasks := by
    refine ⟨h.tasks.alive, h.tasks.attached, fun t ht => ?_, h.tasks.tid, h.tasks.nodup⟩
    have hp := h.group.table_ne_zero (h.tasks.attached t ht)
    have hsame : s.group.planTable assign t.node = s.group.table t.node :=
      Group.planTable_of_table h.group hp
    have hmsg : .request t.msg ∈ w.log.messages (s.group.planTable assign t.node) := by
      rw [(messages_recovered h hplan hrecover (hsame ▸ hp)).2, hsame]
      exact List.mem_append_left _ (h.tasks.msg t ht)
    exact hmsg
  history := history_recovered h hplan hrecover
  opened := by
    intro k hk
    have hopen := open_of_recovered hk
    refine openOk_recovered h hplan hrecover hopen fun hans => ?_
    have := answered_recovered h hplan hrecover hans
    simp [hk] at this

end Recovered

/-! ## Every run -/

/-- Every step keeps the invariant. -/
theorem Inv.step (h : Inv s) (heffect : Effect s l s') : Inv s' := by
  cases heffect with
  | route _ _ _ _ hroute =>
    exact h.shrink hroute (List.Sublist.refl _) rfl rfl
  | request _ _ _ _ _ _ _ _ hnew hroute _ hdest =>
    exact h.request hnew hroute hdest
  | consume _ _ _ hrunning halive hpending => exact h.consume hrunning halive hpending
  | start t => exact h.start t.tid
  | record _ _ _ _ _ _ _ ht _ _ hroute hm =>
    exact h.record ht hroute hm
  | drop _ _ _ _ _ _ _ _ hroute =>
    exact h.shrink hroute List.filter_sublist rfl rfl
  | tail t target method value deferred c v p store caches ht hrunning hphase htarget hv hroute
      halt hdest => exact h.tail ht htarget hv hroute hdest
  | kill _ n _ _ _ hroute =>
    exact (h.shrink hroute (List.Sublist.refl _) rfl rfl).kill n
  | expel _ hstopped hdead => exact h.expel hstopped hdead
  | join _ _ hstopped hnew hne => exact h.join hstopped hnew hne
  | rebalance => exact h.rebalance
  | newLeader hstopped => exact h.newLeader hstopped
  | grow => exact h.grow
  | recover _ _ _ _ hstopped _ hplan hrecover =>
    exact h.recover hplan hrecover hstopped
  | setup _ _ hplan => exact h.setup hplan

theorem inv_reachable (hs : Reachable step ok (.init placementCache) s) : Inv s := by
  refine Reachable.invariant (inv_init placementCache) ?_ hs
  intro s l s' _ h _ hstep
  exact h.step (step_effect h hstep)

end Kar.Rpc
