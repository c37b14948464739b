import Kar.Rpc.Completed
import Kar.Rpc.Nested

/-!
# A nested call in the partition of a live node is worked on

A nested call without completion record whose latest message is in the partition of
a live node is still to be read there or has a task there.  This holds as long as its
response is not dropped while its parent is open, which is the only way its task can
end without completion record.
-/

namespace Kar.Rpc

open Kar.Lib List

/-- The response of a nested call that ends before its parent has somewhere to go. -/
def NoDrop (s : State) (l : Label) : Prop :=
  ∀ t ∈ s.tasks, l.concludes = some t.tid → s.parentOpen t.msg.requestID = true →
    ¬ s.Unanswerable t.msg

instance (s : State) (l : Label) : Decidable (NoDrop s l) :=
  inferInstanceAs (Decidable (∀ t ∈ s.tasks, _))

/-- The messages of `k` ask for a service or an actor.  Such a request ends with a
completion record. -/
def Log.ForService (log : Log) (k : String) : Prop :=
  ∀ p u, log.Holds k p u → u.target.service? ≠ none

theorem Request.silent_eq_false {u : Request} (h : u.target.service? ≠ none) : u.silent = false := by
  cases u with
  | call => rfl
  | tell => simpa [Request.silent, Option.isNone_eq_false_iff, Option.isSome_iff_ne_none,
      Request.target] using h

def Working (s : State) : Prop :=
  ∀ k n v, s.parentOpen k = true → s.history.recorded k = false → s.log.ForService k →
    s.group.alive n = true → s.group.table n ≠ 0 → s.log.Holds k (s.group.table n) v →
    s.log.Top k v → ∃ u ∈ s.active n, u.requestID = k

theorem State.parentOpen_mono {s s' : State} {k : String} (hsent : s'.history.sent k = s.history.sent k)
    (hrecorded : ∀ c, s'.history.recorded c = false → s.history.recorded c = false)
    (hk : s'.parentOpen k = true) : s.parentOpen k = true := by
  unfold State.parentOpen at hk ⊢
  rw [hsent] at hk
  split at hk
  · simp only [Bool.and_eq_true, Bool.not_eq_true'] at hk ⊢
    exact ⟨hk.1, hrecorded _ hk.2⟩
  · simp at hk

namespace Working

variable (hw : Working s)

omit hw in
theorem init (placementCache : Bool) : Working (.init placementCache) := by
  intro k n v _ _ _ halive
  simp [State.init] at halive

include hw

/-- A step that writes nothing, under which a live node keeps its partition and its
requests or has an empty partition. -/
theorem congr (h : Inv s) (hlog : s'.log = s.log) (hsent : s'.history.sent = s.history.sent)
    (hrecorded : s'.history.recorded = s.history.recorded)
    (hnode : ∀ n, s'.group.alive n = true → s'.group.table n ≠ 0 → s.log.messages (s'.group.table n)
      = [] ∨ (s'.group.table n = s.group.table n ∧ s.group.alive n = true ∧ ∀ u ∈ s.active n,
      s.parentOpen u.requestID = true → u.silent = false → u ∈ s'.active n)) : Working s' := by
  intro k n v hparent hopen hservice halive hp hv htop
  have hparent : s.parentOpen k = true :=
    State.parentOpen_mono (by rw [hsent]) (by simp [hrecorded]) hparent
  rw [hlog] at hservice hv htop
  rw [hrecorded] at hopen
  rcases hnode n halive hp with hempty | ⟨htable, halive, hactive⟩
  · have hv := hv.1
    rw [hempty] at hv
    simp at hv
  · rw [htable] at hp hv
    obtain ⟨u, hu, hid⟩ := hw k n v hparent hopen hservice halive hp hv htop
    have hholds : s.log.Holds k (s.group.table n) u := hid ▸ (h.holds_of_active hu).2
    exact ⟨u, hactive u hu (hid ▸ hparent) (Request.silent_eq_false (hservice _ u hholds)), hid⟩

theorem regroup (h : Inv s)
    (hnode : ∀ n, g.alive n = true → g.table n ≠ 0 → s.log.messages (g.table n) = [] ∨
      (g.table n = s.group.table n ∧ s.group.alive n = true)) :
    Working { s with group := g, caches := caches } := by
  refine hw.congr h rfl rfl rfl fun n halive hp => ?_
  rcases hnode n halive hp with hempty | ⟨htable, halive'⟩
  · exact .inl hempty
  · refine .inr ⟨htable, halive', fun u hu _ _ => ?_⟩
    rw [State.mem_active] at hu ⊢
    rw [State.pending_regroup htable]
    exact ⟨halive, hu.2⟩

/-- A message is written while the tasks of one id end. -/
theorem write (h : Inv s) {p : Nat} {m : Message} (hgroup : s'.group = s.group)
    (hhead : s'.head = s.head) (hlog : s'.log = s.log.append p m)
    (hsent : ∀ k, s'.history.sent k = s.history.sent k ∨ ∃ v, m = .request v ∧ v.requestID = k)
    (hrecorded : ∀ k, s'.history.recorded k = false → s.history.recorded k = false)
    (htasks : ∀ t ∈ s.tasks, (∃ v, m = .request v ∧ v.requestID = t.msg.requestID) ∨
      s'.history.recorded t.msg.requestID = true ∨ t ∈ s'.tasks)
    (hlater : ∀ v, m = .request v → ∀ q u, s.log.Holds v.requestID q u → u.sequence < v.sequence) :
    Working s' := by
  intro k n v hparent hopen hservice halive hp hv htop
  rw [hgroup] at halive hp hv
  rw [hlog] at hservice hv htop
  by_cases hm : ∃ v', m = .request v' ∧ v'.requestID = k
  · -- The message is the latest one of its id, so it is the one in the partition.
    obtain ⟨v', rfl, rfl⟩ := hm
    have hnew : v = v' ∧ s.group.table n = p := by
      rcases holds_append.mp hv with hold | ⟨hq, hm, -⟩
      · have hlt := hlater v' rfl _ v hold
        have hle := htop p v' (holds_append.mpr (.inr ⟨rfl, rfl, rfl⟩))
        omega
      · exact ⟨(Message.request.inj hm).symm, hq⟩
    refine ⟨v', State.mem_active.mpr ⟨hgroup ▸ halive, .inl ?_⟩, rfl⟩
    rw [pending_write h hgroup hhead hlog, if_pos ⟨hnew.2, hnew.2 ▸ hp⟩]
    exact mem_append_right _ (mem_singleton_self _)
  · have hne : ∀ u, m = .request u → u.requestID ≠ k := fun u hu hid => hm ⟨u, hu, hid⟩
    have hservice' : s.log.ForService k :=
      fun q u hu => hservice q u ((holds_append_of_ne hne).mpr hu)
    have hparent := State.parentOpen_mono ((hsent k).resolve_right hm) hrecorded hparent
    obtain ⟨u, hu, hid⟩ := hw k n v hparent (hrecorded k hopen) hservice' halive hp
      ((holds_append_of_ne hne).mp hv) fun q u hu => htop q u ((holds_append_of_ne hne).mpr hu)
    refine ⟨u, ?_, hid⟩
    rw [State.mem_active] at hu ⊢
    refine ⟨hgroup ▸ halive, hu.2.imp ?_ ?_⟩
    · intro hpending
      rw [pending_write h hgroup hhead hlog]
      exact mem_append_left _ hpending
    rintro ⟨t, ht, hnode, rfl⟩
    rcases htasks t ht with hreq | hrec | hkept
    · exact absurd (hid ▸ hreq) hm
    · rw [hid, hopen] at hrec
      simp at hrec
    · exact ⟨t, hkept, hnode, rfl⟩

/-- A recovery that completes. -/
theorem recover (h : Inv s) {cs : Nat → Chance} {w : World}
    (hplan : s.group.PlanOk s.log assign) (hrecover : Kar.Rpc.recover (s.group.tables
      s.placementCache leader (s.group.planTable assign)) (s.group.live s.group.table) (.ofPlan
      s.group.size s.log) cs (.start s.log s.store) = (.ok (), w)) : Working (s.recovered assign w)
      := by
  have hrec := recover_plan h hplan hrecover
  have hatt := attached_plan hplan leader
  intro k n v hparent hopen' hservice halive hp hv htop
  have hopen := open_of_recovered hopen'
  have hnot' : ¬ w.log.Answered k := fun hans => by
    have hrecorded := answered_recovered h hplan hrecover hans
    simp [hopen'] at hrecorded
  rcases (holds_recover h.covers hatt hrec).mp hv with ⟨hold, -⟩ | ⟨hsent, hid⟩
  · rcases hplan.old_or_empty hp with hsame | ⟨-, hempty⟩
    · have hp' : s.group.table n ≠ 0 := hsame ▸ hp
      have hlive := hsame ▸ State.mem_planLive hp
      have hold' : s.log.Holds k (s.group.table n) v := hsame ▸ hold
      have htop' := top_recover h.covers hatt hrec (h.not_answered hopen) (h.opened k hopen).chain
        hnot' hold' hlive htop
      have hservice' : s.log.ForService k := by
        intro q u hu hnone
        exact hservice _ v hv ((h.opened k hopen).chain.node q u _ v hu hnone hold').2
      obtain ⟨u, hu, hid⟩ := hw k n v (State.parentOpen_mono (by rfl) (fun _ => open_of_recovered) hparent) hopen hservice'
        halive hp' hold' htop'
      exact ⟨u, (mem_active_recovered h hplan hrecover).mpr (.inl hu), hid⟩
    · have hmem := hold.1
      have hempty' : s.log.messages ((s.recovered assign w).group.table n) = [] := hempty
      rw [hempty'] at hmem
      simp at hmem
  · exact ⟨v, (mem_active_recovered h hplan hrecover).mpr (.inr ⟨halive, hsent⟩), hid⟩

theorem step (h : Inv s) (hsettled : Settled s) (hl : NoDrop s l)
    (heffect : Effect s l s') : Working s' := by
  cases heffect with
  | request n v _ _ _ _ _ _ hnew =>
    refine hw.write h (m := .request (v.wire n)) rfl rfl rfl ?_ (fun _ hk => hk)
      (fun t ht => .inr (.inr ht)) ?_
    · intro k
      by_cases hk : k = v.requestID
      · exact .inr ⟨_, rfl, by rw [Request.requestID_wire, hk]⟩
      · exact .inl (by simp [State.recordSend, hk])
    · intro u hu q u' hu'
      rw [← Message.request.inj hu, Request.requestID_wire] at hu'
      exact absurd hnew.1 (h.history.sent _ q u' hu')
  | tail t target method value deferred c v p store caches ht hrunning hphase htarget hv hroute
      halt hdest =>
    subst hv
    refine hw.write h (m := .request (Request.wire t.node _)) rfl rfl rfl (fun _ => .inl rfl)
      (fun _ hk => hk) ?_ ?_
    · intro t' ht'
      by_cases heq : t'.tid = t.tid
      · obtain rfl := inj_on_of_nodup_map h.tasks.nodup ht' ht heq
        exact .inl ⟨_, rfl, by simp⟩
      · exact .inr (.inr (mem_filter.mpr ⟨ht', by simpa using heq⟩))
    · intro u hu q u' hu'
      rw [← Message.request.inj hu] at hu' ⊢
      simp only [Request.requestID_wire, State.requestID_continuation] at hu'
      simp only [Request.sequence_wire, State.sequence_continuation]
      have hopen := hsettled.open_of_active (h.task_active ht)
      have hle := (((h.opened _ hopen).top t.node t.msg (h.task_active ht) rfl).2.2 q u' hu').1
      omega
  | record _ t _ _ _ _ _ ht _ _ _ hm =>
    refine hw.write h rfl rfl rfl (fun _ => .inl rfl) ?_ ?_ ?_
    · intro k hk
      simp only [Function.update_apply] at hk
      split at hk
      · simp at hk
      exact hk
    · intro t' ht'
      by_cases heq : t'.tid = t.tid
      · obtain rfl := inj_on_of_nodup_map h.tasks.nodup ht' ht heq
        exact .inr (.inl (by simp))
      · exact .inr (.inr (mem_filter.mpr ⟨ht', by simpa using heq⟩))
    · exact fun v hv => absurd hv (hm.not_request h t.node v)
  | recover _ _ _ _ _ _ hplan hrecover => exact hw.recover h hplan hrecover
  | drop _ _ _ _ _ ht hl' _ _ _ hwhy =>
    refine hw.congr h rfl rfl rfl fun n halive hp =>
      .inr ⟨rfl, halive, fun u hu hparent hspoken => ?_⟩
    rw [State.mem_active] at hu ⊢
    refine ⟨halive, hu.2.imp_right ?_⟩
    rintro ⟨t', ht', hnode, rfl⟩
    refine ⟨t', mem_filter.mpr ⟨ht', ?_⟩, hnode, rfl⟩
    by_contra heq
    obtain rfl := inj_on_of_nodup_map h.tasks.nodup ht' ht (by simpa using heq)
    have hsilent := hwhy.resolve_right (hl t' ht hl' hparent)
    simp [hsilent] at hspoken
  | consume n m _ _ _ hpending =>
    obtain ⟨hlog, hgroup, -, -, hhistory⟩ := acceptMessage_frame (s.advance n) n m
    refine hw.congr h hlog (hhistory ▸ rfl) (hhistory ▸ rfl) fun n' halive' hp => ?_
    rw [hgroup] at halive' ⊢
    exact .inr ⟨rfl, halive', fun u hu _ _ => active_consume_of_mem hpending hu⟩
  | start =>
    exact hw.congr h rfl rfl rfl fun n halive hp =>
      .inr ⟨rfl, halive, fun u hu _ _ => active_start_of_mem hu⟩
  | route _ n =>
    exact hw.congr h rfl rfl rfl fun n halive hp => .inr ⟨rfl, halive, fun u hu _ _ => hu⟩
  | kill =>
    refine hw.congr h rfl rfl rfl fun n' halive' hp => ?_
    simp only [State.kill, Group.kill, Function.update_apply] at halive'
    split at halive'
    · simp at halive'
    rename_i hne
    refine .inr ⟨rfl, halive', fun u hu _ _ => ?_⟩
    rw [State.mem_active] at hu ⊢
    refine ⟨by simpa [State.kill, Group.kill, hne] using halive', hu.2.imp_right ?_⟩
    rintro ⟨t, ht, rfl, rfl⟩
    exact ⟨t, mem_filter.mpr ⟨ht, by simpa using hne⟩, rfl, rfl⟩
  | expel n _ hdead =>
    refine hw.regroup h fun n' halive hp => .inr ⟨?_, halive⟩
    have hne : n' ≠ n := by
      rintro rfl
      simp [Group.expel, hdead] at halive
    simp [Group.expel, hne]
  | join n _ _ hnew =>
    refine hw.regroup h fun n' halive hp => .inr ⟨rfl, ?_⟩
    have hne' : n' ≠ n := by
      rintro rfl
      exact hp (h.group.table_of_unknown hnew)
    simpa [Group.join, hne'] using halive
  | rebalance => exact hw.regroup h fun n' halive hp => .inr ⟨rfl, halive⟩
  | newLeader =>
    exact hw.regroup h fun n' halive hp => .inr ⟨(h.group.attached n' hp).symm, halive⟩
  | grow => exact hw.regroup h fun n' halive hp => .inr ⟨rfl, halive⟩
  | setup _ _ hplan =>
    refine hw.regroup h fun n' halive hp => ?_
    rcases hplan.old_or_empty hp with hold | ⟨-, hempty⟩
    · exact .inr ⟨hold, halive⟩
    · exact .inl hempty

end Working

theorem working_reachable (hok : ∀ s l, ok s l → WithinSentinel s l ∧ NoDrop s l)
    (hs : Reachable step ok (.init placementCache) s) : Working s := by
  refine Reachable.invariant (.init placementCache) ?_ hs
  intro s l s' hs hw hl hstep
  have h := inv_reachable hs
  exact hw.step h (settled_reachable (fun s l hl => (hok s l hl).1) hs) (hok s l hl).2
    (step_effect h hstep)

/-! ## The partitions of the members -/

/-- While the group is running, the messages are in partition `0` and in the partitions
of members. -/
def Tidy (s : State) : Prop :=
  s.group.running = true → ∀ p, p ≠ 0 → s.log.messages p ≠ [] → ∃ n, s.group.table n = p

theorem Tidy.write (hs : Tidy s) (hgroup : s'.group = s.group)
    (hlog : s'.log = s.log.append p m) (hp : p = 0 ∨ ∃ n, s.group.table n = p) : Tidy s' := by
  intro hrunning q hq hmessages
  rw [hgroup] at hrunning ⊢
  obtain ⟨m', hm'⟩ := exists_mem_of_ne_nil _ hmessages
  rw [hlog] at hm'
  rcases mem_messages_append.mp hm' with hold | ⟨rfl, -⟩
  · exact hs hrunning q hq (ne_nil_of_mem hold)
  · exact hp.resolve_left hq

theorem Tidy.step (hs : Tidy s) (h : Inv s) (heffect : Effect s l s') :
    Tidy s' := by
  cases heffect with
  | request _ _ _ _ _ _ _ _ _ _ _ hdest =>
    exact hs.write rfl rfl hdest.zero_or_table
  | tail t target method value deferred c v p store caches ht hrunning hphase htarget hv hroute
      halt hdest => exact hs.write rfl rfl hdest.zero_or_table
  | record _ _ _ _ _ _ _ _ _ _ _ hm =>
    exact hs.write rfl rfl hm.zero_or_table
  | consume n m =>
    obtain ⟨hlog, hgroup, -⟩ := acceptMessage_frame (s.advance n) n m
    unfold Tidy
    rw [hlog, hgroup]
    exact hs
  | setup _ _ _ hclean =>
    intro _ p hp hmessages
    have hsize : p < s.group.size := by
      by_contra hge
      exact hmessages (h.reads.empty p (Nat.le_of_not_lt hge))
    have hlive := hclean p (mem_range.mpr hsize) hp hmessages
    obtain ⟨-, n, -, htable⟩ := Group.mem_live.mp hlive
    exact ⟨n, (Group.planTable_of_table h.group (htable ▸ hp)).trans htable⟩
  | rebalance => exact fun hrun => absurd hrun (by simp)
  | expel _ hstopped => exact fun hrun => absurd hrun (by simp [Group.expel, hstopped])
  | join _ _ hstopped => exact fun hrun => absurd hrun (by simp [Group.join, hstopped])
  | newLeader hstopped => exact fun hrun => absurd hrun (by simp [hstopped])
  | recover _ _ _ _ hstopped =>
    exact fun hrun => absurd hrun (by simp [State.recovered, hstopped])
  | start => exact hs
  | route => exact hs
  | drop => exact hs
  | kill => exact hs
  | grow => exact hs

theorem tidy_reachable (hs : Reachable step ok (.init placementCache) s) : Tidy s := by
  refine Reachable.invariant ?_ ?_ hs
  · intro hrunning
    simp [State.init] at hrunning
  · intro s l s' hs htidy _ hstep
    have h := inv_reachable hs
    exact htidy.step h (step_effect h hstep)

end Kar.Rpc
