import Kar.Rpc.Callers
import Kar.Rpc.NoLoss
import Kar.Rpc.Retry
import Kar.Rpc.Working

/-!
# A blocked parent is woken

A request that is sent again with a child waits for the response of that child.  The
response goes to the caller of the child when the caller has a partition, and else to
the node that the key `alt` of the child leads to.  `OpenChild` says that the second
route is set up: the callers are gone, and the key leads to the node of the parent.
As long as the child has no completion record `OpenChild` holds, and its completion
record is then a response in the partition of the parent.
-/

namespace Kar.Rpc

open Kar.Lib List Function

/-- Whether the event is a recovery. -/
def Label.recovers : Label → Bool
  | .recover _ _ _ => true
  | _ => false

/-- The child of a request that is sent again was called by a node that left the
group. -/
def CallersGone (s : State) (l : Label) : Prop :=
  l.recovers = true → ∀ k ∈ s.resent, ∀ pu ∈ requestsOf s.reads (childOf s.reads k),
    pu.2.caller?.getD "" ∉ s.group.members

instance (s : State) (l : Label) : Decidable (CallersGone s l) :=
  inferInstanceAs (Decidable (_ → ∀ k ∈ s.resent, _))

/-- The child `c` is open, and its response will go to node `n`. -/
structure OpenChild (s : State) (n c : String) : Prop where
  waits : s.Waits c
  alt : s.store.get? (alt c) = some n
  callers : ∀ p u, s.log.Holds c p u → ∃ a, u.caller? = some a ∧ s.group.Gone a

/-- A response for `c` is among `ms`, or will be sent to node `n`. -/
def State.Awaits (s : State) (n c : String) (ms : List Message) : Prop :=
  (∃ x, Message.response x ∈ ms ∧ x.requestID = c) ∨ OpenChild s n c

structure WakeOk (s : State) : Prop where
  /-- A request waits for one of its nested calls. -/
  children : ∀ n v, v ∈ s.active n → v.childID ≠ "" →
    v.requestID ≠ "" ∧ v.childID ∈ s.history.nested v.requestID
  /-- The response comes after the request. -/
  queued : ∀ n v xs ys, s.group.alive n = true → s.pending n = xs ++ .request v :: ys →
    v.childID ≠ "" → s.Awaits n v.childID ys
  tasks : ∀ t ∈ s.tasks, t.phase = .waiting → t.msg.childID ≠ "" ∧
    (s.requests t.node).get? t.msg.childID = some (.parent t.tid) ∧
    s.Awaits t.node t.msg.childID (s.pending t.node)

/-- The response of `c` keeps its way while `c` is open. -/
theorem OpenChild.step (hopen : OpenChild s n c) (h : Inv s)
    (hcallers : CallersOk s) (heffect : Effect s l s') (hrecorded : s'.history.recorded c = false)
    (halt : s'.store.get? (Kar.Rpc.alt c) = s.store.get? (Kar.Rpc.alt c)) : OpenChild s' n c := by
  obtain ⟨-, v, hsent, hservice⟩ := hopen.waits
  have hne : s.history.sent c ≠ none := by simp [hsent]
  refine ⟨⟨hrecorded, v, by rw [heffect.sent hne, hsent], hservice⟩, by rw [halt, hopen.alt], ?_⟩
  intro p u hu
  obtain ⟨q, u₀, hu₀, hcaller⟩ := hcallers.caller h heffect hne hu
  obtain ⟨a, ha, hgone⟩ := hopen.callers q u₀ hu₀
  exact ⟨a, hcaller.trans ha, heffect.gone hgone⟩

variable {c n : String} {s : State}

theorem State.Awaits.imp {s' : State} {ms ms' : List Message}
    (h : s.Awaits n c ms) (hms : ∀ m ∈ ms, m ∈ ms') (hopen : OpenChild s n c → s'.Awaits n c ms') :
    s'.Awaits n c ms' := by
  rcases h with ⟨x, hx, hid⟩ | h
  · exact .inl ⟨x, hms _ hx, hid⟩
  · exact hopen h

/-! ## Reading a message -/

section Accept

variable {s : State} {n : String}

theorem acceptMessage_requests_of_ne (hne : n' ≠ n) :
    ((s.advance n).acceptMessage n m).requests n' = s.requests n' := by
  cases m with
  | done => rfl
  | request =>
    simp only [State.acceptMessage, State.acceptRequest]
    split
    · rfl
    · exact update_of_ne hne _ _
  | response =>
    simp only [State.acceptMessage, State.acceptResponse]
    split
    · rfl
    all_goals exact update_of_ne hne _ _

/-- A task that still waits after a message was read is still registered, and the
message is not its response. -/
theorem acceptMessage_waiter (ht : t ∈ ((s.advance n).acceptMessage n m).tasks)
    (hphase : t.phase = .waiting) (hwaiter : (s.requests n).get? c = some (.parent t.tid))
    (hnot : ∀ v, m = .request v → v.childID ≠ c) :
    (((s.advance n).acceptMessage n m).requests n).get? c = some (.parent t.tid) ∧
      ∀ x, m = .response x → x.requestID ≠ c := by
  cases m with
  | done => exact ⟨hwaiter, by simp⟩
  | request v =>
    refine ⟨?_, by simp⟩
    simp only [State.acceptMessage, State.acceptRequest]
    split
    · exact hwaiter
    · rw [update_self, GoMap.get?_set_of_ne _ (Ne.symm (hnot v rfl))]
      exact hwaiter
  | response x =>
    by_cases hid : x.requestID = c
    · -- The task is woken.
      simp only [State.acceptMessage, State.acceptResponse] at ht
      rw [show ((s.advance n).requests n).get? x.requestID = some (.parent t.tid) from
        hid ▸ hwaiter] at ht
      obtain ⟨t₀, -, heq⟩ := mem_map.mp ht
      split at heq
      · rw [← heq] at hphase
        simp at hphase
      · rename_i hne
        rw [heq] at hne
        exact absurd ⟨rfl, hphase⟩ hne
    · refine ⟨?_, fun y hy => (Message.response.inj hy) ▸ hid⟩
      simp only [State.acceptMessage, State.acceptResponse]
      split
      · exact hwaiter
      all_goals
        simp only [update_self]
        rw [GoMap.get?_delete, if_neg (Ne.symm hid)]
        exact hwaiter

end Accept

/-! ## Recovering -/

/-- The child of a request that is sent again is an open nested call of the request. -/
theorem childOf_spec (h : Inv s) (hsettled : Settled s) (hn : NestedOk s)
    (hk : k ∈ resentIds (s.planLive assign) s.reads) (hc : childOf s.reads k ≠ "") :
    k ≠ "" ∧ childOf s.reads k ∈ s.history.nested k ∧ s.Waits (childOf s.reads k) := by
  have hk0 : k ≠ "" := hn.ne_noname (sent_of_resent h hk)
  unfold childOf at hc ⊢
  cases hlast : (openCalls s.reads k).getLast? with
  | none => simp [hlast] at hc
  | some =>
    obtain ⟨hmem, hopen⟩ := mem_filter.mp (mem_of_getLast? hlast)
    obtain ⟨⟨p, m⟩, hread, hnested⟩ := mem_filterMap.mp hmem
    obtain ⟨v, rfl, hparent, rfl⟩ := nestedOf_eq_some.mp hnested
    have hv := (mem_reads h.covers).mp hread
    have hc := hn.parents p v k hv hparent hk0
    obtain ⟨v₀, hsent, -, hservice⟩ := hn.sent k _ hk0 hc
    refine ⟨hk0, hc, ?_, _, hsent, hservice⟩
    -- A completion record would still be in the log.
    rw [Bool.eq_false_iff]
    intro hrec
    have hans := (answered_reads h.covers).mpr (hsettled.record _ hrec p v ⟨hv, rfl⟩)
    simp only [decide_not, Bool.not_eq_true', decide_eq_false_iff_not] at hopen
    exact hopen hans

section Recovered

variable {s : State} (h : Inv s)
   (hplan : s.group.PlanOk s.log assign)
  (hrecover : recover
    (s.group.tables s.placementCache leader (s.group.planTable assign))
    (s.group.live s.group.table) (.ofPlan s.group.size s.log) cs (.start s.log s.store) = (.ok (), w))

include h hplan hrecover

theorem State.Waits.recovered (hkept : s.Kept) (hc : s.Waits c) :
    (s.recovered assign w).Waits c := by
  refine ⟨?_, hc.2⟩
  rw [Bool.eq_false_iff]
  intro hrec
  obtain ⟨-, qw, hlatest, hnone⟩ := node_of_recorded h hplan hrecover hc.1 hrec
  have hread := (mem_requestsOf_reads h.covers).mp (latestRead_mem hlatest)
  exact (hkept c hc).2 _ _ hread hnone

/-- The response of a child finds the request that waits for it. -/
theorem openChild_recovered (hsettled : Settled s) (hn : NestedOk s) (hcallers : CallersOk s)
    (hkept : s.Kept) (hgone : CallersGone s (.recover leader assign cs))
    (heffect : Effect s (.recover leader assign cs) (s.recovered assign w))
    (hv : (s.group.planTable assign n, .request v) ∈ w.sent)
    (hp : s.group.planTable assign n ≠ 0) (hchild : v.childID ≠ "") :
    OpenChild (s.recovered assign w) n v.childID := by
  have hrec := recover_plan h hplan hrecover
  have hnew := ((recover_written hrec).2.1 _ _ hv).restarted
  have hof : v.childID = childOf s.reads v.requestID := hnew.child
  obtain ⟨hk, hmem, hwaits⟩ := childOf_spec h hsettled hn hnew.resent (hof ▸ hchild)
  rw [← hof] at hmem hwaits
  refine ⟨hwaits.recovered h hplan hrecover hkept, ?_, ?_⟩
  · -- No other request has this child, and no other node this partition.
    have hone : ∀ k ∈ resentIds (s.planLive assign) s.reads,
        childOf s.reads k = v.childID → k = v.requestID := by
      intro k hk' hsame
      obtain ⟨hk0, hmem', -⟩ := childOf_spec h hsettled hn hk' (hsame ▸ hchild)
      exact hn.unique hk0 hk (hsame ▸ hmem') hmem
    have hnil : s.group.planTable assign "" = 0 := by
      unfold Group.planTable
      rw [if_neg h.group.noname]
    obtain ⟨node, halt, htable⟩ := (recover_alt hnil hchild h.covers h.places.valid hrec).2
      (fun k hk k' hk' hc hc' => (hone k hk hc).trans (hone k' hk' hc').symm) _ v hv rfl hp
    have hnode := Group.member_of_planTable (htable ▸ hp)
    rw [inj_on_of_nodup_map hplan.nodup hnode (Group.member_of_planTable hp) htable] at halt
    exact halt
  · intro p u hu
    obtain ⟨v₀, hsent, -⟩ := hn.sent _ _ hk hmem
    obtain ⟨q, u₀, hu₀, hcaller⟩ := hcallers.caller h heffect (by simp [hsent]) hu
    obtain ⟨v₁, hsent', hcase⟩ := hcallers q u₀ hu₀.1
    rw [hu₀.2, hsent, Option.some.injEq] at hsent'
    obtain ⟨-, a, ha, -, hknown⟩ := hcase.resolve_left (by simp [← hsent', Request.caller?])
    refine ⟨a, hcaller.trans ha, hknown, ?_⟩
    have hresent : v.requestID ∈ s.resent := by
      rw [resent_eq h hplan]
      exact hnew.resent
    have hleft := hgone rfl _ hresent (q, u₀) ((mem_requestsOf_reads h.covers).mpr (hof ▸ hu₀))
    show a ∉ s.group.members
    simpa [ha] using hleft

end Recovered

namespace WakeOk

variable {s s' : State} (hw : WakeOk s)

omit hw in
theorem init (placementCache : Bool) : WakeOk (.init placementCache) := by
  constructor <;> simp [State.init, State.active]

include hw

/-- Two requests that wait for one child are the same request. -/
theorem one_parent (hn : NestedOk s) (hv : v ∈ s.active n)
    (hv' : v' ∈ s.active n') (hchild : v.childID ≠ "") (hsame : v.childID = v'.childID) :
    v.requestID = v'.requestID := by
  obtain ⟨hne, hmem⟩ := hw.children n v hv hchild
  obtain ⟨hne', hmem'⟩ := hw.children n' v' hv' (hsame ▸ hchild)
  exact hn.unique hne hne' hmem (hsame ▸ hmem')

variable {l : Label}

/-- A step that writes nothing. -/
theorem quiet (h : Inv s) (hcallers : CallersOk s) (heffect : Effect s l s')
    (hq : Quiet s s') (halt : ∀ id, s'.store.get? (alt id) = s.store.get? (alt id)) :
    WakeOk s' := by
  have hawaits : ∀ n c ms, s.Awaits n c ms → s'.Awaits n c ms := by
    intro n c ms hms
    refine hms.imp (fun _ hm => hm) fun hopen => .inr ?_
    refine hopen.step h hcallers heffect ?_ (halt c)
    rw [hq.recorded]
    exact hopen.waits.1
  refine ⟨?_, ?_, ?_⟩
  · rw [hq.nested]
    exact fun n v hv => hw.children n v (hq.mem_active h hv)
  · intro n v xs ys halive hpending hchild
    rcases hq.pending n halive with hnone | ⟨halive, hsame⟩
    · rw [hnone] at hpending
      simp at hpending
    · exact hawaits _ _ _ (hw.queued n v xs ys halive (hsame ▸ hpending) hchild)
  · intro t ht hphase
    obtain ⟨hchild, hwaiter, hms⟩ := hw.tasks t (hq.tasks.subset ht) hphase
    obtain ⟨hpending, hrequests⟩ := hq.node t ht
    rw [hpending, hrequests]
    exact ⟨hchild, hwaiter, hawaits _ _ _ hms⟩

/-- A message is written, and tasks end. -/
theorem write (h : Inv s) {p : Nat} (hgroup : s'.group = s.group) (hhead : s'.head = s.head)
    (hlog : s'.log = s.log.append p m) (htasks : s'.tasks.Sublist s.tasks)
    (hnested : ∀ k c, c ∈ s.history.nested k → c ∈ s'.history.nested k)
    (hrequests : ∀ t ∈ s'.tasks, ∀ c, c ∈ s.history.nested t.msg.requestID → ∀ x,
      (s.requests t.node).get? c = some x → (s'.requests t.node).get? c = some x)
    (hnew : ∀ v, m = .request v → v.childID = "")
    (hopen : ∀ n c, s.group.table n ≠ 0 → OpenChild s n c → OpenChild s' n c ∨
      (p = s.group.table n ∧ ∃ x, m = .response x ∧ x.requestID = c)) : WakeOk s' := by
  have hpending := pending_write h hgroup hhead hlog
  -- What was to come for a node with a partition is still to come or has just come.
  have hawaits : ∀ n c ms, s.group.table n ≠ 0 → s.Awaits n c ms →
      s'.Awaits n c (ms ++ if s.group.table n = p ∧ p ≠ 0 then [m] else []) := by
    intro n c ms hp hms
    refine hms.imp (fun _ hm => mem_append_left _ hm) fun hchild => ?_
    rcases hopen n c hp hchild with hchild | ⟨rfl, x, rfl, hid⟩
    · exact .inr hchild
    · refine .inl ⟨x, mem_append_right _ ?_, hid⟩
      rw [if_pos ⟨rfl, hp⟩]
      exact mem_singleton_self _
  refine ⟨?_, ?_, ?_⟩
  · intro n v hv hchild
    rcases mem_active_write h hgroup hhead hlog hv with hold | ⟨hm, -⟩
    · have hv : v ∈ s.active n := by
        rw [State.mem_active] at hold ⊢
        exact ⟨hold.1, hold.2.imp_right fun ⟨t, ht, heq⟩ => ⟨t, htasks.subset ht, heq⟩⟩
      obtain ⟨hne, hmem⟩ := hw.children n v hv hchild
      exact ⟨hne, hnested _ _ hmem⟩
    · exact absurd (hnew v hm) hchild
  · intro n v xs ys halive hsplit hchild
    rw [hpending] at hsplit
    rcases append_eq_append_cons hsplit with ⟨zs, hold, rfl⟩ | hmem
    · refine hawaits n _ zs ?_ (hw.queued n v xs zs (hgroup ▸ halive) hold hchild)
      refine (State.mem_of_mem_pending (m := .request v) ?_).1
      rw [hold]
      exact mem_append_right _ mem_cons_self
    · split at hmem
      · exact absurd (hnew v (mem_singleton.mp hmem).symm) hchild
      · simp at hmem
  · intro t ht hphase
    have ht' := htasks.subset ht
    obtain ⟨hchild, hwaiter, hms⟩ := hw.tasks t ht' hphase
    have hmem := (hw.children t.node t.msg (h.task_active ht') hchild).2
    rw [hpending]
    exact ⟨hchild, hrequests t ht _ hmem _ hwaiter,
      hawaits _ _ _ (h.group.table_ne_zero (h.tasks.attached t ht')) hms⟩

/-- A node reads a message. -/
theorem consume (h : Inv s) (hsettled : Settled s) (hn : NestedOk s) (hcallers : CallersOk s)
    {ms : List Message} (halive : s.group.alive n = true) (hpending : s.pending n = m :: ms)
    (heffect : Effect s l ((s.advance n).acceptMessage n m)) :
    WakeOk ((s.advance n).acceptMessage n m) := by
  obtain ⟨-, hgroup, -, hstore, hhistory⟩ := acceptMessage_frame (s.advance n) n m
  have hawaits : ∀ n' c ys, s.Awaits n' c ys → ((s.advance n).acceptMessage n m).Awaits n' c ys := by
    intro n' c ys hys
    refine hys.imp (fun _ hm => hm) fun hopen => .inr ?_
    refine hopen.step h hcallers heffect ?_ (hstore ▸ rfl)
    rw [hhistory]
    exact hopen.waits.1
  refine ⟨?_, ?_, ?_⟩
  · rw [hhistory]
    exact fun n' v hv => hw.children n' v (mem_active_consume h halive hpending hv)
  · intro n' v xs ys halive' hsplit hchild
    rw [hgroup] at halive'
    rw [pending_consume hpending] at hsplit
    split at hsplit
    · rename_i heq
      subst heq
      refine hawaits _ _ _ (hw.queued n' v (m :: xs) ys halive' ?_ hchild)
      rw [hpending, hsplit, cons_append]
    · exact hawaits _ _ _ (hw.queued n' v xs ys halive' hsplit hchild)
  · intro t ht hphase
    rw [pending_consume hpending]
    rcases mem_tasks_consume ht with ⟨t₀, ht₀, htid, hnode, hmsg, hsame⟩ | ⟨v, rfl, rfl⟩
    · -- The task was waiting before.
      rcases hsame with hsame | ⟨hready, -⟩
      case inr => simp [hphase] at hready
      obtain ⟨hchild, hwaiter, hms⟩ := hw.tasks t₀ ht₀ (hsame.symm.trans hphase)
      rw [← htid, ← hmsg, ← hnode] at hwaiter
      rw [← hmsg] at hchild hms
      rw [← hnode] at hms
      by_cases hself : t.node = n
      · have hkeep := acceptMessage_waiter ht hphase (hself ▸ hwaiter) fun v hv hid => by
          subst hv
          have hv : v ∈ s.active n := State.mem_active.mpr ⟨halive, .inl (by simp [hpending])⟩
          have ht₀' := h.task_active ht₀
          refine h.not_active_drop ht₀ (hsettled.open_of_active ht₀')
            (State.mem_active.mpr ⟨h.tasks.alive t₀ ht₀, .inl ?_⟩)
            (hw.one_parent hn hv ht₀' (hid ▸ hchild) (hid.trans (by rw [hmsg])))
          show .request v ∈ s.pending t₀.node
          rw [← hnode, hself, hpending]
          exact mem_cons_self
        rw [if_pos hself, hself]
        refine ⟨hchild, hkeep.1, ?_⟩
        rw [hself, hpending] at hms
        rcases hms with ⟨x, hx, hid⟩ | hopen
        · rcases mem_cons.mp hx with rfl | hx
          · exact absurd hid (hkeep.2 x rfl)
          · exact .inl ⟨x, hx, hid⟩
        · exact hawaits _ _ _ (.inr hopen)
      · rw [if_neg hself]
        refine ⟨hchild, ?_, hawaits _ _ _ hms⟩
        rw [acceptMessage_requests_of_ne hself]
        exact hwaiter
    · -- The request is blocked, and the response comes after it.
      have hchild : v.childID ≠ "" := by
        rintro hempty
        simp [hempty] at hphase
      refine ⟨hchild, ?_, ?_⟩
      · simp only [State.acceptMessage, State.acceptRequest, if_neg hchild, update_self]
        exact GoMap.get?_set_self _ _ _
      · rw [if_pos rfl]
        exact hawaits _ _ _ (hw.queued n v [] ms halive hpending hchild)

/-- A task enters its handler. -/
theorem start (h : Inv s) (hcallers : CallersOk s) {t : Task} (ht : t ∈ s.tasks)
    (hphase : t.phase = .ready) : WakeOk { s with
      tasks := s.tasks.map (fun t' =>
        if t'.tid = t.tid then { t' with phase := .running } else t') } := by
  have hawaits : ∀ n c ms, s.Awaits n c ms → State.Awaits { s with
      tasks := s.tasks.map (fun t' =>
        if t'.tid = t.tid then { t' with phase := .running } else t') } n c ms := by
    intro n c ms hms
    refine hms.imp (fun _ hm => hm) fun hopen => .inr ?_
    exact hopen.step h hcallers (.start t ht hphase) hopen.waits.1 rfl
  refine ⟨?_, ?_, ?_⟩
  · exact fun n v hv => hw.children n v (mem_active_start h ht hv)
  · exact fun n v xs ys halive hsplit hchild =>
      hawaits _ _ _ (hw.queued n v xs ys halive hsplit hchild)
  intro t' ht' hphase'
  rcases mem_tasks_start h ht ht' with hold | rfl
  · obtain ⟨hchild, hwaiter, hms⟩ := hw.tasks t' hold hphase'
    exact ⟨hchild, hwaiter, hawaits _ _ _ hms⟩
  · simp at hphase'

/-- A new request is written. -/
theorem request (h : Inv s) (hn : NestedOk s) (hcallers : CallersOk s) (hnew : s.NewRequest n v)
    (halt : ∀ id, store.get? (alt id) = s.store.get? (alt id)) (heffect : Effect s l (State.recordSend
      { s with
        log := s.log.append p (.request (v.wire n))
        store := store
        caches := caches } n v)) :
    WakeOk (State.recordSend
      { s with
        log := s.log.append p (.request (v.wire n))
        store := store
        caches := caches } n v) := by
  refine hw.write h (m := .request (v.wire n)) rfl rfl rfl (List.Sublist.refl _) ?_ ?_ ?_
    fun n' c _ hopen => .inl (hopen.step h hcallers heffect hopen.waits.1 (halt c))
  · intro k c hc
    cases v with
    | tell => exact hc
    | call =>
      simp only [State.recordSend, update_apply]
      split
      · rename_i heq
        exact mem_append_left _ (heq ▸ hc)
      · exact hc
  · -- The id is fresh, so it is not the one of a nested call.
    intro t ht c hc x hx
    have hholds := (h.holds_of_active (h.task_active ht)).2
    have hne : c ≠ v.requestID := by
      rintro rfl
      exact hn.sent_ne_none (hn.ne_noname (h.history.sent _ _ _ hholds)) hc hnew.1
    cases v with
    | tell => exact hx
    | call v =>
      simp only [State.recordSend, update_apply]
      split
      · rename_i heq
        rw [GoMap.get?_set_of_ne _ (show c ≠ v.requestID from hne)]
        exact heq ▸ hx
      · exact hx
  · intro u hu
    rw [← Message.request.inj hu, Request.childID_wire]
    exact hnew.2.2.2.1

/-- A completion record is written.  The response of a child goes to its parent. -/
theorem record (h : Inv s) (hcallers : CallersOk s) (ht : t ∈ s.tasks) (hm : Answers s t.msg m p store)
    (heffect : Effect s l { s with
      log := s.log.append p (m.wire t.node)
      store := store
      caches := caches
      tasks := s.tasks.filter (fun t' => decide (t'.tid ≠ t.tid))
      history := { s.history with
        recorded := update s.history.recorded t.msg.requestID true
        done := done } }) : WakeOk { s with
      log := s.log.append p (m.wire t.node)
      store := store
      caches := caches
      tasks := s.tasks.filter (fun t' => decide (t'.tid ≠ t.tid))
      history := { s.history with
        recorded := update s.history.recorded t.msg.requestID true
        done := done } } := by
  refine hw.write h rfl rfl rfl filter_sublist (fun _ _ hc => hc) (fun _ _ _ _ _ hx => hx)
    (fun v hv => absurd hv (hm.not_request h t.node v)) ?_
  intro n c hp hopen
  by_cases hid : c = t.msg.requestID
  · obtain ⟨a, ha, hgone⟩ := hopen.callers _ _ (hid ▸ (h.holds_of_active (h.task_active ht)).2)
    cases hm with
    | done _ _ hv => simp [hv, Request.caller?] at ha
    | caller _ _ hv _ hcaller =>
      simp only [hv, Request.caller?, Option.some.injEq] at ha
      exact absurd (h.group.member a (ha ▸ hcaller)) hgone.left
    | redirected m _ _ hv hx _ _ halt =>
      have hc : c = m.requestID := by rw [hid, hv]; rfl
      have hsame := hopen.alt
      rw [hc, halt, Option.some.injEq] at hsame
      exact .inr ⟨by rw [hsame], _, rfl, hx.trans hc.symm⟩
  · refine .inl (hopen.step h hcallers heffect ?_ ?_)
    · simp only [update_apply, if_neg hid]
      exact hopen.waits.1
    cases hm with
    | done => rfl
    | caller => rfl
    | redirected m _ _ hv =>
      have hne : alt c ≠ alt m.requestID := by
        intro heq
        rw [hv] at hid
        exact hid (alt_inj heq)
      rw [GoMap.get?_delete, if_neg hne]

/-- A recovery that completes. -/
theorem recover (h : Inv s) (hsettled : Settled s) (hn : NestedOk s) (hcallers : CallersOk s)
    (hkept : s.Kept) {cs : Nat → Chance} {w : World} (hplan : s.group.PlanOk s.log assign)
    (hgone : CallersGone s (.recover leader assign cs)) (hrecover : Kar.Rpc.recover (s.group.tables
      s.placementCache leader (s.group.planTable assign)) (s.group.live s.group.table) (.ofPlan
      s.group.size s.log) cs (.start s.log s.store) = (.ok (), w)) (heffect : Effect s (.recover
      leader assign cs) (s.recovered assign w)) :
    WakeOk (s.recovered assign w) := by
  have hrec := recover_plan h hplan hrecover
  have hnil : s.group.planTable assign "" = 0 := by
    unfold Group.planTable
    rw [if_neg h.group.noname]
  -- A request that a node has is not sent again, so the key of its child stays.
  have hawaits : ∀ n v ms ms', v ∈ s.active n → v.childID ≠ "" → s.Awaits n v.childID ms →
      (∀ m ∈ ms, m ∈ ms') → (s.recovered assign w).Awaits n v.childID ms' := by
    intro n v ms ms' hv hchild hms hsub
    refine hms.imp hsub fun hopen => .inr ?_
    refine hopen.step h hcallers heffect (hopen.waits.recovered h hplan hrecover hkept).1 ?_
    refine (recover_alt hnil hchild h.covers h.places.valid hrec).1 fun k hk hsame => ?_
    obtain ⟨hk0, hmem, -⟩ := childOf_spec h hsettled hn hk (hsame ▸ hchild)
    obtain ⟨hk0', hmem'⟩ := hw.children n v hv hchild
    obtain rfl := hn.unique hk0 hk0' (hsame ▸ hmem) hmem'
    exact not_resent_of_active h (hsettled.open_of_active hv) hv hk
  refine ⟨?_, ?_, ?_⟩
  · intro n v hv hchild
    rcases (mem_active_recovered h hplan hrecover).mp hv with hold | ⟨-, hsent⟩
    · exact hw.children n v hold hchild
    · have hnew := ((recover_written hrec).2.1 _ _ hsent).restarted
      have hof : v.childID = childOf s.reads v.requestID := hnew.child
      obtain ⟨hk, hmem, -⟩ := childOf_spec h hsettled hn hnew.resent (hof ▸ hchild)
      exact ⟨hk, hof ▸ hmem⟩
  · intro n v xs ys halive hsplit hchild
    have hp := (hplan.pos n (h.group.alive n halive)).1
    rw [pending_recovered h hplan hrecover hp] at hsplit
    rcases append_eq_append_cons hsplit with ⟨zs, hold, rfl⟩ | hnew
    · have hv : v ∈ s.active n := State.mem_active.mpr ⟨halive, .inl (by simp [hold])⟩
      exact hawaits n v zs _ hv hchild (hw.queued n v xs zs halive hold hchild)
        fun _ hm => mem_append_left _ hm
    obtain ⟨⟨q, m⟩, hsent, rfl⟩ := mem_map.mp hnew
    obtain ⟨hsent, hq⟩ := mem_filter.mp hsent
    simp only [decide_eq_true_eq] at hq
    subst hq
    exact .inr (openChild_recovered h hplan hrecover hsettled hn hcallers hkept hgone heffect
      hsent hp hchild)
  · intro t ht hphase
    obtain ⟨hchild, hwaiter, hms⟩ := hw.tasks t ht hphase
    have hp := (hplan.pos t.node (h.group.alive _ (h.tasks.alive t ht))).1
    rw [pending_recovered h hplan hrecover hp]
    exact ⟨hchild, hwaiter, hawaits _ _ _ _ (h.task_active ht) hchild hms
      fun _ hm => mem_append_left _ hm⟩

theorem step (h : Inv s) (hsettled : Settled s) (hn : NestedOk s)
    (hcallers : CallersOk s) (hkept : s.Kept) (hl : CallersGone s l) (heffect : Effect s l s') :
    WakeOk s' := by
  have heffect' := heffect
  cases heffect with
  | request _ _ _ _ _ _ _ _ hnew _ halt =>
    exact hw.request h hn hcallers hnew halt heffect'
  | tail t target method value deferred c v p store caches ht hrunning hphase htarget hv hroute
      halt hdest =>
    refine hw.write h (m := .request (v.wire t.node)) rfl rfl rfl filter_sublist
      (fun _ _ hc => hc) (fun _ _ _ _ _ hx => hx) ?_
      fun n c _ hopen => .inl (hopen.step h hcallers heffect' hopen.waits.1 (halt c))
    intro u hu
    rw [← Message.request.inj hu, Request.childID_wire, hv, State.childID_continuation]
  | record _ _ _ _ _ _ _ ht _ _ _ hm =>
    exact hw.record h hcallers ht hm heffect'
  | recover _ _ _ _ _ _ hplan hrecover =>
    exact hw.recover h hsettled hn hcallers hkept hplan hl hrecover heffect'
  | consume _ _ _ _ halive hpending =>
    exact hw.consume h hsettled hn hcallers halive hpending heffect'
  | start t ht hphase => exact hw.start h hcallers ht hphase
  | route _ _ store caches _ halt => exact hw.quiet h hcallers heffect' (.route store caches) halt
  | drop _ t store caches done _ _ _ _ halt =>
    exact hw.quiet h hcallers heffect' (.drop store caches done t.tid) halt
  | kill _ n store caches _ _ halt =>
    exact hw.quiet h hcallers heffect' (.kill store caches n) halt
  | expel _ _ hdead =>
    exact hw.quiet h hcallers heffect' (.expel h hdead) fun _ => rfl
  | join _ services _ hnew =>
    exact hw.quiet h hcallers heffect' (.join h services hnew) fun _ => rfl
  | rebalance => exact hw.quiet h hcallers heffect' (.rebalance h) fun _ => rfl
  | newLeader => exact hw.quiet h hcallers heffect' (.newLeader h) fun _ => rfl
  | grow => exact hw.quiet h hcallers heffect' (.grow h) fun _ => rfl
  | setup _ _ hplan =>
    exact hw.quiet h hcallers heffect' (.setup h hplan) fun _ => rfl

end WakeOk

theorem wakeOk_reachable (hok : ∀ s l, ok s l → WithinSentinel s l ∧ CallersGone s l)
    (hs : Reachable step ok (.init placementCache) s) : WakeOk s := by
  refine Reachable.invariant (.init placementCache) ?_ hs
  intro s l s' hs hw hl hstep
  have h := inv_reachable hs
  exact hw.step h (settled_reachable (fun s l hl => (hok s l hl).1) hs) (nestedOk_reachable hs)
    (callersOk_reachable hs) (kept_reachable hs) (hok s l hl).2 (step_effect h hstep)

/-! ## Blocked requests -/

/-- The request `c` is open, and it runs on a live node, is to be read by one, or waits
in partition `0`. -/
def State.Served (s : State) (c : String) : Prop :=
  ¬ s.log.Answered c ∧
    ((∃ n, ∃ v ∈ s.active n, v.requestID = c) ∨ ∃ v, s.log.Holds c 0 v ∧ s.log.Top c v)

/-- The request `c` is open, and its latest message is in the partition of no live node.
A member is dead then, or the group is about to recover. -/
def State.ToRecover (s : State) (c : String) : Prop :=
  ¬ s.log.Answered c ∧
    (∃ p v, s.log.Holds c p v ∧ s.log.Top c v ∧ ∀ n, s.group.alive n = true → s.group.table n ≠ p) ∧
    (s.group.running = false ∨ ∃ n ∈ s.group.members, s.group.alive n = false)

/-- An open nested call of an open request. -/
theorem served_or_toRecover (h : Inv s) (hkept : s.Kept) (hworking : Working s)
    (htidy : Tidy s) (hparent : s.parentOpen c = true) (hwaits : s.Waits c) :
    s.Served c ∨ s.ToRecover c := by
  have hnot := h.not_answered hwaits.1
  obtain ⟨⟨q, u, hu⟩, hservice⟩ := hkept c hwaits
  obtain ⟨⟨p, v⟩, hlatest⟩ := exists_latestRead ((mem_requestsOf_reads h.covers).mpr hu)
  have hv : s.log.Holds c p v := (mem_requestsOf_reads h.covers).mp (latestRead_mem hlatest)
  have htop : s.log.Top c v := (top_iff h.covers hv).mpr (maxSeq_eq hlatest).symm
  by_cases hp : p = 0
  · subst hp
    exact .inl ⟨hnot, .inr ⟨v, hv, htop⟩⟩
  by_cases hlive : ∃ n, s.group.alive n = true ∧ s.group.table n = p
  · obtain ⟨n, halive, rfl⟩ := hlive
    obtain ⟨w, hw, hid⟩ := hworking c n v hparent hwaits.1 hservice halive hp hv htop
    exact .inl ⟨hnot, .inl ⟨n, w, hw, hid⟩⟩
  refine .inr ⟨hnot, ⟨p, v, hv, htop, fun n halive htable => hlive ⟨n, halive, htable⟩⟩, ?_⟩
  by_contra hstable
  simp only [not_or, Bool.not_eq_false, not_exists, not_and] at hstable
  obtain ⟨n, htable⟩ := htidy hstable.1 p hp (ne_nil_of_mem hv.1)
  exact hlive ⟨n, hstable.2 n (h.group.member n (htable ▸ hp)), htable⟩

/-- The parent `P` is sent again to `n4` and waits there for the call on `n3`. -/
def blockedRun : List Label :=
  nestedRun ++ [.consume "n3", .start 1, .die "n2", .rebalance, .expel "n2", .join "n4" ["a"],
    .recover "n1" samplePlan calm, .setup samplePlan, .consume "n4"]

/-- When `n2` dies no node offers the type of `P`, so `P` goes to partition `0`.  The
nested call ends while it waits there, and then `n4` joins. -/
def waitRun : List Label :=
  nestedRun ++ [.consume "n3", .start 1, .die "n2", .rebalance, .expel "n2",
    .recover "n1" samplePlan calm, .setup samplePlan, .finish 1 [] "" (calm 0), .rebalance,
    .join "n4" ["a"], .recover "n1" samplePlan calm, .setup samplePlan, .consume "n4"]

end Kar.Rpc
