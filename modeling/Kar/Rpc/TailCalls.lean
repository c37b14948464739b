import Mathlib.Data.List.Nodup
import Kar.Rpc.FlowChecks

/-!
# Tail calls that keep the lock

A method that makes a tail call to its own actor, without `releaseLock`, does not pass the turn
on.  The turn is parked under a lock id, the continuation carries the id, and `ActiveFlow` stays
the flow of the chain.  Between two methods nobody executes, so everything rests on
`acceptSession`: a continuation has to find its lock, and everybody else has to queue.

`Chain k flow` is the invariant of one node, for an actor `k` and the flow of its chain:

* a request of the flow has a turn to pass on, queued or taken over (`turn`);
* a continuation that comes finds its lock (`kept`);
* a request that opens a chain comes when no other one of the flow is open (`free`).

It holds in all runs without recovery in which continuations come back to the node that sent
them and the flow has one chain at a time (`OneChain`).
-/

namespace Kar.Rpc

open Kar.Lib List

/-- The request is a continuation for the actor `k` that presents a lock. -/
def Request.continues (m : Request) (k : SessionKey) (flow : String) : Bool :=
  match m.target.session? with
  | some target =>
    decide (target.key = k) && decide (target.flow = flow) && decide (target.deferredLockID ≠ "")
  | none => false

variable {m : Request}

theorem Request.continues_iff :
    m.continues k flow = true ↔ ∃ target, m.target.session? = some target ∧ target.key = k ∧
      target.flow = flow ∧ target.deferredLockID ≠ "" := by
  unfold continues
  cases m.target.session? with
  | none => simp
  | some => simp [and_assoc]

/-- The request has not been answered and has made no tail call. -/
def Place.unanswered : Place → Bool
  | waiting | arrived | awaiting | resumed | acquired | running => true
  | _ => false

/-- The event is the acceptance of a request. -/
def SchedulerEvent.accepts : SchedulerEvent → Bool
  | .accept .. => true
  | _ => false

namespace Scheduler

/-- The continuation that a step from `s` to `s'` sends. -/
def tailCalled (s s' : Scheduler) : Option Request := (s'.inFlight.drop s.inFlight.length).head?

/-! ## Messages and locks under a step -/

variable {s s' : Scheduler}

section Messages

theorem arrival_inFlight (ha : Arrival s i fresh target m s') : s'.inFlight = s.inFlight := by
  cases ha <;> rfl

/-- The continuation `v` of the tail call with which `t` ends. -/
structure Sends (s : Scheduler) (e : SchedulerEvent) (t : Nat) (v : Request) : Prop where
  event : ∃ r delete activated now, e = .finish t r delete activated now ∧
    ∃ method, r.dest = some (v.target, method)
  job : ∃ target m clear, (s.threads t).job = .request target m clear
  place : (s.threads t).place = .running

/-- A continuation on its way has been there, or it has just been sent.  Then its lock is parked
if it is to be. -/
theorem inFlight_of_outcome (h : Wf s) (ho : Outcome cfg s e s')
    (hv : v ∈ s'.inFlight) : v ∈ s.inFlight ∨ ∃ t, s.Sends e t v ∧ ∀ next c, deferral (s.threads
      t).after v.target = some (next, c) → s'.deferredLocks.get? next.deferredLockID = some c := by
  cases ho with
  | expired => exact .inl (mem_of_mem_erase hv)
  | accepted => exact .inl (mem_of_mem_erase hv)
  | scheduled hs =>
    obtain ⟨l, -, ⟨i, -, -, ha⟩ | ⟨-, ha⟩⟩ := h.schedule_cases hs <;>
      exact .inl (arrival_inFlight ha ▸ hv)
  | @omitted _ _ _ _ _ clear => cases clear <;> exact .inl hv
  | @mismatched _ _ _ _ _ clear => cases clear <;> exact .inl hv
  | @answered _ _ _ _ _ _ _ clear => cases clear <;> exact .inl hv
  | @forwarded t r delete activated now target m clear dest method hjob hplace _ hdest hnone =>
    have hv : v ∈ s.inFlight ++ [State.continuation m dest method r.value false] := by
      cases clear <;> exact hv
    rcases mem_append.mp hv with hv | hv
    · exact .inl hv
    obtain rfl := mem_singleton.mp hv
    refine .inr ⟨t, ⟨⟨r, delete, activated, now, rfl, method, ?_⟩, ⟨target, m, clear, hjob⟩,
      hplace⟩, fun next c hdeferral => ?_⟩
    · rw [State.target_continuation, hdest]
    · rw [State.target_continuation, hnone] at hdeferral
      simp at hdeferral
  | @deferred t r delete activated now target m clear dest method next c hjob hplace herr hdest
      hdeferral =>
    simp only [goto, continuing, deferring, log] at hv ⊢
    rcases mem_append.mp hv with hv | hv
    · exact .inl hv
    obtain rfl := mem_singleton.mp hv
    refine .inr ⟨t, ⟨⟨r, delete, activated, now, rfl, method, ?_⟩, ⟨target, m, clear, hjob⟩,
      hplace⟩, fun next' c' hdeferral' => ?_⟩
    · rw [State.target_continuation, hdest]
    · rw [State.target_continuation, hdeferral] at hdeferral'
      obtain ⟨rfl, rfl⟩ := Prod.mk.inj (Option.some.inj hdeferral')
      rw [GoMap.get?_set, if_pos rfl]
  | _ => exact .inl hv

/-- Only the acceptance of a request and a tail call change what is on its way. -/
theorem inFlight_of_step (h : Wf s) (hs : step cfg s e = some s') :
    match e with
    | .accept m _ => s'.inFlight = s.inFlight.erase m
    | .finish .. => s'.inFlight = s.inFlight ∨ ∃ v, s'.inFlight = s.inFlight ++ [v]
    | _ => s'.inFlight = s.inFlight := by
  obtain ⟨s₁, ho, hsame⟩ := step_outcome hs
  rw [hsame.inFlight]
  cases ho with
  | scheduled hs =>
    obtain ⟨l, -, ⟨i, -, -, ha⟩ | ⟨-, ha⟩⟩ := h.schedule_cases hs <;>
      exact (arrival_inFlight ha).trans rfl
  | @omitted _ _ _ _ _ clear => cases clear <;> rfl
  | @mismatched _ _ _ _ _ clear => cases clear <;> rfl
  | @answered _ _ _ _ _ _ _ clear => cases clear <;> exact .inl rfl
  | @forwarded _ _ _ _ _ _ _ clear => cases clear <;> exact .inr ⟨_, rfl⟩
  | deferred =>
    exact .inr ⟨_, rfl⟩
  | _ => rfl

/-- A lock stays parked until the request that was looked up presents it. -/
theorem parked_of_outcome (h : Wf s) (ho : Outcome cfg s e s') {id : String} {c : Chan}
    (hc : s.deferredLocks.get? id = some c) : (∃ d, s'.deferredLocks.get? id = some d) ∨ e =
      .schedule ∧ ∃ l, s.loading = some l ∧ l.target.deferredLockID = id ∧ id ≠ "" ∧ s'.inFlight =
      s.inFlight ∧ s'.loading = none := by
  cases ho with
  | scheduled hs =>
    obtain ⟨l, hl, ⟨i, -, -, ha⟩ | ⟨-, ha⟩⟩ := h.schedule_cases hs
    · cases ha with
      | @resume d _ _ hd =>
        by_cases hid : id = l.target.deferredLockID
        · refine .inr ⟨rfl, l, hl, hid.symm, ?_, rfl, rfl⟩
          unfold deferredLock at hd
          split at hd
          · rwa [hid]
          · simp at hd
        · refine .inl ⟨c, ?_⟩
          show (s.deferredLocks.delete l.target.deferredLockID).get? id = some c
          rw [GoMap.get?_delete, if_neg hid, hc]
      | reentrant => exact .inl ⟨c, hc⟩
      | nonexclusive => exact .inl ⟨c, hc⟩
      | queued => exact .inl ⟨c, hc⟩
    · cases ha with
      | resume hfresh => simp at hfresh
      | reentrant hfresh => simp at hfresh
      | nonexclusive => exact .inl ⟨c, hc⟩
      | queued => exact .inl ⟨c, hc⟩
  | @omitted _ _ _ _ _ clear => cases clear <;> exact .inl ⟨c, hc⟩
  | @mismatched _ _ _ _ _ clear => cases clear <;> exact .inl ⟨c, hc⟩
  | @answered _ _ _ _ _ _ _ clear => cases clear <;> exact .inl ⟨c, hc⟩
  | @forwarded _ _ _ _ _ _ _ clear => cases clear <;> exact .inl ⟨c, hc⟩
  | @deferred _ _ _ _ _ _ _ _ _ _ _ c' =>
    simp only [goto, continuing, deferring, log]
    rw [GoMap.get?_set]
    split
    · exact .inl ⟨c', rfl⟩
    · exact .inl ⟨c, hc⟩
  | _ => exact .inl ⟨c, hc⟩

/-- Tail calls park their turns under distinct ids. -/
theorem distinct_of_delivers (hs : step cfg s e = some s') (h : s.Delivers e) :
    s.DistinctLocks e := by
  cases e with
  | finish t r =>
    intro p hp
    obtain ⟨target, m, clear, hjob⟩ : ∃ target m clear,
        (s.threads t).job = .request target m clear := by
      obtain ⟨s₁, ho, -⟩ := step_outcome hs
      cases ho with
      | answered hjob => exact ⟨_, _, _, hjob⟩
      | forwarded hjob => exact ⟨_, _, _, hjob⟩
      | deferred hjob => exact ⟨_, _, _, hjob⟩
    unfold parksUnder at hp
    split at hp
    · rename_i dest method _ hdest
      obtain ⟨-, hnext, hlock⟩ := deferral_eq hp
      exact ((h target (by simp [Job.target?, hjob]) (dest, method) hdest p.1 hnext).2 hlock).1
    · simp at hp
  | _ => trivial

end Messages

/-! ## Runs without recovery -/

/-- No request waits for a child. -/
def NoRecovery : SchedulerEvent → Prop
  | .accept m _ => m.childID = ""
  | _ => True

instance (e : SchedulerEvent) : Decidable (NoRecovery e) :=
  match e with
  | .accept m _ => inferInstanceAs (Decidable (m.childID = ""))
  | .finish .. | .schedule | .receive _ | .timeout _ | .awaitChild _ | .childDone _ | .acquire _
  | .enter .. | .pass _ | .collect .. | .claim .. | .probe _ | .beginCallback _
  | .callbackDone .. | .settle _ | .remove _ | .close _ => inferInstanceAs (Decidable True)

/-- Each instance has one turn, the flows agree with the turns, and no request waits for a
child. -/
structure Calm (s : Scheduler) : Prop where
  sound : Sound True s
  flows : Flows s
  clean : ∀ t target m clear, t < s.numThreads → (s.threads t).job = .request target m clear →
    m.childID = ""
  loading : ∀ l, s.loading = some l → l.m.childID = ""

namespace Calm

variable {cfg : SchedulerConfig} {s s' : Scheduler} {e : SchedulerEvent}

theorem init : Calm init where
  sound := .init
  flows := .init
  clean := by simp [Scheduler.init]
  loading := by simp [Scheduler.init]

/-- A goroutine that starts for a request starts for the one that was looked up. -/
theorem started (h : Calm s) (hs : s.schedule = some s') (hge : s.numThreads ≤ t)
    (hlt : t < s'.numThreads) (hjob : (s'.threads t).job = .request target m clear) :
    t = s.numThreads ∧ ∃ l, s.loading = some l ∧ l.target = target ∧ l.m = m := by
  obtain ⟨l, hl, hcases⟩ := h.sound.schedule_cases hs
  have hspawned : s'.numThreads = s.numThreads + 1 ∧
      ∃ clear', (s'.threads s.numThreads).job = .request l.target l.m clear' := by
    rcases hcases with ⟨i, -, -, ha⟩ | ⟨-, ha⟩ <;>
      exact ⟨(Targets.arrival_spawned ha).1, (Targets.arrival_spawned ha).2.2⟩
  obtain ⟨hnum, clear', hjob'⟩ := hspawned
  obtain rfl : t = s.numThreads := by omega
  rw [hjob'] at hjob
  obtain ⟨rfl, rfl, -⟩ := Job.request.inj hjob
  exact ⟨rfl, l, hl, rfl, rfl⟩

/-- A recovery is not needed for the flows to agree with the turns. -/
theorem regular (h : Calm s) (hs : Scheduler.step cfg s e = some s') (hdelivers : s.Delivers e)
    (hclean : NoRecovery e) : s.Regular e := by
  refine ⟨hdelivers, ?_⟩
  cases e with
  | accept => exact fun hchild => absurd hclean hchild
  | timeout t =>
    intro m hm
    obtain ⟨s₁, ho, -⟩ := step_outcome hs
    cases ho with
    | @timedOut _ target m' clear hjob hplace =>
      have hlt := h.sound.lt hplace
      rw [hjob] at hm
      rw [← Option.some.inj hm]
      exact h.clean t target m' clear hlt hjob
  | _ => trivial

theorem step (h : Calm s) (hord : Ordered cfg s) (hdelivers : s.Delivers e)
    (hclean : NoRecovery e) (hs : Scheduler.step cfg s e = some s') : Calm s' := by
  have hwf := h.sound.toWf
  obtain ⟨s₁, ho, hsame⟩ := step_outcome hs
  refine ⟨h.sound.step (fun _ => distinct_of_delivers hs hdelivers) hs, h.flows.step hord (h.regular
    hs hdelivers hclean) hs, fun t target m clear ht hjob => ?_, fun l hl => ?_⟩
  · by_cases hlt : t < s.numThreads
    · exact h.clean t target m clear hlt ((Kept.step hwf hs).job t hlt ▸ hjob)
    rw [hsame.threads] at hjob
    rw [hsame.numThreads] at ht
    obtain ⟨-, hdeactivation | ⟨-, hschedule⟩⟩ := started_of_outcome hwf ho (by omega) ht
    · simp [hdeactivation] at hjob
    · obtain ⟨-, l, hl, -, rfl⟩ := h.started hschedule (by omega) ht hjob
      exact h.loading l hl
  · rcases loading_of_outcome hwf ho (hsame.loading ▸ hl) with hold | ⟨now, rfl, -⟩
    · exact h.loading l hold
    · exact hclean

/-- The owner of an instance with an ordinary flow: a request that has the turn, or the
continuation that the turn is parked for. -/
theorem owner_of_active (h : Calm s) (hordinary : ordinaryFlow flow = true)
    (hentry : s.sessionTable k = some i) (hactive : (s.instances i).activeFlow = flow) :
    (∃ t target m clear, s.HasTurn i (.held t) ∧ t < s.numThreads ∧
      (s.threads t).job = .request target m clear ∧ target.key = (s.instances i).key ∧
      target.flow = flow ∧ (s.threads t).place.unanswered = true) ∨
    ∃ id v target, s.HasTurn i (.parked id) ∧
      s.ParkedFor i id (s.instances i).activeFlow v target := by
  obtain ⟨q, hq⟩ := h.sound.hasTurn_of_table hentry
  have hexpects := h.flows.owned i q hq
  cases q with
  | sent =>
    exfalso
    rw [hactive] at hexpects
    rcases hexpects with ⟨t, target, m, clear, hbefore, hjob, hchild, -⟩ | ⟨hreleased, -⟩
    · have hlt : t < s.numThreads := by
        by_contra hge
        simp [(h.sound.fresh t (by omega)).1] at hbefore
      exact hchild (h.clean t target m clear hlt hjob)
    · exact ne_released_of_ordinary hordinary hreleased
  | held t =>
    obtain ⟨hholds, c, hc, howner⟩ := hq
    have hended : (s.threads t).place ≠ .ended := by
      intro hended
      simp [hended, Place.phase] at hholds
    have hlt := h.sound.lt_of_place hended
    have htask := h.flows.task t hlt
    have howns : (s.threads t).Owns flow := hactive ▸ hexpects
    unfold Thread.Owns at howns
    cases hjob : (s.threads t).job with
    | request target m clear =>
      simp only [hjob] at howns
      split at howns
      · rename_i hplace
        refine .inl ⟨t, target, m, clear, ⟨hholds, c, hc, howner⟩, hlt, hjob, ?_, howns.symm, ?_⟩
        · rw [← (htask.request target m clear hjob).1, ← howner, (htask.owner c hc).1]
        · rcases hplace with hplace | ⟨hplace, -⟩
          · cases hp : (s.threads t).place <;> simp_all [Place.owns, Place.unanswered]
          · rw [hplace]
            rfl
      · exact absurd howns (ne_released_of_ordinary hordinary)
    | deactivation =>
      simp only [hjob] at howns
      split at howns
      · obtain ⟨uuid, huuid⟩ := howns
        exact absurd huuid (ne_deactivate_of_ordinary hordinary uuid)
      · exact absurd howns (ne_released_of_ordinary hordinary)
  | parked id =>
    obtain ⟨v, target, hv⟩ := hexpects
    exact .inr ⟨id, v, target, hq, hv⟩

end Calm

/-! ## One chain -/

/-- The goroutine `t` has a request of the flow for the actor `k` and has not ended. -/
def serves (s : Scheduler) (k : SessionKey) (flow : String) (t : Nat) : Bool :=
  match (s.threads t).job with
  | .request target _ _ => decide (target.key = k) && decide (target.flow = flow) &&
      decide ((s.threads t).place ≠ .ended)
  | .deactivation => false

theorem serves_iff :
    s.serves k flow t = true ↔ ∃ target m clear, (s.threads t).job = .request target m clear ∧
      target.key = k ∧ target.flow = flow ∧ (s.threads t).place ≠ .ended := by
  unfold serves
  cases hjob : (s.threads t).job with
  | request => simp [and_assoc]
  | deactivation => simp

/-- A chain of the flow is open: it has a goroutine, or a continuation comes. -/
def chained (s : Scheduler) (k : SessionKey) (flow : String) : Bool :=
  (List.range s.numThreads).any (s.serves k flow) || s.coming.any (·.continues k flow)

theorem chained_eq_false :
    s.chained k flow = false ↔ (∀ t, t < s.numThreads → s.serves k flow t = false) ∧
      ∀ v ∈ s.coming, v.continues k flow = false := by
  simp [chained]

/-- There is no recovery, and a request of the flow that is no continuation comes when no chain
of the flow is open. -/
def OneChain (k : SessionKey) (flow : String) (s : Scheduler) : SchedulerEvent → Prop
  | .accept m _ => m.childID = "" ∧ ∀ target ∈ m.target.session?, target.key = k →
      target.flow = flow → target.deferredLockID = "" → s.chained k flow = false
  | _ => True

instance (k : SessionKey) (flow : String) (s : Scheduler) (e : SchedulerEvent) :
    Decidable (s.OneChain k flow e) :=
  match e with
  | .accept m _ => inferInstanceAs (Decidable (m.childID = "" ∧
      ∀ target ∈ m.target.session?, target.key = k → target.flow = flow →
        target.deferredLockID = "" → s.chained k flow = false))
  | .finish .. | .schedule | .receive _ | .timeout _ | .awaitChild _ | .childDone _ | .acquire _
  | .enter .. | .pass _ | .collect .. | .claim .. | .probe _ | .beginCallback _
  | .callbackDone .. | .settle _ | .remove _ | .close _ => inferInstanceAs (Decidable True)

structure Chain (k : SessionKey) (flow : String) (s : Scheduler) : Prop extends Calm s where
  turn : ∀ t, s.serves k flow t = true → (s.threads t).after ≠ none
  kept : ∀ v ∈ s.coming, ∀ target, v.target.session? = some target → v.continues k flow = true →
    ∃ c, s.deferredLocks.get? target.deferredLockID = some c
  free : ∀ l, s.loading = some l → l.target.key = k → l.target.flow = flow →
    l.target.deferredLockID = "" → s.chained k flow = false

namespace Chain

theorem init : Chain k flow init where
  toCalm := .init
  turn := by simp [Scheduler.init, Scheduler.serves]
  kept := by simp [Scheduler.init, coming]
  free := by simp [Scheduler.init]

/-- The request that was looked up does not bypass the queue without a lock: whoever owns the
instance with its flow would be another chain. -/
theorem not_reentrant (h : Chain k flow s) (hordinary : ordinaryFlow flow = true)
    (htarget : l.m.target.session? = some l.target) (hl : s.loading = some l) (hkey : l.target.key = k)
    (hflow : l.target.flow = flow) (hentry : s.sessionTable l.target.key = some i)
    (hactive : (s.instances i).activeFlow = l.target.flow) : s.deferredLock l.target ≠ none := by
  intro hnone
  by_cases hlock : l.target.deferredLockID = ""
  · obtain ⟨hserves, hcomes⟩ := chained_eq_false.mp (h.free l hl hkey hflow hlock)
    have hikey : (s.instances i).key = k := (h.sound.table _ i hentry).1.trans hkey
    rcases h.owner_of_active hordinary hentry (hactive.trans hflow) with
      ⟨t, target, m, clear, -, hlt, hjob, htkey, htflow, hplace⟩ | ⟨id, v, target, -, hv⟩
    · have hserve : s.serves k flow t = true := by
        refine serves_iff.mpr ⟨target, m, clear, hjob, htkey.trans hikey, htflow, fun hended => ?_⟩
        simp [hended, Place.unanswered] at hplace
      simp [hserves t hlt] at hserve
    · have hcontinues : v.continues k flow = true := Request.continues_iff.mpr ⟨target, hv.session,
        hv.key.trans hikey, (hv.active.trans hactive).trans hflow, hv.lock ▸ hv.ne⟩
      simp [hcomes v hv.coming] at hcontinues
  · have hcontinues : l.m.continues k flow = true :=
      Request.continues_iff.mpr ⟨l.target, htarget, hkey, hflow, hlock⟩
    obtain ⟨c, hc⟩ := h.kept l.m (by simp [coming, hl]) l.target htarget hcontinues
    simp [deferredLock, hlock, hc] at hnone

/-- A goroutine of the flow has been there, or it has just started with a turn. -/
theorem serves_of_step (h : Chain k flow s) (hs : Scheduler.step cfg s e = some s')
    (ht : t < s.numThreads) (hserves : s'.serves k flow t = true) : s.serves k flow t = true := by
  have hwf := h.sound.toWf
  obtain ⟨target, m, clear, hjob, hkey, hflow, hended⟩ := serves_iff.mp hserves
  refine serves_iff.mpr ⟨target, m, clear, ?_, hkey, hflow, fun hplace => ?_⟩
  · rw [← (Kept.step hwf hs).job t ht, hjob]
  · exact hended (ended_of_step hwf hs ht hplace)

/-- A goroutine that starts for a request of the flow has a turn to pass on. -/
theorem turn_of_arrival (hordinary : ordinaryFlow flow = true) (hne : flow ≠ nonexclusiveFlow)
    (h : Chain k flow s) (htargets : Targets s) (hs : s.schedule = some s')
    (hserves : s'.serves k flow s.numThreads = true) :
    (s'.threads s.numThreads).after ≠ none := by
  obtain ⟨target, m, clear, hjob, hkey, hflow, hended⟩ := serves_iff.mp hserves
  obtain ⟨l, hl, hcases⟩ := h.sound.schedule_cases hs
  obtain ⟨-, l', hl', rfl, -⟩ := h.started hs (Nat.le_refl _)
    ((h.sound.schedule hs).lt_of_place hended) hjob
  obtain rfl : l = l' := Option.some.inj (hl.symm.trans hl')
  rcases hcases with ⟨i, hentry, -, ha⟩ | ⟨-, ha⟩
  · cases ha with
    | resume => simp [resume, spawn, unloaded]
    | reentrant _ hactive hc =>
      exact absurd hc (h.not_reentrant hordinary (htargets.loading l hl) hl hkey hflow hentry hactive)
    | nonexclusive _ hnonexclusive => exact absurd (hflow.symm.trans hnonexclusive) hne
    | queued => simp [enqueue, spawn, setInstance, unloaded]
  · cases ha with
    | resume hfresh => simp at hfresh
    | reentrant hfresh => simp at hfresh
    | nonexclusive _ hnonexclusive => exact absurd (hflow.symm.trans hnonexclusive) hne
    | queued => simp [enqueue, spawn, setInstance, newInstance, unloaded]

/-- A continuation of the flow on its way has been there, or a request of the flow ends with it
and parks its turn. -/
theorem sent_of_outcome (h : Chain k flow s) (hdelivers : s.Delivers e) (ho : Outcome cfg s e s')
    (hv : v ∈ s'.inFlight) (hcontinues : v.continues k flow = true) :
    v ∈ s.inFlight ∨ (∃ t, t < s.numThreads ∧ s.serves k flow t = true) ∧ ∀ target,
      v.target.session? = some target → ∃ c, s'.deferredLocks.get? target.deferredLockID = some c :=
      by
  rcases inFlight_of_outcome h.sound.toWf ho hv with hv | ⟨t, hsends, hparked⟩
  · exact .inl hv
  obtain ⟨target, m, clear, hjob⟩ := hsends.job
  obtain ⟨r, delete, activated, now, rfl, method, hdest⟩ := hsends.event
  obtain ⟨next, hnext, hkey, hflow, hlock⟩ := Request.continues_iff.mp hcontinues
  have hcall := hdelivers target (by simp [Job.target?, hjob]) (v.target, method) hdest next hnext
  have hlt := h.sound.lt_of_place (t := t) (by simp [hsends.place])
  have hserves : s.serves k flow t = true := serves_iff.mpr ⟨target, m, clear, hjob,
    (hcall.key_eq hlock).symm.trans hkey, hcall.flow_eq.symm.trans hflow, by simp [hsends.place]⟩
  refine .inr ⟨⟨t, hlt, hserves⟩, fun next' hnext' => ?_⟩
  obtain ⟨c, hc⟩ := Option.ne_none_iff_exists'.mp (h.turn t hserves)
  obtain rfl : next = next' := Option.some.inj (hnext.symm.trans hnext')
  refine ⟨c, hparked next c ?_⟩
  simp [deferral, hnext, hc, hlock]

/-- A step that leaves a request looked up does not open a chain. -/
theorem chained_of_step (h : Chain k flow s) (htargets : Targets s)
    (hs : Scheduler.step cfg s e = some s') (hdelivers : s.Delivers e)
    (hl : s'.loading = some l) (hlock : l.target.deferredLockID = "")
    (hfree : s.chained k flow = false) : s'.chained k flow = false := by
  have hwf := h.sound.toWf
  have hsession := (htargets.step hwf hs).loading l hl
  obtain ⟨s₁, ho, hsame⟩ := step_outcome hs
  obtain ⟨hserves, hcomes⟩ := chained_eq_false.mp hfree
  refine chained_eq_false.mpr ⟨fun t ht => ?_, fun v hv => ?_⟩
  · rw [← Bool.not_eq_true]
    intro hserve
    by_cases hlt : t < s.numThreads
    · have hold := h.serves_of_step hs hlt hserve
      simp [hserves t hlt] at hold
    obtain ⟨target, m, clear, hjob, -⟩ := serves_iff.mp hserve
    obtain ⟨-, hdeactivation | ⟨-, hschedule⟩⟩ :=
      started_of_outcome hwf ho (by omega) (hsame.numThreads ▸ ht)
    · rw [hsame.threads, hdeactivation] at hjob
      simp at hjob
    · have hnone : s₁.loading = none := by
        obtain ⟨l', -, ⟨i, -, -, ha⟩ | ⟨-, ha⟩⟩ := hwf.schedule_cases hschedule <;>
          exact arrival_loading ha
      simp [hsame.loading, hnone] at hl
  · rw [← Bool.not_eq_true]
    intro hcontinues
    rw [coming, hl, mem_append] at hv
    rcases hv with hv | hv
    · rw [hsame.inFlight] at hv
      rcases h.sent_of_outcome hdelivers ho hv hcontinues with hv | ⟨⟨t, ht, hserve⟩, -⟩
      · simp [hcomes v (mem_append_left _ hv)] at hcontinues
      · simp [hserves t ht] at hserve
    · obtain rfl := mem_singleton.mp hv
      obtain ⟨target, htarget, -, -, hne⟩ := Request.continues_iff.mp hcontinues
      rw [hsession] at htarget
      exact hne (Option.some.inj htarget ▸ hlock)

/-- A continuation of the flow finds its lock after the step too. -/
theorem kept_of_step (h : Chain k flow s) (htargets : Targets s)
    (hs : Scheduler.step cfg s e = some s') (hdelivers : s.Delivers e) (hv : v ∈ s'.coming)
    (htarget : v.target.session? = some target) (hcontinues : v.continues k flow = true) :
    ∃ c, s'.deferredLocks.get? target.deferredLockID = some c := by
  have hwf := h.sound.toWf
  obtain ⟨s₁, ho, hsame⟩ := step_outcome hs
  rw [hsame.deferredLocks]
  obtain ⟨target', htarget', -, -, hlock⟩ := Request.continues_iff.mp hcontinues
  obtain rfl : target = target' := Option.some.inj (htarget.symm.trans htarget')
  have hlock? : v.lock? = some target.deferredLockID :=
    Request.lock?_eq_some.mpr ⟨hlock, target, htarget, rfl⟩
  rw [coming, hsame.inFlight, hsame.loading, mem_append] at hv
  rcases hv with hv | hv
  · rcases h.sent_of_outcome hdelivers ho hv hcontinues with hold | ⟨-, hparked⟩
    · obtain ⟨c, hc⟩ := h.kept v (mem_append_left _ hold) target htarget hcontinues
      rcases parked_of_outcome hwf ho hc with hd | ⟨-, l, hl, hid, hne, -, -⟩
      · exact hd
      -- The lock of a message on its way is not the one of the request that was looked up.
      have hnodup := h.flows.lockIDs
      rw [Scheduler.lockIDs, coming, hl, filterMap_append, nodup_append] at hnodup
      refine absurd rfl (hnodup.2.2 _ (mem_filterMap.mpr ⟨v, hold, hlock?⟩) _
        (mem_filterMap.mpr ⟨l.m, by simp, ?_⟩))
      exact Request.lock?_eq_some.mpr ⟨hne, l.target, htargets.loading l hl, hid⟩
    · exact hparked target htarget
  · obtain ⟨l, hl, rfl⟩ : ∃ l, s₁.loading = some l ∧ l.m = v := by
      simpa [Option.mem_toList] using hv
    -- It was looked up before, or it was on its way.
    have hcomes : l.m ∈ s.coming ∧ e ≠ .schedule := by
      rcases loading_of_outcome hwf ho hl with hold | ⟨now, rfl, -⟩
      · refine ⟨by simp [coming, hold], ?_⟩
        rintro rfl
        cases ho with
        | scheduled hschedule =>
          obtain ⟨l', -, ⟨i, -, -, ha⟩ | ⟨-, ha⟩⟩ := hwf.schedule_cases hschedule <;>
            simp [arrival_loading ha, unloaded, newInstance] at hl
      · exact ⟨mem_append_left _ (hdelivers (by simp [hlock?])), by simp⟩
    obtain ⟨c, hc⟩ := h.kept l.m hcomes.1 target htarget hcontinues
    exact (parked_of_outcome hwf ho hc).resolve_right fun hschedule => hcomes.2 hschedule.1

theorem noRecovery (hone : s.OneChain k flow e) : NoRecovery e := by
  cases e with
  | accept => exact hone.1
  | _ => trivial

theorem step (h : Chain k flow s) (hordinary : ordinaryFlow flow = true)
    (hne : flow ≠ nonexclusiveFlow) (hord : Ordered cfg s) (hdelivers : s.Delivers e)
    (hone : s.OneChain k flow e) (hs : Scheduler.step cfg s e = some s') : Chain k flow s' := by
  have hwf := h.sound.toWf
  have hcalm := h.toCalm.step hord hdelivers (noRecovery hone) hs
  obtain ⟨s₁, ho, hsame⟩ := step_outcome hs
  refine ⟨hcalm, fun t hserves => ?_, fun v hv target htarget hcontinues =>
      h.kept_of_step hord.targets hs hdelivers hv htarget hcontinues,
    fun l hl hkey hflow hlock => ?_⟩
  · obtain ⟨target, m, clear, hjob, -, -, hended⟩ := serves_iff.mp hserves
    by_cases hlt : t < s.numThreads
    · rw [(Kept.step hwf hs).after t hlt]
      exact h.turn t (h.serves_of_step hs hlt hserves)
    have hlt' := hsame.numThreads ▸ hcalm.sound.lt_of_place hended
    have hserves : s₁.serves k flow t = true := by
      rw [Scheduler.serves, ← hsame.threads]
      exact hserves
    rw [hsame.threads] at hjob ⊢
    obtain ⟨rfl, hdeactivation | ⟨-, hschedule⟩⟩ := started_of_outcome hwf ho (by omega) hlt'
    · simp [hdeactivation] at hjob
    · exact turn_of_arrival hordinary hne h hord.targets hschedule hserves
  · refine h.chained_of_step hord.targets hs hdelivers hl hlock ?_
    rcases loading_of_outcome hwf ho (hsame.loading ▸ hl) with hold | ⟨now, rfl, htarget⟩
    · exact h.free l hold hkey hflow hlock
    · exact hone.2 l.target htarget hkey hflow hlock

theorem of_reachable (hordinary : ordinaryFlow flow = true) (hne : flow ≠ nonexclusiveFlow)
    (h : Reachable (Scheduler.step cfg) (fun s e => s.Delivers e ∧ s.OneChain k flow e)
      Scheduler.init s) : Chain k flow s := by
  refine h.invariant .init fun s e s' hreach hchain hok hs => ?_
  exact hchain.step hordinary hne (.of_reachable (hreach.mono fun _ _ _ => trivial)) hok.1 hok.2 hs

/-- The turn of the actor is parked for a continuation of the flow that comes. -/
theorem parked_turn (h : Chain k flow s) (haged : Aged s) (hv : v ∈ s.coming)
    (hcontinues : v.continues k flow = true) : ∃ c target, v.target.session? = some target ∧
      s.deferredLocks.get? target.deferredLockID = some c ∧ target.deferredLockID ≠ "" ∧
      s.sessionTable k = some c.owner ∧ (s.instances c.owner).activeFlow = flow ∧
      v.deadline = none := by
  obtain ⟨target, htarget, hkey, hflow, hlock⟩ := Request.continues_iff.mp hcontinues
  obtain ⟨c, hc⟩ := h.kept v hv target htarget hcontinues
  have hturn : s.HasTurn c.owner (.parked target.deferredLockID) := ⟨c, hc, rfl⟩
  have hvalid := valid_of_turn h.sound haged hturn (by simp)
  obtain ⟨v', target', hv'⟩ := h.flows.owned _ _ hturn
  obtain rfl : v' = v := by
    refine eq_of_nodup_filterMap h.flows.lockIDs hv'.coming hv ?_
      (Request.lock?_eq_some.mpr ⟨hlock, target, htarget, rfl⟩)
    exact Request.lock?_eq_some.mpr ⟨hv'.ne, target', hv'.session, hv'.lock⟩
  obtain rfl : target' = target := Option.some.inj (hv'.session.symm.trans htarget)
  refine ⟨c, target', htarget, hc, hlock, ?_, hv'.active.symm.trans hflow, hv'.deadline⟩
  rw [← hkey, hv'.key]
  exact h.sound.tabled _ hvalid

/-- A goroutine with the turn of the actor executes on the instance of the table. -/
theorem table_of_holds (h : Chain k flow s) (haged : Aged s)
    (hkey : (s.instances (s.threads t).inst).key = k) (hafter : (s.threads t).after ≠ none)
    (hholds : (s.threads t).place.phase = .holds)
    (hne : (s.threads t).place ≠ .removing ∧ (s.threads t).place ≠ .closing) :
    s.HasTurn (s.threads t).inst (.held t) ∧ s.sessionTable k = some (s.threads t).inst := by
  have hended : (s.threads t).place ≠ .ended := by
    intro hended
    simp [hended, Place.phase] at hholds
  obtain ⟨c, hc⟩ := Option.ne_none_iff_exists'.mp hafter
  have howner := ((h.flows.task t (h.sound.lt_of_place hended)).owner c hc).1
  have hturn : s.HasTurn (s.threads t).inst (.held t) := ⟨hholds, c, hc, howner⟩
  have hvalid := valid_of_turn h.sound haged hturn fun u hu => Turn.held.inj hu ▸ hne
  exact ⟨hturn, hkey ▸ h.sound.tabled _ hvalid⟩

end Chain

/-- From the entry of a method of the chain to the end of its last one: a request of the flow has
the turn, or a continuation comes. -/
def ChainOpen (s : Scheduler) (k : SessionKey) (flow : String) : Prop :=
  (∃ t, s.serves k flow t = true ∧ (s.threads t).place.phase = .holds) ∨
    ∃ v ∈ s.coming, v.continues k flow = true

/-- The goroutines of requests that have passed their turn have done so once, and have ended. -/
structure Released (s : Scheduler) : Prop where
  nodup : s.released.Nodup
  ended : ∀ t ∈ s.released, t < s.numThreads ∧ (s.threads t).place = .ended

theorem Released.init : Released init := by
  constructor <;> simp [Scheduler.init]

theorem released_of_outcome (h : Wf s) (ho : Outcome cfg s e s') : s'.released = s.released ∨
      ∃ t, (s.threads t).place = .releasing ∧ s'.released = s.released ++ [t] ∧
        (s'.threads t).place = .ended := by
  cases ho with
  | scheduled hs =>
    obtain ⟨l, -, ⟨i, -, -, ha⟩ | ⟨-, ha⟩⟩ := h.schedule_cases hs <;> cases ha <;> exact .inl rfl
  | @omitted _ _ _ _ _ clear => cases clear <;> exact .inl rfl
  | @mismatched _ _ _ _ _ clear => cases clear <;> exact .inl rfl
  | @answered _ _ _ _ _ _ _ clear => cases clear <;> exact .inl rfl
  | @forwarded _ _ _ _ _ _ _ clear => cases clear <;> exact .inl rfl
  | deferred => exact .inl (by simp [goto, continuing, deferring, log])
  | @released t _ _ _ _ _ _ hplace =>
    exact .inr ⟨t, hplace, rfl, goto_place_self ..⟩
  | _ => exact .inl rfl

theorem Released.step
    (h : Released s) (hwf : Wf s) (hs : Scheduler.step cfg s e = some s') : Released s' := by
  obtain ⟨s₁, ho, hsame⟩ := step_outcome hs
  have hkept := Kept.step hwf hs
  have hold : ∀ t ∈ s.released, t < s'.numThreads ∧ (s'.threads t).place = .ended := by
    intro t ht
    obtain ⟨hlt, hended⟩ := h.ended t ht
    exact ⟨Nat.lt_of_lt_of_le hlt hkept.numThreads, ended_of_step hwf hs hlt hended⟩
  rcases released_of_outcome hwf ho with heq | ⟨t, hplace, heq, hended⟩
  · rw [← hsame.released] at heq
    exact ⟨heq ▸ h.nodup, heq ▸ hold⟩
  rw [← hsame.released] at heq
  have hlt := hwf.lt hplace
  have hnot : t ∉ s.released := fun ht => by simp [(h.ended t ht).2] at hplace
  refine ⟨?_, fun u hu => ?_⟩
  · rw [heq, ← concat_eq_append]
    exact h.nodup.concat hnot
  · rw [heq, mem_append, mem_singleton] at hu
    rcases hu with hu | rfl
    · exact hold u hu
    · exact ⟨Nat.lt_of_lt_of_le hlt hkept.numThreads, hsame.threads ▸ hended⟩

theorem Released.of_reachable
    (h : Reachable (Scheduler.step cfg) (fun _ _ => True) Scheduler.init s) : Released s :=
  h.invariant .init fun _ _ _ hreach hreleased _ hs =>
    hreleased.step (Ordered.of_reachable hreach).toWf hs

/-- The lock is kept along a chain of tail calls. -/
structure KeepsLock (cfg : SchedulerConfig) (k : SessionKey) (flow : String) (s : Scheduler) :
    Prop where
  /-- Nobody else who queues for the actor executes. -/
  exclusive : s.ChainOpen k flow → ∀ u, (s.instances (s.threads u).inst).key = k →
    (s.threads u).after ≠ none → (s.threads u).place = .running ∨ (s.threads u).place = .callback →
    s.serves k flow u = true
  /-- A continuation is not rejected. -/
  inTime : ∀ v ∈ s.coming, v.continues k flow = true → ∀ now, v.expired now = false
  /-- A continuation finds its lock and goes on with the turn. -/
  resumes : ∀ l s', s.loading = some l → l.m.continues k flow = true → s.schedule = some s' →
    ∃ i c, s.sessionTable k = some i ∧ c.owner = i ∧
      s.deferredLocks.get? l.target.deferredLockID = some c ∧
      s' = s.unloaded.resume i l.target l.m c
  /-- A method that does not park its turn is about to pass it on. -/
  last : ∀ t r delete activated now s', s.serves k flow t = true → s.parksUnder t r = none →
    step cfg s (.finish t r delete activated now) = some s' → (s'.threads t).place = .releasing
  releases : ∀ t, s.serves k flow t = true → (s.threads t).place = .releasing →
    (s.instances (s.threads t).inst).activeFlow = releasedFlow ∧
      ∃ s', s.pass t = some s' ∧ s'.released.count t = 1
  once : ∀ t, s.released.count t ≤ 1

namespace Chain

variable {cfg : SchedulerConfig} {k : SessionKey} {flow : String}

theorem exclusive (h : Chain k flow s) (haged : Aged s) (hopen : s.ChainOpen k flow)
    (hkey : (s.instances (s.threads u).inst).key = k) (hafter : (s.threads u).after ≠ none)
    (hplace : (s.threads u).place = .running ∨ (s.threads u).place = .callback) :
    s.serves k flow u = true := by
  obtain ⟨hturn, hentry⟩ := h.table_of_holds haged hkey hafter (by rcases hplace with hplace |
    hplace <;> rw [hplace] <;> rfl) (by rcases hplace with hplace | hplace <;> simp [hplace])
  rcases hopen with ⟨t, hserves, hholds⟩ | ⟨v, hv, hcontinues⟩
  · obtain ⟨target, m, clear, hjob, htarget, -, hended⟩ := serves_iff.mp hserves
    have htask := h.flows.task t (h.sound.lt_of_place hended)
    have hremoves : (s.threads t).place ≠ .removing ∧ (s.threads t).place ≠ .closing := by
      constructor <;> intro hremoves <;> simp [htask.deactivates (hremoves ▸ rfl)] at hjob
    obtain ⟨hturn', hentry'⟩ := h.table_of_holds haged
      ((htask.request target m clear hjob).1.trans htarget) (h.turn t hserves) hholds hremoves
    rw [Option.some.inj (hentry'.symm.trans hentry)] at hturn'
    rw [Turn.held.inj (h.sound.hasTurn_unique hturn hturn')]
    exact hserves
  · obtain ⟨c, target, -, hc, -, hentry', -⟩ := h.parked_turn haged hv hcontinues
    have hturn' : s.HasTurn c.owner (.parked target.deferredLockID) := ⟨c, hc, rfl⟩
    rw [Option.some.inj (hentry'.symm.trans hentry)] at hturn'
    exact absurd (h.sound.hasTurn_unique hturn hturn') (by simp)

theorem resumes (h : Chain k flow s) (haged : Aged s) (htargets : Targets s)
    (hl : s.loading = some l) (hcontinues : l.m.continues k flow = true)
    (hs : s.schedule = some s') : ∃ i c, s.sessionTable k = some i ∧ c.owner = i ∧
      s.deferredLocks.get? l.target.deferredLockID = some c ∧
      s' = s.unloaded.resume i l.target l.m c := by
  obtain ⟨c, target, htarget, hc, hlock, hentry, hactive, -⟩ :=
    h.parked_turn haged (by simp [coming, hl]) hcontinues
  obtain ⟨target', htarget', hkey, hflow, -⟩ := Request.continues_iff.mp hcontinues
  have hsession := htargets.loading l hl
  obtain rfl : target = l.target := Option.some.inj (htarget.symm.trans hsession)
  obtain rfl : target' = l.target := Option.some.inj (htarget'.symm.trans hsession)
  refine ⟨c.owner, c, hentry, rfl, hc, ?_⟩
  have hdeferred : s.unloaded.deferredLock l.target = some c := by
    simp [deferredLock, hlock, unloaded, hc]
  have hactive := hactive.trans hflow.symm
  obtain ⟨l', hl', ⟨i, hi, -, ha⟩ | ⟨hnone, -⟩⟩ := h.sound.schedule_cases hs
  · obtain rfl : l = l' := Option.some.inj (hl.symm.trans hl')
    obtain rfl : i = c.owner := by
      rw [hkey, hentry] at hi
      exact (Option.some.inj hi).symm
    cases ha with
    | resume _ _ hc' =>
      rw [hdeferred] at hc'
      rw [Option.some.inj hc']
    | reentrant _ _ hc' => simp [hdeferred] at hc'
    | nonexclusive hne => exact absurd ⟨rfl, hactive⟩ hne
    | queued hne => exact absurd ⟨rfl, hactive⟩ hne
  · obtain rfl : l = l' := Option.some.inj (hl.symm.trans hl')
    simp [hkey, hentry] at hnone

theorem last (h : Chain k flow s)
    (hserves : s.serves k flow t = true) (hparks : s.parksUnder t r = none)
    (hs : Scheduler.step cfg s (.finish t r delete activated now) = some s') :
    (s'.threads t).place = .releasing := by
  have hafter := h.turn t hserves
  have hend : ∀ s₀ : Scheduler, (s₀.threads t).after = (s.threads t).after →
      ((s₀.endTask t).threads t).place = .releasing := by
    intro s₀ hs₀
    rw [endTask, goto_place_self, hs₀, if_neg hafter]
  obtain ⟨s₁, ho, hsame⟩ := step_outcome hs
  rw [hsame.threads]
  cases ho with
  | @answered _ _ _ _ _ _ _ clear => cases clear <;> exact hend _ rfl
  | @forwarded _ _ _ _ _ _ _ clear => cases clear <;> exact hend _ rfl
  | deferred _ _ herr hdest hdeferral =>
    simp [parksUnder, herr, hdest, hdeferral] at hparks

theorem releases (h : Chain k flow s) (hreleased : Released s)
    (hserves : s.serves k flow t = true) (hplace : (s.threads t).place = .releasing) :
    (s.instances (s.threads t).inst).activeFlow = releasedFlow ∧
      ∃ s', s.pass t = some s' ∧ s'.released.count t = 1 := by
  obtain ⟨target, m, clear, hjob, -, -, hended⟩ := serves_iff.mp hserves
  constructor
  · have howns := h.flows.owns h.sound.toWf hplace (h.turn t hserves)
    simpa [Thread.Owns, hjob, hplace, Place.owns] using howns
  obtain ⟨s', hs'⟩ := Option.isSome_iff_exists.mp
    (h.sound.pass_enabled (t := t) (hplace ▸ rfl))
  refine ⟨s', hs', ?_⟩
  have hnot : t ∉ s.released := fun ht => by simp [(hreleased.ended t ht).2] at hplace
  have heq : s'.released = s.released ++ [t] := by
    unfold pass at hs'
    simp only [hplace, hjob] at hs'
    split at hs'
    · simp at hs'
    obtain ⟨-, rfl⟩ := of_guard hs'
    rfl
  rw [heq, count_append, count_eq_zero_of_not_mem hnot]
  simp

theorem keepsLock (h : Chain k flow s) (hord : Ordered cfg s) (hreleased : Released s) :
    KeepsLock cfg k flow s where
  exclusive := fun hopen _ hkey hafter hplace => h.exclusive hord.aged hopen hkey hafter hplace
  inTime := fun v hv hcontinues now => by
    obtain ⟨_, _, -, -, -, -, -, hdeadline⟩ := h.parked_turn hord.aged hv hcontinues
    rw [Request.expired, hdeadline]
  resumes := fun _ _ hl hcontinues hs => h.resumes hord.aged hord.targets hl hcontinues hs
  last := fun _ _ _ _ _ _ hserves hparks hs => h.last hserves hparks hs
  releases := fun _ hserves hplace => h.releases hreleased hserves hplace
  once := nodup_iff_count_le_one.mp hreleased.nodup

end Chain

end Scheduler

end Kar.Rpc
