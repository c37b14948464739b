import Kar.Rpc.Flows

/-!
# The flow checks

`requests.go` and `handlerActor` check the active flow in seven places and log a violation when
it is not the one they expect.  `Violation` lists them, and the field `violations` of the
scheduler records which checks have failed.

A goroutine with the turn sees the flow that `Flows` says.  A nested call does not have the
turn: it runs while its ancestor has it, and its check succeeds because the ancestor waits
before it gives the instance up.  `Nesting` is that discipline.  It is not enough: the child of
a recovered request may itself be a recovered request that waits for a child on the same actor.
Then the reset of the flow, which is for the holder of the turn, is done by a goroutine that has
bypassed the queue (`recovered_nested_call_fails`).  So `RecoversFirst` is needed too.
-/

namespace Kar.Rpc

open Kar.Lib

/-- A flow that is not one of the scheduler's own. -/
def ordinaryFlow (flow : String) : Bool :=
  flow != releasedFlow && !("flow-deactivate-".toList.isPrefixOf flow.toList)

theorem ne_released_of_ordinary (h : ordinaryFlow flow = true) :
    flow ≠ releasedFlow := by
  simp only [ordinaryFlow, Bool.and_eq_true, bne_iff_ne] at h
  exact h.1

theorem ne_deactivate_of_ordinary (h : ordinaryFlow flow = true) (uuid : String) :
    flow ≠ "flow-deactivate-" ++ uuid := by
  rintro rfl
  simp [ordinaryFlow] at h

/-- The goroutine that starts or ends to execute its request. -/
def SchedulerEvent.executing : SchedulerEvent → Option Nat
  | .childDone t | .enter t _ _ | .finish t _ _ _ _ => some t
  | _ => none

namespace Scheduler

/-- The goroutine `t` of a nested call, which has bypassed the queue, has not ended. -/
def nested (s : Scheduler) (t : Nat) : Bool :=
  match (s.threads t).job with
  | .request target _ _ => target.flow != nonexclusiveFlow && (s.threads t).before.isNone &&
      (s.threads t).after.isNone && (s.threads t).place != .ended
  | .deactivation => false

variable {t : Nat}

theorem nested_iff {s : Scheduler} : s.nested t = true ↔ ∃ target m clear,
    (s.threads t).job = .request target m clear ∧ target.flow ≠ nonexclusiveFlow ∧
      (s.threads t).before = none ∧ (s.threads t).after = none ∧ (s.threads t).place ≠ .ended := by
  unfold nested
  cases hjob : (s.threads t).job with
  | request => simp [and_assoc]
  | deactivation => simp

/-- The flow of a request is an ordinary one, and a request that is not exclusive does not go to
the handler of actors. -/
def OrdinaryRequest (cfg : SchedulerConfig) (target : Session) (m : Request) : Prop :=
  ordinaryFlow target.flow = true ∧
    (target.flow = nonexclusiveFlow → cfg.handlersSession m.method ≠ some .actor)

/-- Requests with the flow of an instance are nested calls that their parent waits for, and
continuations. -/
def Nesting (cfg : SchedulerConfig) (s : Scheduler) (e : SchedulerEvent) : Prop :=
  s.Delivers e ∧
  (match e with
    | .accept m _ => ∀ target ∈ m.target.session?, OrdinaryRequest cfg target m
    | _ => True) ∧
  ∀ t ∈ e.executing, (s.threads t).after ≠ none → ∀ u < s.numThreads,
    (s.threads u).inst = (s.threads t).inst → s.nested u = false

instance (cfg : SchedulerConfig) (target : Session) (m : Request) :
    Decidable (OrdinaryRequest cfg target m) :=
  inferInstanceAs (Decidable (_ ∧ _))

instance (cfg : SchedulerConfig) (s : Scheduler) (e : SchedulerEvent) :
    Decidable (s.Nesting cfg e) :=
  have : Decidable (match e with
      | .accept m _ => ∀ target ∈ m.target.session?, OrdinaryRequest cfg target m
      | _ => True) :=
    match e with
    | .finish .. | .schedule | .receive _ | .timeout _ | .awaitChild _ | .childDone _ | .acquire _
    | .enter .. | .pass _ | .collect .. | .claim .. | .probe _ | .beginCallback _
    | .callbackDone .. | .settle _ | .remove _ | .close _ => inferInstanceAs (Decidable True)
    | .accept m _ => inferInstanceAs
        (Decidable (∀ target ∈ m.target.session?, OrdinaryRequest cfg target m))
  inferInstanceAs (Decidable (_ ∧ _ ∧ _))

/-- What holds besides the flows of the turns. -/
structure Checked (cfg : SchedulerConfig) (s : Scheduler) : Prop where
  ordinary : ∀ t target m clear, t < s.numThreads → (s.threads t).job = .request target m clear →
    OrdinaryRequest cfg target m
  loading : ∀ l, s.loading = some l → OrdinaryRequest cfg l.target l.m
  nested : ∀ t target m clear, s.nested t = true → (s.threads t).job = .request target m clear →
    (s.instances (s.threads t).inst).activeFlow = target.flow
  violations : s.violations = []

namespace Checked

variable {s s' : Scheduler} {e : SchedulerEvent}

theorem init : Checked cfg init := by
  constructor <;> simp [Scheduler.init, Scheduler.nested]

variable {m : Request} {target : Session}

/-- A request that executes sees its own flow: it has the turn, or it is a nested call. -/
theorem sees (h : Checked cfg s) (hflows : Flows s) (hwf : Wf s)
    {clear : Bool} (hjob : (s.threads t).job = .request target m clear)
    (hplace : (s.threads t).place = .acquired ∨ (s.threads t).place = .running)
    (hne : target.flow ≠ nonexclusiveFlow) :
    (s.instances (s.threads t).inst).activeFlow = target.flow := by
  have hended : (s.threads t).place ≠ .ended := by
    rcases hplace with hplace | hplace <;> simp [hplace]
  by_cases hafter : (s.threads t).after = none
  · refine h.nested t target m clear ?_ hjob
    refine nested_iff.mpr ⟨target, m, clear, hjob, hne, ?_, hafter, hended⟩
    cases hbefore : (s.threads t).before with
    | none => rfl
    | some c => simp [(hwf.before t c hbefore).2] at hafter
  · rcases hplace with hplace | hplace <;>
      simpa [Thread.Owns, hjob, hplace, Place.owns] using hflows.owns hwf hplace hafter

/-- No nested call is left on an instance with a flow of the scheduler's own. -/
theorem not_nested (h : Checked cfg s) {u : Nat} (hlt : u < s.numThreads)
    (hinst : (s.threads u).inst = (s.threads t).inst)
    (hflow : (s.instances (s.threads t).inst).activeFlow = releasedFlow ∨
      ∃ uuid, (s.instances (s.threads t).inst).activeFlow = "flow-deactivate-" ++ uuid) :
    s.nested u ≠ true := by
  intro hnested
  obtain ⟨target, m, clear, hjob, -⟩ := nested_iff.mp hnested
  have hactive := h.nested u target m clear hnested hjob
  have hordinary := (h.ordinary u target m clear hlt hjob).1
  rw [hinst] at hactive
  rcases hflow with hflow | ⟨uuid, hflow⟩
  · exact ne_released_of_ordinary hordinary (hactive.symm.trans hflow)
  · exact ne_deactivate_of_ordinary hordinary uuid (hactive.symm.trans hflow)

/-- The flow of an instance is set that has no nested call. -/
theorem kept_of_setFlow {s₀ : Scheduler} {i : Nat} {u : Nat} (hflow : ∀ j, (s₀.instances j).activeFlow =
      if j = i then flow else (s.instances j).activeFlow)
    (hnot : (s.threads u).inst = i → s.nested u ≠ true) (hu : s.nested u = true) :
    (s₀.instances (s.threads u).inst).activeFlow = (s.instances (s.threads u).inst).activeFlow := by
  rw [hflow, if_neg]
  intro hinst
  exact hnot hinst hu

/-- The flow is cleared at the end of a request whose nested calls have ended. -/
theorem kept_of_clearFlow {s₀ : Scheduler} {u : Nat} {clear : Bool} (hflows : Flows s)
    (hlt : t < s.numThreads) (hjob : (s.threads t).job = .request target m clear)
    (hflow : ∀ j, (s₀.instances j).activeFlow =
      if clear = true ∧ j = (s.threads t).inst then releasedFlow
      else (s.instances j).activeFlow) (hawaits : (s.threads t).after ≠ none → ∀ u < s.numThreads,
      (s.threads u).inst = (s.threads t).inst → s.nested u = false) (hult : u < s.numThreads)
    (hu : s.nested u = true) :
    (s₀.instances (s.threads u).inst).activeFlow = (s.instances (s.threads u).inst).activeFlow := by
  rw [hflow, if_neg]
  rintro ⟨hclear, hinst⟩
  have hafter := ((hflows.task t hlt).request target m clear hjob).2.1.mp hclear
  simp [hawaits hafter u hult hinst] at hu

theorem activeFlow_enqueue (s : Scheduler) (i : Nat) (job : Job) (j : Nat) :
    ((s.enqueue i job).instances j).activeFlow = (s.instances j).activeFlow := by
  by_cases hj : j = i
  · simp [enqueue, spawn, setInstance, hj]
  · simp [enqueue, spawn, setInstance, hj]

theorem arrival_checks (ha : Arrival s i fresh target m s') :
    (∀ j, (s'.instances j).activeFlow = (s.instances j).activeFlow) ∧
      s'.violations = s.violations := by
  cases ha with
  | resume => exact ⟨fun _ => rfl, rfl⟩
  | reentrant => exact ⟨fun _ => rfl, rfl⟩
  | nonexclusive => exact ⟨fun _ => rfl, rfl⟩
  | queued => exact ⟨activeFlow_enqueue s i _, rfl⟩

/-- No check fails, and the flow of an instance with a nested call stays. -/
theorem outcome (h : Checked cfg s) (hflows : Flows s) (hwf : Wf s) (hok : s.Nesting cfg e)
    (ho : Outcome cfg s e s') : s'.violations = [] ∧ ∀ u, u < s.numThreads → s.nested u = true →
      (s'.instances (s.threads u).inst).activeFlow = (s.instances (s.threads u).inst).activeFlow :=
      by
  have hlog : ∀ (s₀ : Scheduler) v t b, s₀.violations = [] → b = false →
      (s₀.log v t b).violations = [] := by
    intro s₀ v t b hs₀ hb
    rw [log, hb]
    exact hs₀
  -- The checks at the entry and the exit are made by the handler of actors.
  have hactor : ∀ {t target m clear}, (s.threads t).job = .request target m clear →
      ((s.threads t).place = .acquired ∨ (s.threads t).place = .running) →
      cfg.handlersSession m.method = some .actor →
      (s.instances (s.threads t).inst).activeFlow = target.flow := by
    intro t target m clear hjob hplace hhandler
    have hlt := hplace.elim (hwf.lt ·) (hwf.lt ·)
    exact h.sees hflows hwf hjob hplace fun hflow =>
      (h.ordinary t target m clear hlt hjob).2 hflow hhandler
  have hexit : ∀ {t target m clear} (delete : Bool),
      (s.threads t).job = .request target m clear → (s.threads t).place = .running →
      ((cfg.handlersSession m.method == some .actor && !delete) &&
        (s.instances (s.threads t).inst).activeFlow != target.flow) = false := by
    intro t target m clear delete hjob hplace
    cases hcheck : cfg.handlersSession m.method == some .actor with
    | false => rfl
    | true =>
      rw [hactor hjob (.inr hplace) (by simpa using hcheck)]
      simp
  have hsettling : ∀ t, (s.threads t).place = .settling → ∃ uuid,
      (s.instances (s.threads t).inst).activeFlow = "flow-deactivate-" ++ uuid := by
    intro t hplace
    have hlt := hwf.lt hplace
    have hjob := (hflows.task t hlt).deactivates (hplace ▸ rfl)
    have howns := hflows.owns hwf hplace (hwf.after_ne_none (hwf.deactivation t hlt hjob))
    simpa [Thread.Owns, hjob, hplace, Place.takesOver] using howns
  cases ho with
  | scheduled hs =>
    obtain ⟨l, -, ⟨i, -, -, ha⟩ | ⟨-, ha⟩⟩ := hwf.schedule_cases hs
    · obtain ⟨hflow, hviolations⟩ := arrival_checks ha
      exact ⟨hviolations.trans h.violations, fun u _ _ => hflow _⟩
    · obtain ⟨hflow, hviolations⟩ := arrival_checks ha
      refine ⟨hviolations.trans h.violations, fun u hu _ => (hflow _).trans ?_⟩
      have hne : (s.threads u).inst ≠ s.numInstances := Nat.ne_of_lt (hwf.inst u hu)
      simp [newInstance, Scheduler.unloaded, hne]
  | @awaits t target m clear hjob hplace hchild =>
    refine ⟨hlog _ _ _ _ h.violations ?_, fun _ _ _ => rfl⟩
    have hlt := hwf.lt hplace
    have hbefore : (s.threads t).before ≠ none := fun hnone =>
      hchild (((hflows.task t hlt).request target m clear hjob).2.2.1 hnone)
    have howns := hflows.owns hwf hplace (hwf.after_ne_none hbefore)
    simpa [Thread.Owns, hjob, hplace, hchild, Place.owns] using howns
  | @childDone t hplace =>
    have hlt := hwf.lt hplace
    have hbefore := (hflows.task t hlt).awaits (.inl hplace)
    refine ⟨h.violations, fun u hu => kept_of_setFlow (activeFlow_setFlow _ _ _) fun hinst => ?_⟩
    simp [hok.2.2 t rfl (hwf.after_ne_none hbefore) u hu hinst]
  | @acquired t _ _ _ hjob hplace hbefore =>
    have hreleased : (s.instances (s.threads t).inst).activeFlow = releasedFlow := by
      rcases hplace with hplace | ⟨hplace, hchild⟩ <;>
        simpa [Thread.Owns, hjob, hplace, hbefore, Place.owns, *] using
          hflows.owns hwf hplace (hwf.after_ne_none hbefore)
    refine ⟨hlog _ _ _ _ h.violations (by simp [hreleased]), fun u hu =>
      kept_of_setFlow (activeFlow_setFlow _ _ _) fun hinst => ?_⟩
    exact h.not_nested hu hinst (.inl hreleased)
  | @omitted t _ _ _ _ clear _ hjob hplace =>
    exact ⟨by cases clear <;> exact h.violations, fun u => kept_of_clearFlow hflows (hwf.lt hplace) hjob
      (activeFlow_clearFlow _ _ _) (hok.2.2 t rfl)⟩
  | @mismatched _ _ _ _ _ _ hjob hplace hhandler hflow =>
    exact absurd (hactor hjob (.inl hplace) hhandler) hflow
  | @answered t _ delete _ _ _ _ clear hjob hplace =>
    have hviolations := hlog s .exit t _ h.violations (hexit delete hjob hplace)
    exact ⟨by cases clear <;> exact hviolations, fun u => kept_of_clearFlow hflows (hwf.lt hplace) hjob
      (activeFlow_clearFlow _ _ _) (hok.2.2 t rfl)⟩
  | @forwarded t _ delete _ _ _ _ clear _ _ hjob hplace =>
    have hviolations := hlog s .exit t _ h.violations (hexit delete hjob hplace)
    exact ⟨by cases clear <;> exact hviolations, fun u => kept_of_clearFlow hflows (hwf.lt hplace) hjob
      (activeFlow_clearFlow _ _ _) (hok.2.2 t rfl)⟩
  | @deferred t _ delete _ _ target _ _ dest method next _ hjob hplace _ hdest hdeferral =>
    obtain ⟨hafter, hnext, hlock⟩ := deferral_eq hdeferral
    have hcall := hok.1 target (by simp [Job.target?, hjob]) (dest, method) hdest next hnext
    have howns := hflows.owns hwf hplace (by simp [hafter])
    have hactive : (s.instances (s.threads t).inst).activeFlow = target.flow := by
      simpa [Thread.Owns, hjob, hplace, Place.owns] using howns
    have hviolations := hlog _ .deferral t (next.flow != (s.instances (s.threads t).inst).activeFlow)
      (hlog s .exit t _ h.violations (hexit delete hjob hplace))
      (by simp [hcall.flow_eq, hactive])
    exact ⟨hviolations, fun _ _ _ => rfl⟩
  | @released t c target m clear hjob hafter hplace =>
    have hlt := hwf.lt hplace
    have hclear := ((hflows.task t hlt).request target m clear hjob).2.1.mpr (by simp [hafter])
    exact ⟨hlog _ _ _ _ h.violations (by simp [hclear]), fun _ _ _ => rfl⟩
  | @claimed t _ hjob hplace =>
    have hlt := hwf.lt hplace
    have howns := hflows.owns hwf hplace (hwf.after_ne_none (hwf.deactivation t hlt hjob))
    have hreleased : (s.instances (s.threads t).inst).activeFlow = releasedFlow := by
      simpa [Thread.Owns, hjob, hplace, Place.takesOver] using howns
    refine ⟨hlog _ _ _ _ h.violations (by simp [hreleased]), fun u hu =>
      kept_of_setFlow (activeFlow_setFlow _ _ _) fun hinst => ?_⟩
    exact h.not_nested hu hinst (.inl hreleased)
  | @retired t hplace =>
    exact ⟨h.violations, fun u hu => kept_of_setFlow (activeFlow_retired s t) fun hinst =>
      h.not_nested hu hinst (.inr (hsettling t hplace))⟩
  | @aborted t hplace =>
    exact ⟨h.violations, fun u hu => kept_of_setFlow (activeFlow_setFlow _ _ _) fun hinst =>
      h.not_nested hu hinst (.inr (hsettling t hplace))⟩
  | @closed t =>
    refine ⟨h.violations, fun u _ _ => ?_⟩
    by_cases hinst : (s.threads u).inst = (s.threads t).inst
    · simp [goto, closing, setInstance, hinst]
    · simp [goto, closing, setInstance, hinst]
  | @collected i =>
    exact ⟨h.violations, fun u _ _ => activeFlow_enqueue s i .deactivation _⟩
  | _ => exact ⟨h.violations, fun _ _ _ => rfl⟩

/-- A request that is scheduled bypasses the queue with the flow of the instance, or it is not
exclusive. -/
theorem nested_of_arrival {fresh : Bool}
    (ha : Arrival s i fresh target m s') (hnested : s'.nested s.numThreads = true) :
    (s'.instances (s'.threads s.numThreads).inst).activeFlow = target.flow := by
  obtain ⟨target', m', clear, hjob, hne, hbefore, hafter, -⟩ := nested_iff.mp hnested
  cases ha with
  | resume => simp [resume, spawn] at hafter
  | reentrant _ hflow => simpa [bypass, spawn] using hflow
  | nonexclusive _ hflow =>
    have hjob : Job.request target m false = .request target' m' clear := by
      simpa [bypass, spawn] using hjob
    rw [(Job.request.inj hjob).1] at hflow
    exact absurd hflow hne
  | queued => simp [enqueue, spawn, setInstance] at hafter

/-- A goroutine of a nested call has been there, or it has just started. -/
theorem nested_of_step (hwf : Wf s) (hs : Scheduler.step cfg s e = some s')
    (ht : t < s.numThreads) (hnested : s'.nested t = true) : s.nested t = true := by
  have hkept := Kept.step hwf hs
  obtain ⟨target, m, clear, hjob, hne, hbefore, hafter, hplace⟩ := nested_iff.mp hnested
  refine nested_iff.mpr ⟨target, m, clear, ?_, hne, ?_, ?_, fun hended => ?_⟩
  · rw [← hkept.job t ht, hjob]
  · rw [← hkept.before t ht, hbefore]
  · rw [← hkept.after t ht, hafter]
  · exact hplace (ended_of_step hwf hs ht hended)

theorem step (h : Checked cfg s) (hflows : Flows s) (hwf : Wf s) (hwf' : Wf s')
    (hok : s.Nesting cfg e) (hs : Scheduler.step cfg s e = some s') : Checked cfg s' := by
  have hkept := Kept.step hwf hs
  have hnested := fun t => nested_of_step (t := t) hwf hs
  obtain ⟨s₁, ho, hsame⟩ := step_outcome hs
  obtain ⟨hviolations, hflow⟩ := h.outcome hflows hwf hok ho
  have hloading : ∀ l, s'.loading = some l → OrdinaryRequest cfg l.target l.m := by
    intro l hl
    rw [hsame.loading] at hl
    rcases loading_of_outcome hwf ho hl with hl | ⟨now, rfl, htarget⟩
    · exact h.loading l hl
    · exact hok.2.1 l.target htarget
  -- What has to be shown of a goroutine that has just started.
  have hnew : ∀ t, s.numThreads ≤ t → ∀ target m clear,
      (s'.threads t).job = .request target m clear → t < s'.numThreads →
      OrdinaryRequest cfg target m ∧ (s'.nested t = true →
        (s'.instances (s'.threads t).inst).activeFlow = target.flow) := by
    intro t hge target m clear hjob hlt
    rw [hsame.numThreads] at hlt
    obtain ⟨rfl, hdeactivation | ⟨-, hschedule⟩⟩ := started_of_outcome hwf ho hge hlt
    · rw [hsame.threads, hdeactivation] at hjob
      simp at hjob
    obtain ⟨l, hl, hcases⟩ := hwf.schedule_cases hschedule
    obtain ⟨i, fresh, s₀, hnum, ha⟩ : ∃ i fresh s₀, s₀.numThreads = s.numThreads ∧
        Arrival s₀ i fresh l.target l.m s₁ := by
      rcases hcases with ⟨i, -, -, ha⟩ | ⟨-, ha⟩
      · exact ⟨i, false, s.unloaded, rfl, ha⟩
      · exact ⟨s.numInstances, true, s.unloaded.newInstance l.target l.m, rfl, ha⟩
    obtain ⟨-, -, clear', hjob'⟩ := Targets.arrival_spawned ha
    rw [hnum] at hjob'
    rw [hsame.threads, hjob'] at hjob
    obtain ⟨rfl, rfl, -⟩ := Job.request.inj hjob
    refine ⟨h.loading l hl, fun hn => ?_⟩
    have hn : s₁.nested s₀.numThreads = true := by
      rw [Scheduler.nested, hsame.threads] at hn
      rw [hnum]
      exact hn
    rw [hsame.activeFlow, hsame.threads, ← hnum]
    exact nested_of_arrival ha hn
  refine ⟨fun t target m clear ht hjob => ?_, hloading, fun t target m clear hn hjob => ?_,
    hsame.violations.trans hviolations⟩
  · by_cases hlt : t < s.numThreads
    · exact h.ordinary t target m clear hlt (hkept.job t hlt ▸ hjob)
    · exact (hnew t (by omega) target m clear hjob ht).1
  by_cases hlt : t < s.numThreads
  · have hold := hnested t hlt hn
    rw [hsame.activeFlow, hkept.inst t hlt, hflow t hlt hold]
    exact h.nested t target m clear hold (hkept.job t hlt ▸ hjob)
  · obtain ⟨-, -, -, -, -, -, -, hplace⟩ := nested_iff.mp hn
    exact (hnew t (by omega) target m clear hjob (hwf'.lt_of_place hplace)).2 hn

end Checked

/-- **The flow checks.**  In every run in which requests with the flow of an instance are nested
calls that their parent waits for and continuations, and recovered requests come first to their
actor, no check fails: a request that executes and is exclusive finds its own flow. -/
theorem flow_checks_hold {cfg : SchedulerConfig} {s : Scheduler}
    (h : Reachable (Scheduler.step cfg) (fun s e => s.Nesting cfg e ∧ s.RecoversFirst e) init s) :
    s.violations = [] ∧ ∀ t target m clear, (s.threads t).job = .request target m clear →
      (s.threads t).place = .acquired ∨ (s.threads t).place = .running →
      target.flow ≠ nonexclusiveFlow →
      (s.instances (s.threads t).inst).activeFlow = target.flow := by
  have hregular : ∀ (s : Scheduler) e, s.Nesting cfg e ∧ s.RecoversFirst e → s.Regular e :=
    fun s e hok => ⟨hok.1.1, hok.2⟩
  have hordered : ∀ {s}, Reachable (Scheduler.step cfg)
      (fun s e => s.Nesting cfg e ∧ s.RecoversFirst e) init s → Ordered cfg s :=
    fun hs => .of_reachable (hs.mono fun _ _ _ => trivial)
  have hchecked : Checked cfg s := by
    refine h.invariant .init fun s e s' hreach hchecked hok hs => ?_
    exact hchecked.step (.of_reachable hregular hreach) (hordered hreach).toWf
      (hordered (hreach.step hok hs)).toWf hok.1 hs
  exact ⟨hchecked.violations, fun t target m clear hjob hplace hne =>
    hchecked.sees (.of_reachable hregular h) (hordered h).toWf hjob hplace hne⟩

/-- A call that is sent again, after its child, by a recovery. -/
def recoveredGet (requestID flow childID : String) : Request :=
  .call {
    requestID := requestID
    value := []
    deadline := none
    target := .session "Account" "7" flow ""
    method := "get"
    caller := "n0"
    sequence := 0
    childID := childID
    parentID := ""
    isEdited := false }

/-- A recovered request waits for its child, which is a nested call on the same actor. -/
theorem flow_checks_hold_after_recovery :
    ∃ s, Reachable (Scheduler.step actorConfig)
        (fun s e => s.Nesting actorConfig e ∧ s.RecoversFirst e) init s ∧
      s.entered = [1, 0] ∧ (s.threads 0).place = .running ∧ s.violations = [] ∧
      (s.instances (s.threads 0).inst).activeFlow = "f1" := by
  have hok : runOk (Scheduler.step actorConfig)
      (fun s e => s.Nesting actorConfig e ∧ s.RecoversFirst e) init
      [.accept (recoveredGet "r1" "f1" "r2") 0, .schedule, .receive 0, .awaitChild 0,
        .accept (callGet "r2" "f1" "" 0) 0, .schedule, .acquire 1, .enter 1 false 0,
        .finish 1 returns false true 0, .childDone 0, .acquire 0, .enter 0 false 0] = true := by
    decide +kernel
  obtain ⟨s, hrun, hs⟩ := reachable_of_run .init hok
  have hentered := eq_of_run (fun s => s.entered) (a := [1, 0]) hrun (by decide +kernel)
  have hplace := eq_of_run (fun s => (s.threads 0).place) (a := .running) hrun (by decide +kernel)
  have hjob := eq_of_run (fun s => (s.threads 0).job)
    (a := .request ⟨"Account", "7", "f1", ""⟩ (recoveredGet "r1" "f1" "r2") true) hrun
    (by decide +kernel)
  obtain ⟨hviolations, hsees⟩ := flow_checks_hold hs
  exact ⟨s, hs, hentered, hplace, hviolations, hsees 0 _ _ _ hjob (.inr hplace) (by decide)⟩

/-- The child of a recovered request is a recovered request, and both its parent and its child are
on the same actor.  When its child is done it resets the flow, which its parent owns, and its own
handler refuses it. -/
theorem recovered_nested_call_fails :
    ∃ s, Reachable (Scheduler.step actorConfig) (Nesting actorConfig) init s ∧
      s.entered = [2, 1] ∧ s.violations = [(.entry, 1)] := by
  have hok : runOk (Scheduler.step actorConfig) (Nesting actorConfig) init
      [.accept (recoveredGet "r1" "f1" "r2") 0, .schedule, .receive 0, .awaitChild 0,
        .accept (recoveredGet "r2" "f1" "r3") 0, .schedule, .awaitChild 1,
        .accept (callGet "r3" "f1" "" 0) 0, .schedule, .acquire 2, .enter 2 false 0,
        .finish 2 returns false true 0, .childDone 1, .acquire 1, .enter 1 false 0] = true := by
    decide +kernel
  obtain ⟨s, hrun, hs⟩ := reachable_of_run .init hok
  have hentered := eq_of_run (fun s => s.entered) (a := [2, 1]) hrun (by decide +kernel)
  have hviolations := eq_of_run (fun s => s.violations) (a := [(.entry, 1)]) hrun (by decide +kernel)
  exact ⟨s, hs, hentered, hviolations⟩

end Scheduler

end Kar.Rpc
