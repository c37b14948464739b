import Kar.Rpc.Sessions

/-!
# The steps of the session scheduler

`Outcome` lists what a step can do: for each branch of the source the condition under which
it is taken and the state it leads to.  `step_outcome` says that there is nothing else, and
all invariants of the scheduler rest on it.

The state is given up to `Same`: the time of the last access, the activation of an instance
and the messages that were sent may differ.  No other part of the scheduler depends on them,
except for the collector.
-/

namespace Kar.Rpc

open Kar.Lib

namespace Scheduler

/-! ## What most steps leave alone -/

/-- The states agree except for flows, activations, times, messages and what is recorded. -/
structure Silent (s s' : Scheduler) : Prop where
  key : ∀ i, (s'.instances i).key = (s.instances i).key
  next : ∀ i, (s'.instances i).next = (s.instances i).next
  locked : ∀ i, (s'.instances i).locked = (s.instances i).locked
  valid : ∀ i, (s'.instances i).valid = (s.instances i).valid
  numInstances : s'.numInstances = s.numInstances
  threads : s'.threads = s.threads
  numThreads : s'.numThreads = s.numThreads
  full : s'.full = s.full
  closed : s'.closed = s.closed
  sessionTable : s'.sessionTable = s.sessionTable
  deferredLocks : s'.deferredLocks = s.deferredLocks
  loading : s'.loading = s.loading

/-- The states agree except for activations and times, and for messages that were sent. -/
structure Same (s s' : Scheduler) : Prop extends Silent s s' where
  activeFlow : ∀ i, (s'.instances i).activeFlow = (s.instances i).activeFlow
  sent : ∀ x ∈ s.sent, x ∈ s'.sent
  inFlight : s'.inFlight = s.inFlight
  entered : s'.entered = s.entered
  omitted : s'.omitted = s.omitted
  released : s'.released = s.released
  violations : s'.violations = s.violations

/-! ## Updates -/

section Updates

variable (s : Scheduler)

/-- The continuation `v` is on its way. -/
def continuing (v : Request) : Scheduler := { s with inFlight := s.inFlight ++ [v] }

/-- The turn of the channel `c` is left under `id`. -/
def deferring (id : String) (c : Chan) : Scheduler :=
  { s with deferredLocks := s.deferredLocks.set id c }

def entering (t : Nat) : Scheduler := { s with entered := s.entered ++ [t] }

def setFull (c : Chan) (b : Bool) : Scheduler := { s with full := Function.update s.full c b }

/-- The goroutine of a request has sent its turn. -/
def releasing (t : Nat) : Scheduler := { s with released := s.released ++ [t] }

/-- A deactivation that nobody follows invalidates the instance and keeps its lock. -/
def retired (t : Nat) : Scheduler :=
  (s.setInstance (s.threads t).inst { s.instances (s.threads t).inst with
    activeFlow := releasedFlow, valid := false, locked := true }).goto t .removing

/-- The table without the entry of the instance that `t` removes. -/
def tableWithout (t : Nat) : SessionKey → Option Nat :=
  Function.update s.sessionTable (s.instances (s.threads t).inst).key none

/-- The channel `c` is closed and the lock of the instance of `t` is released. -/
def closing (t : Nat) (c : Chan) : Scheduler :=
  { s with closed := Function.update s.closed c true }.setInstance (s.threads t).inst
    { s.instances (s.threads t).inst with locked := false }

/-- The state in which `acceptSession` has done its look-up. -/
def unloaded : Scheduler := { s with loading := none }

/-- The lock under which the tail call of `t` leaves its turn, and the channel. -/
def parksUnder (t : Nat) (r : HandlerResult) : Option (Session × Chan) :=
  match r.err, r.dest with
  | none, some (dest, _) => deferral (s.threads t).after dest
  | _, _ => none

end Updates

section Relations

theorem Silent.refl (s : Scheduler) : Silent s s := by
  constructor <;> intros <;> rfl

theorem Silent.trans (h : Silent s s') (h' : Silent s' s'') : Silent s s'' where
  key := fun i => (h'.key i).trans (h.key i)
  next := fun i => (h'.next i).trans (h.next i)
  locked := fun i => (h'.locked i).trans (h.locked i)
  valid := fun i => (h'.valid i).trans (h.valid i)
  numInstances := h'.numInstances.trans h.numInstances
  threads := h'.threads.trans h.threads
  numThreads := h'.numThreads.trans h.numThreads
  full := h'.full.trans h.full
  closed := h'.closed.trans h.closed
  sessionTable := h'.sessionTable.trans h.sessionTable
  deferredLocks := h'.deferredLocks.trans h.deferredLocks
  loading := h'.loading.trans h.loading

theorem Same.refl (s : Scheduler) : Same s s where
  toSilent := .refl s
  activeFlow := fun _ => rfl
  sent := fun _ hx => hx
  inFlight := rfl
  entered := rfl
  omitted := rfl
  released := rfl
  violations := rfl

theorem Same.trans (h : Same s s') (h' : Same s' s'') : Same s s'' where
  toSilent := h.toSilent.trans h'.toSilent
  activeFlow := fun i => (h'.activeFlow i).trans (h.activeFlow i)
  sent := fun x hx => h'.sent x (h.sent x hx)
  inFlight := h'.inFlight.trans h.inFlight
  entered := h'.entered.trans h.entered
  omitted := h'.omitted.trans h.omitted
  released := h'.released.trans h.released
  violations := h'.violations.trans h.violations

namespace Silent

/-! ### Updates that are silent, after a silent change -/

theorem log (h : Silent s s') (v : Violation) (t : Nat) (violated : Bool) :
    Silent s (s'.log v t violated) := { h with }

theorem send (h : Silent s s') (msgs : List Message) : Silent s (s'.send msgs) := { h with }

theorem passOver (h : Silent s s') (t : Nat) (o : Omission) : Silent s (s'.passOver t o) :=
  { h with }

theorem entering (h : Silent s s') (t : Nat) : Silent s (s'.entering t) := { h with }

theorem releasing (h : Silent s s') (t : Nat) : Silent s (s'.releasing t) := { h with }

theorem continuing (h : Silent s s') (v : Request) : Silent s (s'.continuing v) := { h with }

end Silent

theorem Silent.goto (h : Silent s s') (t : Nat) (p : Place) : Silent (s.goto t p) (s'.goto t p) :=
  { h with threads := by simp only [Scheduler.goto, h.threads] }

theorem Silent.deferring (h : Silent s s') (id : String) (c : Chan) :
    Silent (s.deferring id c) (s'.deferring id c) :=
  { h with deferredLocks := by simp only [Scheduler.deferring, h.deferredLocks] }

theorem Silent.endTask (h : Silent s s') (t : Nat) : Silent (s.endTask t) (s'.endTask t) := by
  unfold Scheduler.endTask
  rw [h.threads]
  exact h.goto t _

/-- A change of an instance that keeps its key, its channels, its lock and its validity. -/
theorem silent_setInstance (s : Scheduler)
    (hkey : a.key = (s.instances i).key) (hnext : a.next = (s.instances i).next)
    (hlocked : a.locked = (s.instances i).locked) (hvalid : a.valid = (s.instances i).valid) :
    Silent s (s.setInstance i a) := by
  have hupdate : ∀ j, (s.setInstance i a).instances j = if j = i then a else s.instances j :=
    fun j => Function.update_apply s.instances i a j
  constructor
  case key | next | locked | valid =>
    intro j
    rw [hupdate]
    split
    · subst j
      assumption
    · rfl
  all_goals rfl

theorem Silent.setFlow (h : Silent s s') (i : Nat) (flow : String) :
    Silent s (s'.setFlow i flow) :=
  h.trans (s'.silent_setInstance rfl rfl rfl rfl)

theorem Silent.clearFlow (h : Silent s s') (i : Nat) (clear : Bool) :
    Silent s (s'.clearFlow i clear) := by
  unfold Scheduler.clearFlow
  split
  · exact h.setFlow i releasedFlow
  · exact h

theorem same_setInstance (s : Scheduler)
    (hkey : a.key = (s.instances i).key) (hnext : a.next = (s.instances i).next)
    (hlocked : a.locked = (s.instances i).locked) (hvalid : a.valid = (s.instances i).valid)
    (hflow : a.activeFlow = (s.instances i).activeFlow) : Same s (s.setInstance i a) := by
  refine { Same.refl s with toSilent := s.silent_setInstance hkey hnext hlocked hvalid,
                            activeFlow := fun j => ?_ }
  by_cases hj : j = i
  · subst j
    simpa [setInstance] using hflow
  · simp [setInstance, hj]

theorem same_touch (s : Scheduler) (i : Nat) (target : Session) (now : Int) :
    Same s (s.touch i target now) := by
  unfold touch
  split
  · exact s.same_setInstance rfl rfl rfl rfl rfl
  · exact .refl s

theorem same_send : Same s (s.send msgs) :=
  { Same.refl s with sent := fun _ hx => List.mem_append_left _ hx }

/-! ### The updates respect the relation -/

namespace Same

theorem goto (h : Same s s') (t : Nat) (p : Place) : Same (s.goto t p) (s'.goto t p) :=
  { h with threads := by simp only [Scheduler.goto, h.threads] }

theorem setFlow (h : Same s s') (i : Nat) (flow : String) :
    Same (s.setFlow i flow) (s'.setFlow i flow) := by
  have hupdate : ∀ (s : Scheduler) j, (s.setFlow i flow).instances j =
      if j = i then { s.instances i with activeFlow := flow } else s.instances j :=
    fun s j => Function.update_apply s.instances i _ j
  refine { h with key := ?_, next := ?_, locked := ?_, valid := ?_, activeFlow := ?_ }
  all_goals
    intro j
    rw [hupdate, hupdate]
    split
  · exact h.key i
  · exact h.key j
  · exact h.next i
  · exact h.next j
  · exact h.locked i
  · exact h.locked j
  · exact h.valid i
  · exact h.valid j
  · rfl
  · exact h.activeFlow j

theorem clearFlow (h : Same s s') (i : Nat) (clear : Bool) :
    Same (s.clearFlow i clear) (s'.clearFlow i clear) := by
  unfold Scheduler.clearFlow
  split
  · exact h.setFlow i releasedFlow
  · exact h

theorem log (h : Same s s') (v : Violation) (t : Nat) (violated : Bool) :
    Same (s.log v t violated) (s'.log v t violated) :=
  { h with violations := by simp only [Scheduler.log, h.violations] }

theorem endTask (h : Same s s') (t : Nat) : Same (s.endTask t) (s'.endTask t) := by
  unfold Scheduler.endTask
  rw [h.threads]
  exact h.goto t _

end Same

end Relations

/-! ## A goroutine that moves keeps everything but its place -/

section Goto

variable (s : Scheduler) (t : Nat) (p : Place) (u : Nat)

@[simp] theorem goto_inst : ((s.goto t p).threads u).inst = (s.threads u).inst := by
  by_cases hu : u = t <;> simp [goto, hu]

@[simp] theorem goto_before : ((s.goto t p).threads u).before = (s.threads u).before := by
  by_cases hu : u = t <;> simp [goto, hu]

@[simp] theorem goto_after : ((s.goto t p).threads u).after = (s.threads u).after := by
  by_cases hu : u = t <;> simp [goto, hu]

@[simp] theorem goto_job : ((s.goto t p).threads u).job = (s.threads u).job := by
  by_cases hu : u = t <;> simp [goto, hu]

theorem goto_place : ((s.goto t p).threads u).place = if u = t then p else (s.threads u).place := by
  by_cases hu : u = t <;> simp [goto, hu]

@[simp] theorem goto_place_self : ((s.goto t p).threads t).place = p := by
  rw [goto_place, if_pos rfl]

theorem goto_place_of_ne {u : Nat} (hu : u ≠ t) :
    ((s.goto t p).threads u).place = (s.threads u).place := by
  rw [goto_place, if_neg hu]

theorem spawn_threads (u : Thread) (t : Nat) : (s.spawn u).threads t =
    if t = s.numThreads then u else s.threads t :=
  Function.update_apply s.threads s.numThreads u t

end Goto

/-! ## The outcomes -/

section

variable {s : Scheduler}

theorem last_iff : s.last t = true ↔ (s.instances (s.threads t).inst).valid = true ∧
    (s.threads t).after = some ⟨(s.threads t).inst, (s.instances (s.threads t).inst).next⟩ := by
  simp [last]

theorem activeFlow_setFlow (s : Scheduler) (i : Nat) (flow : String) (j : Nat) :
    ((s.setFlow i flow).instances j).activeFlow =
      if j = i then flow else (s.instances j).activeFlow := by
  by_cases hj : j = i
  · simp [setFlow, setInstance, hj]
  · simp [setFlow, setInstance, hj]

theorem activeFlow_clearFlow (s : Scheduler) (i : Nat) (clear : Bool) (j : Nat) :
    ((s.clearFlow i clear).instances j).activeFlow =
      if clear = true ∧ j = i then releasedFlow else (s.instances j).activeFlow := by
  cases clear with
  | true => simpa [clearFlow] using activeFlow_setFlow s i releasedFlow j
  | false => simp [clearFlow]

theorem retired_instances : (s.retired t).instances i =
    if i = (s.threads t).inst then { s.instances i with
      activeFlow := releasedFlow, valid := false, locked := true } else s.instances i := by
  by_cases hi : i = (s.threads t).inst
  · simp [retired, goto, setInstance, hi]
  · simp [retired, goto, setInstance, hi]

theorem activeFlow_retired (s : Scheduler) (t j : Nat) : ((s.retired t).instances j).activeFlow =
    if j = (s.threads t).inst then releasedFlow else (s.instances j).activeFlow := by
  rw [retired_instances]
  split <;> rfl

theorem tableWithout_apply : s.tableWithout t k =
    if k = (s.instances (s.threads t).inst).key then none else s.sessionTable k :=
  Function.update_apply ..

theorem deferral_eq {after : Option Chan} (h : deferral after dest = some (next, c)) :
    after = some c ∧ dest.session? = some next ∧ next.deferredLockID ≠ "" := by
  unfold deferral at h
  split at h
  · rename_i target c' hdest
    obtain ⟨hlock, h⟩ := Option.ite_none_right_eq_some.mp h
    cases h
    exact ⟨rfl, hdest, hlock⟩
  · simp at h

end

theorem after_of_parksUnder {s : Scheduler}
    {c : Chan} (h : s.parksUnder t r = some (next, c)) : (s.threads t).after = some c := by
  unfold parksUnder at h
  split at h
  · exact (deferral_eq h).1
  · simp at h

/-- The branches of the second step of `acceptSession`. -/
inductive Arrival (s : Scheduler) (i : Nat) (fresh : Bool) (target : Session) (m : Request) :
    Scheduler → Prop
  | resume {c : Chan} (hfresh : fresh = false) (hflow : (s.instances i).activeFlow = target.flow)
      (hc : s.deferredLock target = some c) : Arrival s i fresh target m (s.resume i target m c)
  | reentrant (hfresh : fresh = false) (hflow : (s.instances i).activeFlow = target.flow)
      (hc : s.deferredLock target = none) : Arrival s i fresh target m (s.bypass i target m)
  | nonexclusive (hne : ¬(fresh = false ∧ (s.instances i).activeFlow = target.flow))
      (hflow : target.flow = nonexclusiveFlow) : Arrival s i fresh target m (s.bypass i target m)
  | queued (hne : ¬(fresh = false ∧ (s.instances i).activeFlow = target.flow))
      (hflow : target.flow ≠ nonexclusiveFlow) :
      Arrival s i fresh target m (s.enqueue i (.request target m true))

theorem scheduleOn_arrival (s : Scheduler) (i : Nat) (fresh : Bool) (target : Session)
    (m : Request) : Arrival s.unloaded i fresh target m (s.scheduleOn i fresh target m) := by
  unfold scheduleOn
  simp only
  split
  · rename_i hflow
    split
    · exact .resume hflow.1 hflow.2 ‹_›
    · exact .reentrant hflow.1 hflow.2 ‹_›
  · rename_i hne
    split
    · exact .nonexclusive hne ‹_›
    · exact .queued hne ‹_›

/-- Why `enter` does not call the handler. -/
def Omits (cfg : SchedulerConfig) (m : Request) (callerDead : Bool) : Omission → Prop
  | .busy => False
  | .undefined => cfg.handlersSession m.method = none
  | .cancelled => cfg.cancellation = true ∧ m.caller?.isSome = true ∧ callerDead = true

/-- What a step does, up to `Same`. -/
inductive Outcome (cfg : SchedulerConfig) (s : Scheduler) : SchedulerEvent → Scheduler → Prop
  | expired {m : Request} {now : Int} {target : Session} (hloading : s.loading = none)
      (htarget : m.target.session? = some target) (hexpired : m.expired now = true) :
      Outcome cfg s (.accept m now) { s with inFlight := s.inFlight.erase m }
  | accepted {m : Request} {now : Int} {target : Session} (hloading : s.loading = none)
      (htarget : m.target.session? = some target) (hexpired : m.expired now = false) :
      Outcome cfg s (.accept m now) { s with
        inFlight := s.inFlight.erase m
        loading := some { target := target, m := m, entry := s.sessionTable target.key } }
  | scheduled {s' : Scheduler} (h : s.schedule = some s') : Outcome cfg s .schedule s'
  | received {t : Nat} {c : Chan} {p : Place} (hbefore : (s.threads t).before = some c)
      (hfull : s.full c = true ∨ s.closed c = true)
      (hplace : (s.threads t).place = .waiting ∧ p = .arrived ∨
        (s.threads t).place = .timedOut ∧ p = .relaying) :
      Outcome cfg s (.receive t) ((s.setFull c false).goto t p)
  | timedOut {t : Nat} {target : Session} {m : Request} {clear : Bool}
      (hjob : (s.threads t).job = .request target m clear)
      (hplace : (s.threads t).place = .waiting) (hbusy : cfg.busyTimeout = true) :
      Outcome cfg s (.timeout t)
        (((s.passOver t .busy).send (possibleDeadlock m target)).goto t .timedOut)
  | awaits {t : Nat} {target : Session} {m : Request} {clear : Bool}
      (hjob : (s.threads t).job = .request target m clear)
      (hplace : (s.threads t).place = .arrived) (hchild : m.childID ≠ "") :
      Outcome cfg s (.awaitChild t) ((s.log .child t
        ((s.instances (s.threads t).inst).activeFlow != target.flow)).goto t .awaiting)
  | childDone {t : Nat} (hplace : (s.threads t).place = .awaiting) :
      Outcome cfg s (.childDone t) ((s.setFlow (s.threads t).inst releasedFlow).goto t .resumed)
  | goesOn {t : Nat} {target : Session} {m : Request} {clear : Bool}
      (hjob : (s.threads t).job = .request target m clear)
      (hplace : (s.threads t).place = .resumed ∨ (s.threads t).place = .arrived ∧ m.childID = "")
      (hbefore : (s.threads t).before = none) :
      Outcome cfg s (.acquire t) (s.goto t .acquired)
  | acquired {t : Nat} {target : Session} {m : Request} {clear : Bool}
      (hjob : (s.threads t).job = .request target m clear)
      (hplace : (s.threads t).place = .resumed ∨ (s.threads t).place = .arrived ∧ m.childID = "")
      (hbefore : (s.threads t).before ≠ none) :
      Outcome cfg s (.acquire t) (((s.log .acquire t
        ((s.instances (s.threads t).inst).activeFlow != releasedFlow)).setFlow
          (s.threads t).inst target.flow).goto t .acquired)
  | omitted {t : Nat} {callerDead : Bool} {now : Int} {target : Session} {m : Request}
      {clear : Bool} {o : Omission} (hjob : (s.threads t).job = .request target m clear)
      (hplace : (s.threads t).place = .acquired) (homits : Omits cfg m callerDead o) :
      Outcome cfg s (.enter t callerDead now)
        (((s.passOver t o).clearFlow (s.threads t).inst clear).endTask t)
  | mismatched {t : Nat} {callerDead : Bool} {now : Int} {target : Session} {m : Request}
      {clear : Bool} (hjob : (s.threads t).job = .request target m clear)
      (hplace : (s.threads t).place = .acquired)
      (hhandler : cfg.handlersSession m.method = some .actor)
      (hflow : (s.instances (s.threads t).inst).activeFlow ≠ target.flow) :
      Outcome cfg s (.enter t callerDead now)
        ((((s.entering t).log .entry t true).clearFlow (s.threads t).inst clear).endTask t)
  | entered {t : Nat} {callerDead : Bool} {now : Int} {target : Session} {m : Request}
      {clear : Bool} {handler : SessionHandler}
      (hjob : (s.threads t).job = .request target m clear)
      (hplace : (s.threads t).place = .acquired)
      (hhandler : cfg.handlersSession m.method = some handler)
      (hflow : handler = .actor → (s.instances (s.threads t).inst).activeFlow = target.flow) :
      Outcome cfg s (.enter t callerDead now) ((s.entering t).goto t .running)
  | answered {t : Nat} {r : HandlerResult} {delete activated : Bool} {now : Int}
      {target : Session} {m : Request} {clear : Bool}
      (hjob : (s.threads t).job = .request target m clear)
      (hplace : (s.threads t).place = .running) (hr : r.err ≠ none ∨ r.dest = none) :
      Outcome cfg s (.finish t r delete activated now) (((s.log .exit t
        ((cfg.handlersSession m.method == some .actor && !delete) &&
          (s.instances (s.threads t).inst).activeFlow != target.flow)).clearFlow
            (s.threads t).inst clear).endTask t)
  | forwarded {t : Nat} {r : HandlerResult} {delete activated : Bool} {now : Int}
      {target : Session} {m : Request} {clear : Bool} {dest : Target} {method : String}
      (hjob : (s.threads t).job = .request target m clear)
      (hplace : (s.threads t).place = .running) (herr : r.err = none)
      (hdest : r.dest = some (dest, method)) (hdeferral : deferral (s.threads t).after dest = none) :
      Outcome cfg s (.finish t r delete activated now) ((((s.log .exit t
        ((cfg.handlersSession m.method == some .actor && !delete) &&
          (s.instances (s.threads t).inst).activeFlow != target.flow)).clearFlow
            (s.threads t).inst clear).continuing
              (State.continuation m dest method r.value false)).endTask t)
  | deferred {t : Nat} {r : HandlerResult} {delete activated : Bool} {now : Int}
      {target : Session} {m : Request} {clear : Bool} {dest : Target} {method : String}
      {next : Session} {c : Chan} (hjob : (s.threads t).job = .request target m clear)
      (hplace : (s.threads t).place = .running) (herr : r.err = none)
      (hdest : r.dest = some (dest, method))
      (hdeferral : deferral (s.threads t).after dest = some (next, c)) :
      Outcome cfg s (.finish t r delete activated now) (((((s.log .exit t
        ((cfg.handlersSession m.method == some .actor && !delete) &&
          (s.instances (s.threads t).inst).activeFlow != target.flow)).log .deferral t
            (next.flow != (s.instances (s.threads t).inst).activeFlow)).deferring
              next.deferredLockID c).continuing
                (State.continuation m dest method r.value true)).goto t .ended)
  | released {t : Nat} {c : Chan} {target : Session} {m : Request} {clear : Bool}
      (hjob : (s.threads t).job = .request target m clear)
      (hafter : (s.threads t).after = some c) (hplace : (s.threads t).place = .releasing)
      (hfull : s.full c = false) (hclosed : s.closed c = false) :
      Outcome cfg s (.pass t)
        ((((s.setFull c true).releasing t).log .release t (!clear)).goto t .ended)
  | relayed {t : Nat} {c : Chan} (hafter : (s.threads t).after = some c)
      (hsends : (s.threads t).place.sends = true)
      (hplace : (s.threads t).place = .releasing → (s.threads t).job = .deactivation)
      (hfull : s.full c = false) (hclosed : s.closed c = false) :
      Outcome cfg s (.pass t) ((s.setFull c true).goto t .ended)
  | collected {i : Nat} {time : Int} (hi : i < s.numInstances)
      (hlocked : (s.instances i).locked = false) (hvalid : (s.instances i).valid = true)
      (hidle : (s.instances i).idle time = true) :
      Outcome cfg s (.collect i time) (s.enqueue i .deactivation)
  | claimed {t : Nat} {uuid : String} (hjob : (s.threads t).job = .deactivation)
      (hplace : (s.threads t).place = .arrived) :
      Outcome cfg s (.claim t uuid) (((s.log .deactivate t
        ((s.instances (s.threads t).inst).activeFlow != releasedFlow)).setFlow
          (s.threads t).inst ("flow-deactivate-" ++ uuid)).goto t .claimed)
  | probed {t : Nat} (hjob : (s.threads t).job = .deactivation)
      (hplace : (s.threads t).place = .claimed) :
      Outcome cfg s (.probe t) (s.goto t (.probed (s.last t)))
  | began {t : Nat} {can : Bool} {p : Place} (hplace : (s.threads t).place = .probed can)
      (hp : p = .callback ∧ can = true ∨ p = .settling) :
      Outcome cfg s (.beginCallback t) (s.goto t p)
  | calledBack {t : Nat} {activated : Bool} (hplace : (s.threads t).place = .callback) :
      Outcome cfg s (.callbackDone t activated) (s.goto t .settling)
  | retired {t : Nat} (hplace : (s.threads t).place = .settling) (hlast : s.last t = true) :
      Outcome cfg s (.settle t) (s.retired t)
  | aborted {t : Nat} (hplace : (s.threads t).place = .settling) (hlast : s.last t = false) :
      Outcome cfg s (.settle t) ((s.setFlow (s.threads t).inst releasedFlow).goto t .aborting)
  | removed {t : Nat} (hplace : (s.threads t).place = .removing) :
      Outcome cfg s (.remove t) ({ s with sessionTable := s.tableWithout t }.goto t .closing)
  | closed {t : Nat} {c : Chan} (hplace : (s.threads t).place = .closing)
      (hafter : (s.threads t).after = some c) :
      Outcome cfg s (.close t) ((s.closing t c).goto t .ended)

section Inversion

variable {s s' : Scheduler}

theorem accept_outcome (h : s.accept m now = some s') :
    ∃ s₁, Outcome cfg s (.accept m now) s₁ ∧ Same s₁ s' := by
  unfold accept at h
  split at h
  · rename_i target hloading htarget
    split at h
    · cases h
      exact ⟨_, .expired hloading htarget ‹_›, same_send⟩
    · rename_i hexpired
      cases h
      exact ⟨_, .accepted hloading htarget (eq_false_of_ne_true hexpired), .refl _⟩
  · simp at h

theorem receive_outcome (h : s.receive t = some s') :
    Outcome cfg s (.receive t) s' := by
  unfold receive at h
  split at h
  · simp at h
  rename_i c hc
  obtain ⟨hfull, h⟩ := Option.ite_none_right_eq_some.mp h
  simp only at h
  split at h
  · cases h
    exact .received hc hfull (.inl ⟨‹_›, rfl⟩)
  · cases h
    exact .received hc hfull (.inr ⟨‹_›, rfl⟩)
  · simp at h

theorem timeout_outcome (h : s.timeout cfg t = some s') :
    Outcome cfg s (.timeout t) s' := by
  unfold timeout at h
  simp only at h
  split at h
  · rename_i hjob
    obtain ⟨hguard, rfl⟩ := of_guard h
    exact .timedOut hjob hguard.2 hguard.1
  · simp at h

theorem awaitChild_outcome (h : s.awaitChild t = some s') :
    Outcome cfg s (.awaitChild t) s' := by
  unfold awaitChild at h
  simp only at h
  split at h
  · rename_i hjob
    obtain ⟨hguard, rfl⟩ := of_guard h
    exact .awaits hjob hguard.1 hguard.2
  · simp at h

theorem childDone_outcome (h : s.childDone t = some s') :
    Outcome cfg s (.childDone t) s' := by
  obtain ⟨_, rfl⟩ := of_guard h
  exact .childDone ‹_›

theorem acquire_outcome (h : s.acquire t = some s') :
    Outcome cfg s (.acquire t) s' := by
  unfold acquire at h
  simp only at h
  split at h
  · rename_i hjob
    obtain ⟨hplace, h⟩ := Option.ite_none_right_eq_some.mp h
    split at h
    · cases h
      exact .goesOn hjob hplace ‹_›
    · cases h
      exact .acquired hjob hplace ‹_›
  · simp at h

/-- A result without tail call, up to `Same`. -/
theorem same_answer (h : Same s s') (hr : r.err ≠ none ∨ r.dest = none) :
    Same ((s.clearFlow (s.threads t).inst clear).endTask t)
      (s'.conclude t target m clear r now) := by
  have htouch := h.trans (s'.same_touch (s'.threads t).inst target now)
  have hinst : ((s'.touch (s'.threads t).inst target now).threads t).inst = (s.threads t).inst := by
    rw [htouch.threads]
  have hanswer : ∀ value errMsg, Same ((s.clearFlow (s.threads t).inst clear).endTask t)
      ((s'.touch (s'.threads t).inst target now).answer t m clear value errMsg) := by
    intro value errMsg
    unfold answer
    rw [hinst]
    exact ((htouch.clearFlow _ clear).trans (same_send)).endTask t
  unfold conclude
  split
  · exact hanswer _ _
  · exact hanswer _ _
  · rename_i herr hdest
    simp [herr, hdest] at hr

/-- A tail call that does not keep the lock, up to `Same`. -/
theorem same_forward (h : Same s s') (herr : r.err = none)
    (hdest : r.dest = some (dest, method)) (hdeferral : deferral (s.threads t).after dest = none) :
    Same (((s.clearFlow (s.threads t).inst clear).continuing (State.continuation m dest method
        r.value false)).endTask t) (s'.conclude t target m clear r now) := by
  have htouch := h.trans (s'.same_touch (s'.threads t).inst target now)
  unfold conclude
  simp only [herr, hdest, tailCall]
  rw [htouch.threads, hdeferral]
  refine Same.endTask ?_ t
  have hclear := htouch.clearFlow (s.threads t).inst clear
  exact { hclear with
    sent := fun x hx => List.mem_append_left _ (hclear.sent x hx)
    inFlight := by simp only [continuing, sendContinuation, hclear.inFlight] }

/-- A tail call that keeps the lock, up to `Same`. -/
theorem same_defer (h : Same s s') (herr : r.err = none) (hdest : r.dest = some (dest, method))
    (hdeferral : deferral (s.threads t).after dest = some (next, c)) :
    Same ((((s.log .deferral t (next.flow != (s.instances (s.threads t).inst).activeFlow)).deferring
        next.deferredLockID c).continuing (State.continuation m dest method r.value true)).goto t
        .ended) (s'.conclude t target m clear r now) := by
  have htouch := h.trans (s'.same_touch (s'.threads t).inst target now)
  unfold conclude
  simp only [herr, hdest, tailCall]
  rw [htouch.threads, hdeferral]
  refine Same.goto ?_ t _
  exact { htouch with
    deferredLocks := by
      simp [continuing, deferring, sendContinuation, log, htouch.deferredLocks]
    sent := fun x hx => List.mem_append_left _ (htouch.sent x hx)
    inFlight := by
      simp [continuing, deferring, sendContinuation, log, htouch.inFlight]
    violations := by
      simp only [continuing, deferring, sendContinuation, log, htouch.violations,
        htouch.activeFlow] }

theorem enter_outcome (h : s.enter cfg t callerDead now = some s') :
    ∃ s₁, Outcome cfg s (.enter t callerDead now) s₁ ∧ Same s₁ s' := by
  unfold enter at h
  simp only at h
  split at h
  · rename_i target m clear hjob
    obtain ⟨hplace, h⟩ := Option.ite_none_right_eq_some.mp h
    split at h
    · rename_i hnone
      cases h
      exact ⟨_, .omitted (o := .undefined) hjob hplace hnone, (same_send).endTask t⟩
    rename_i handler hhandler
    split at h
    · rename_i hcancelled
      cases h
      exact ⟨_, .omitted (o := .cancelled) hjob hplace hcancelled,
        same_answer (s := s.passOver t .cancelled) (.refl _) (.inr rfl)⟩
    split at h
    · rename_i hmismatch
      cases h
      exact ⟨_, .mismatched hjob hplace (hmismatch.1 ▸ hhandler) hmismatch.2,
        same_answer (s := (s.entering t).log .entry t true) (.refl _) (.inl (by simp [flowMismatch]))⟩
    · rename_i hmatch
      cases h
      exact ⟨_, .entered hjob hplace hhandler fun hactor =>
        Decidable.of_not_not fun hne => hmatch ⟨hactor, hne⟩, .refl _⟩
  · simp at h

theorem finish_outcome (h : s.finish cfg t r delete activated now = some s') :
    ∃ s₁, Outcome cfg s (.finish t r delete activated now) s₁ ∧ Same s₁ s' := by
  unfold finish at h
  simp only at h
  split at h
  · rename_i target m clear hjob
    obtain ⟨hplace, h⟩ := Option.ite_none_right_eq_some.mp h
    have hset : Same s (s.setInstance (s.threads t).inst { s.instances (s.threads t).inst with
        activated := activated }) := s.same_setInstance rfl rfl rfl rfl rfl
    have hlog := hset.log .exit t ((cfg.handlersSession m.method == some .actor && !delete) &&
        (s.instances (s.threads t).inst).activeFlow != target.flow)
    have hflow : ((s.setInstance (s.threads t).inst { s.instances (s.threads t).inst with activated
        := activated }).instances (s.threads t).inst).activeFlow = (s.instances (s.threads
        t).inst).activeFlow := hset.activeFlow _
    rw [hflow] at h
    cases h
    by_cases hr : r.err ≠ none ∨ r.dest = none
    · exact ⟨_, .answered hjob hplace hr, same_answer hlog hr⟩
    simp only [not_or, not_not] at hr
    obtain ⟨herr, hdest⟩ := hr
    obtain ⟨⟨dest, method⟩, hdest⟩ := Option.ne_none_iff_exists'.mp hdest
    cases hdeferral : deferral (s.threads t).after dest with
    | none =>
      exact ⟨_, .forwarded hjob hplace herr hdest hdeferral, same_forward hlog herr hdest hdeferral⟩
    | some pair =>
      obtain ⟨next, c⟩ := pair
      exact ⟨_, .deferred hjob hplace herr hdest hdeferral, same_defer hlog herr hdest hdeferral⟩
  · simp at h

theorem pass_outcome (h : s.pass t = some s') : Outcome cfg s (.pass t) s' := by
  unfold pass at h
  simp only at h
  split at h
  · simp at h
  rename_i c hc
  obtain ⟨hguard, h⟩ := Option.ite_none_right_eq_some.mp h
  obtain ⟨hsends, hfull, hclosed⟩ := hguard
  split at h
  · rename_i hplace hjob
    cases h
    exact .released hjob hc hplace hfull hclosed
  rename_i hother
  cases h
  refine .relayed hc hsends (fun hplace => ?_) hfull hclosed
  cases hjob : (s.threads t).job with
  | request target m clear => exact absurd hjob (hother target m clear hplace)
  | deactivation => rfl

theorem collect_outcome (h : s.collect i time = some s') :
    Outcome cfg s (.collect i time) s' := by
  obtain ⟨hguard, rfl⟩ := of_guard h
  exact .collected hguard.1 hguard.2.1 hguard.2.2.1 hguard.2.2.2

theorem deactivating_iff : s.deactivating t p = true ↔
    (s.threads t).job = .deactivation ∧ (s.threads t).place = p := by
  simp [deactivating]

theorem claim_outcome (h : s.claim t uuid = some s') :
    Outcome cfg s (.claim t uuid) s' := by
  obtain ⟨hguard, h⟩ := Option.ite_none_right_eq_some.mp h
  rw [deactivating_iff] at hguard
  cases h
  exact .claimed hguard.1 hguard.2

theorem probe_outcome (h : s.probe t = some s') : Outcome cfg s (.probe t) s' := by
  obtain ⟨hguard, h⟩ := Option.ite_none_right_eq_some.mp h
  rw [deactivating_iff] at hguard
  cases h
  exact .probed hguard.1.1 hguard.1.2

theorem beginCallback_outcome (h : s.beginCallback t = some s') :
    Outcome cfg s (.beginCallback t) s' := by
  unfold beginCallback at h
  split at h
  · rename_i can hplace
    cases h
    refine .began hplace ?_
    split
    · rename_i hcan
      exact .inl ⟨rfl, hcan.1⟩
    · exact .inr rfl
  · simp at h

theorem callbackDone_outcome (h : s.callbackDone t activated = some s') :
    ∃ s₁, Outcome cfg s (.callbackDone t activated) s₁ ∧ Same s₁ s' := by
  obtain ⟨hplace, rfl⟩ := of_guard h
  refine ⟨_, .calledBack hplace, Same.goto ?_ t .settling⟩
  exact s.same_setInstance rfl rfl rfl rfl rfl

theorem settle_outcome (h : s.settle t = some s') : Outcome cfg s (.settle t) s' := by
  obtain ⟨hguard, h⟩ := Option.ite_none_right_eq_some.mp h
  split at h
  · cases h
    exact .retired hguard.1 ‹_›
  · rename_i hlast
    cases h
    exact .aborted hguard.1 (eq_false_of_ne_true hlast)

theorem remove_outcome (h : s.remove t = some s') : Outcome cfg s (.remove t) s' := by
  obtain ⟨_, rfl⟩ := of_guard h
  exact .removed ‹_›

theorem close_outcome (h : s.close t = some s') : Outcome cfg s (.close t) s' := by
  unfold close at h
  split at h
  · rename_i c hplace hc
    cases h
    exact .closed hplace hc
  · simp at h

/-- Every step is one of the outcomes. -/
theorem step_outcome (h : step cfg s e = some s') :
    ∃ s₁, Outcome cfg s e s₁ ∧ Same s₁ s' := by
  cases e with
  | accept => exact accept_outcome h
  | schedule => exact ⟨s', .scheduled h, .refl s'⟩
  | receive => exact ⟨s', receive_outcome h, .refl s'⟩
  | timeout => exact ⟨s', timeout_outcome h, .refl s'⟩
  | awaitChild => exact ⟨s', awaitChild_outcome h, .refl s'⟩
  | childDone => exact ⟨s', childDone_outcome h, .refl s'⟩
  | acquire => exact ⟨s', acquire_outcome h, .refl s'⟩
  | enter => exact enter_outcome h
  | finish => exact finish_outcome h
  | pass => exact ⟨s', pass_outcome h, .refl s'⟩
  | collect => exact ⟨s', collect_outcome h, .refl s'⟩
  | claim => exact ⟨s', claim_outcome h, .refl s'⟩
  | probe => exact ⟨s', probe_outcome h, .refl s'⟩
  | beginCallback => exact ⟨s', beginCallback_outcome h, .refl s'⟩
  | callbackDone => exact callbackDone_outcome h
  | settle => exact ⟨s', settle_outcome h, .refl s'⟩
  | remove => exact ⟨s', remove_outcome h, .refl s'⟩
  | close => exact ⟨s', close_outcome h, .refl s'⟩

end Inversion

end Scheduler

end Kar.Rpc
