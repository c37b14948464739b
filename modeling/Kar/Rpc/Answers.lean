import Kar.Rpc.Serving

/-!
# One message per request

Whatever becomes of a request, `accept` and the goroutine it starts pass one message for it to
`Send`: a response to the caller of a call, a completion record for a tell, or a request with the
next sequence number.  The code that does so is repeated in every branch of `accept` and
`handleSessionRequest`.

`Desk` is a node with all of its goroutines: those of the session scheduler and those of requests
to services.  It records which requests were given to `accept`, and which messages were passed to
`Send` by which goroutine.  `Concludes m msg` says that `msg` is a message that ends the request
`m` on this node.
-/

namespace Kar.Rpc

open Kar.Lib List

/-- The message ends the request: it is its response, its completion record, or its
continuation. -/
def Concludes : Request → Message → Prop
  | .call m, .response r => r.requestID = m.requestID ∧ r.node = m.caller
  | .tell m, .done r => r.requestID = m.requestID
  | .call m, .request (.call v) =>
    v.requestID = m.requestID ∧ v.caller = m.caller ∧ v.sequence = m.sequence + 1
  | .tell m, .request (.tell v) => v.requestID = m.requestID ∧ v.sequence = m.sequence + 1
  | _, _ => False

/-- Exactly one message has been sent for the request, and it ends it. -/
def EndedBy (m : Request) (msgs : List Message) : Prop := ∃ msg, msgs = [msg] ∧ Concludes m msg

/-- The request is for a service or an actor. -/
def Request.replayed (m : Request) : Prop := ∀ id, m.target ≠ .node id

theorem endedBy_final {m : Request} (hm : m.replayed) :
    EndedBy m (State.final m value errMsg).toList := by
  cases m with
  | call => exact ⟨_, rfl, rfl, rfl⟩
  | tell m =>
    refine ⟨.done { requestID := m.requestID, deadline := m.deadline }, ?_, rfl⟩
    cases htarget : m.target with
    | service => simp [State.final, htarget]
    | session => simp [State.final, htarget]
    | node id => exact absurd htarget (hm id)

theorem endedBy_continuation :
    EndedBy m [.request (State.continuation m dest method value deferred)] := by
  cases m with
  | call => exact ⟨_, rfl, rfl, rfl, rfl⟩
  | tell => exact ⟨_, rfl, rfl, rfl⟩

theorem replayed_of_session {m : Request} {target : Session}
    (h : m.target.session? = some target) : m.replayed := by
  intro id hid
  simp [hid, Target.session?] at h

/-! ## What a step of the scheduler sends -/

namespace Scheduler

/-- The messages that a step from `s` to `s'` passes to `Send`. -/
def emitted (s s' : Scheduler) : List Message := s'.sent.drop s.sent.length

section Sent

variable {s s' : Scheduler}

theorem emitted_eq {msgs : List Message} (h : s'.sent = s.sent ++ msgs) : s.emitted s' = msgs := by
  rw [emitted, h, drop_left]

theorem emitted_same (h : s'.sent = s.sent) : s.emitted s' = [] :=
  emitted_eq (h.trans (append_nil _).symm)

@[simp] theorem sent_touch : (s.touch i target now).sent = s.sent := by
  unfold touch
  split <;> rfl

@[simp] theorem sent_answer :
    (s.answer t m clear value errMsg).sent = s.sent ++ (State.final m value errMsg).toList := by
  cases clear <;> rfl

theorem sent_tailCall : ∃ deferred,
    (s.tailCall t m clear dest method value).sent =
      s.sent ++ [.request (State.continuation m dest method value deferred)] := by
  unfold tailCall
  simp only
  split
  · exact ⟨true, rfl⟩
  · exact ⟨false, by cases clear <;> rfl⟩

/-- The end of `handleSessionRequest` sends one message. -/
theorem sent_conclude (hm : m.replayed) :
    ∃ msgs, (s.conclude t target m clear r now).sent = s.sent ++ msgs ∧ EndedBy m msgs := by
  unfold conclude
  cases herr : r.err with
  | some err =>
    exact ⟨(State.final m r.value err).toList, by simp, endedBy_final hm⟩
  | none =>
    cases hdest : r.dest with
    | none => exact ⟨(State.final m r.value "").toList, by simp, endedBy_final hm⟩
    | some p =>
      obtain ⟨deferred, hsent⟩ : ∃ deferred, ((s.touch (s.threads t).inst target now).tailCall t m
          clear p.1 p.2 r.value).sent = (s.touch (s.threads t).inst target now).sent ++ [.request
          (State.continuation m p.1 p.2 r.value deferred)] := sent_tailCall
      exact ⟨_, by simpa using hsent, endedBy_continuation⟩

/-- A request that is answered is not in its handler. -/
theorem place_answer :
    ((s.answer t m clear value errMsg).threads t).place ≠ .running := by
  rw [answer, endTask, goto_place_self]
  split <;> simp

theorem place_conclude (hr : r.err ≠ none ∨ r.dest = none) :
    ((s.conclude t target m clear r now).threads t).place ≠ .running := by
  unfold conclude
  split
  · exact place_answer
  · exact place_answer
  · simp_all

theorem emitted_timeout (hs : s.timeout cfg t = some s') : ∃ target m clear,
    (s.threads t).job = .request target m clear ∧ (s.threads t).place = .waiting ∧
      (m.replayed → EndedBy m (s.emitted s')) := by
  unfold timeout at hs
  cases hjob : (s.threads t).job with
  | deactivation => simp [hjob] at hs
  | request target m clear =>
    simp only [hjob] at hs
    obtain ⟨hguard, hs⟩ := Option.ite_none_right_eq_some.mp hs
    refine ⟨target, m, clear, rfl, hguard.2, fun hm => ?_⟩
    have hsent : s'.sent = s.sent ++ possibleDeadlock m target := by
      cases hs
      rfl
    rw [emitted_eq hsent]
    exact endedBy_final hm

/-- The call of the handler sends a message if the handler is not called. -/
theorem emitted_enter {callerDead : Bool} (hs : s.enter cfg t callerDead now = some s') :
    ∃ target m clear, (s.threads t).job = .request target m clear ∧ (s.threads t).place = .acquired
      ∧ (m.replayed → if (s'.threads t).place = .running then s.emitted s' = [] else EndedBy m
      (s.emitted s')) := by
  unfold enter at hs
  cases hjob : (s.threads t).job with
  | deactivation => simp [hjob] at hs
  | request target m clear =>
    simp only [hjob] at hs
    obtain ⟨hplace, hs⟩ := Option.ite_none_right_eq_some.mp hs
    refine ⟨target, m, clear, rfl, hplace, fun hm => ?_⟩
    split at hs
    · have heq := Option.some.inj hs
      rw [if_neg (heq ▸ place_answer)]
      rw [emitted_eq (s := s) (by rw [← heq, sent_answer]; rfl)]
      exact endedBy_final hm
    split at hs
    · have heq := Option.some.inj hs
      rw [if_neg (heq ▸ place_conclude (.inr rfl))]
      obtain ⟨msgs, hsent, hended⟩ := sent_conclude hm
      rw [emitted_eq (s := s) (by rw [← heq, hsent]; rfl)]
      exact hended
    split at hs
    · have heq := Option.some.inj hs
      rw [if_neg (heq ▸ place_conclude (.inl (by simp [flowMismatch])))]
      obtain ⟨msgs, hsent, hended⟩ := sent_conclude hm
      rw [emitted_eq (s := s) (by rw [← heq, hsent]; rfl)]
      exact hended
    · rw [← Option.some.inj hs, if_pos (goto_place_self ..)]
      exact emitted_same rfl

theorem emitted_finish {delete activated : Bool}
    (hs : s.finish cfg t r delete activated now = some s') : ∃ target m clear,
    (s.threads t).job = .request target m clear ∧ (s.threads t).place = .running ∧
      (m.replayed → EndedBy m (s.emitted s')) := by
  unfold finish at hs
  cases hjob : (s.threads t).job with
  | deactivation => simp [hjob] at hs
  | request target m clear =>
    simp only [hjob] at hs
    obtain ⟨hplace, hs⟩ := Option.ite_none_right_eq_some.mp hs
    refine ⟨target, m, clear, rfl, hplace, fun hm => ?_⟩
    obtain ⟨msgs, hsent, hended⟩ := sent_conclude hm
    rw [emitted_eq (s := s) (by rw [← Option.some.inj hs, hsent]; rfl)]
    exact hended

theorem emitted_accept (hs : s.accept m now = some s') : m.replayed ∧
    if m.expired now then EndedBy m (s.emitted s') else s.emitted s' = [] := by
  unfold accept at hs
  split at hs
  · rename_i target hloading htarget
    have hm := replayed_of_session htarget
    refine ⟨hm, ?_⟩
    split at hs
    · rename_i hexpired
      rw [if_pos hexpired, emitted_eq (s := s) (by rw [← Option.some.inj hs]; rfl)]
      exact endedBy_final hm
    · rename_i hexpired
      rw [if_neg hexpired]
      exact emitted_same (by rw [← Option.some.inj hs])
  · simp at hs

/-- The other steps send nothing. -/
theorem sent_of_step (h : Wf s) (hs : step cfg s e = some s') (hsilent : e.accepts = false)
    (htimeout : ∀ t, e ≠ .timeout t) (henter : ∀ t callerDead now, e ≠ .enter t callerDead now)
    (hfinish : ∀ t r delete activated now, e ≠ .finish t r delete activated now) :
    s'.sent = s.sent := by
  cases e with
  | accept => simp [SchedulerEvent.accepts] at hsilent
  | timeout t => exact absurd rfl (htimeout t)
  | enter t callerDead now => exact absurd rfl (henter t callerDead now)
  | finish t r delete activated now => exact absurd rfl (hfinish t r delete activated now)
  | schedule =>
    obtain ⟨l, -, ⟨i, -, -, ha⟩ | ⟨-, ha⟩⟩ := h.schedule_cases hs <;> cases ha <;> rfl
  | callbackDone =>
    obtain ⟨-, rfl⟩ := of_guard hs
    rfl
  | receive =>
    cases (receive_outcome hs : Outcome cfg s _ s')
    rfl
  | awaitChild =>
    cases (awaitChild_outcome hs : Outcome cfg s _ s')
    rfl
  | childDone =>
    cases (childDone_outcome hs : Outcome cfg s _ s')
    rfl
  | acquire => cases (acquire_outcome hs : Outcome cfg s _ s') <;> rfl
  | pass => cases (pass_outcome hs : Outcome cfg s _ s') <;> rfl
  | collect =>
    cases (collect_outcome hs : Outcome cfg s _ s')
    rfl
  | claim =>
    cases (claim_outcome hs : Outcome cfg s _ s')
    rfl
  | probe =>
    cases (probe_outcome hs : Outcome cfg s _ s')
    rfl
  | beginCallback =>
    cases (beginCallback_outcome hs : Outcome cfg s _ s')
    rfl
  | settle => cases (settle_outcome hs : Outcome cfg s _ s') <;> rfl
  | remove =>
    cases (remove_outcome hs : Outcome cfg s _ s')
    rfl
  | close =>
    cases (close_outcome hs : Outcome cfg s _ s')
    rfl

/-- A step sends one message if it answers a request, and none otherwise. -/
theorem emitted_of_step (h : Wf s) (htargets : Targets s) (hs : step cfg s e = some s')
    (haccepts : e.accepts = false) :
    (∃ t target m clear, (s.threads t).job = .request target m clear ∧
      (s.threads t).place.unanswered = true ∧ e.thread? = some t ∧ s'.answers t e = true ∧
      EndedBy m (s.emitted s')) ∨
    (∀ u, s'.answers u e = false) ∧ s.emitted s' = [] := by
  have hreplayed : ∀ {t target m clear}, (s.threads t).job = .request target m clear →
      (s.threads t).place.unanswered = true → m.replayed := by
    intro t target m clear hjob hplace
    refine replayed_of_session (htargets.thread t target m clear (h.lt_of_place ?_) hjob)
    intro hended
    simp [hended, Place.unanswered] at hplace
  cases e with
  | accept => simp [SchedulerEvent.accepts] at haccepts
  | timeout t =>
    obtain ⟨target, m, clear, hjob, hplace, hsent⟩ := emitted_timeout hs
    have hunanswered : (s.threads t).place.unanswered = true := by rw [hplace]; rfl
    exact .inl ⟨t, target, m, clear, hjob, hunanswered, rfl, by simp [answers],
      hsent (hreplayed hjob hunanswered)⟩
  | enter t =>
    obtain ⟨target, m, clear, hjob, hplace, hsent⟩ := emitted_enter hs
    have hunanswered : (s.threads t).place.unanswered = true := by rw [hplace]; rfl
    have hsent := hsent (hreplayed hjob hunanswered)
    by_cases hrunning : (s'.threads t).place = .running
    · rw [if_pos hrunning] at hsent
      exact .inr ⟨by simp [answers, hrunning], hsent⟩
    · rw [if_neg hrunning] at hsent
      exact .inl ⟨t, target, m, clear, hjob, hunanswered, rfl, by simp [answers, hrunning], hsent⟩
  | finish t =>
    obtain ⟨target, m, clear, hjob, hplace, hsent⟩ := emitted_finish hs
    have hunanswered : (s.threads t).place.unanswered = true := by rw [hplace]; rfl
    exact .inl ⟨t, target, m, clear, hjob, hunanswered, rfl, by simp [answers],
      hsent (hreplayed hjob hunanswered)⟩
  | _ =>
    exact .inr ⟨fun _ => rfl, emitted_same (sent_of_step h hs rfl (by simp) (by simp) (by simp))⟩

end Sent

/-! ## The requests of the goroutines -/

/-- The requests that have a goroutine. -/
def requests (s : Scheduler) : List Request :=
  (List.range s.numThreads).filterMap fun t => (s.threads t).job.message?

section Requests

theorem requests_kept (h : Kept s s') (hnum : s'.numThreads = s.numThreads) :
    s'.requests = s.requests := by
  rw [requests, hnum]
  refine filterMap_congr fun t ht => ?_
  rw [h.job t (mem_range.mp ht)]

theorem requests_spawned (h : Kept s s') (hnum : s'.numThreads = s.numThreads + 1) :
    s'.requests = s.requests ++ (s'.threads s.numThreads).job.message?.toList := by
  rw [requests, hnum, range_succ, filterMap_append]
  congr 1
  refine filterMap_congr fun t ht => ?_
  rw [h.job t (mem_range.mp ht)]

/-- The request that was looked up gets its goroutine. -/
theorem requests_of_schedule (h : Wf s) (hs : step cfg s .schedule = some s') :
    ∃ l, s.loading = some l ∧ s'.loading = none ∧ s'.requests = s.requests ++ [l.m] := by
  obtain ⟨l, hl, hcases⟩ := h.schedule_cases hs
  have hspawned : s'.numThreads = s.numThreads + 1 ∧ s'.loading = none ∧
      ∃ clear, (s'.threads s.numThreads).job = .request l.target l.m clear := by
    rcases hcases with ⟨i, -, -, ha⟩ | ⟨-, ha⟩
    · exact Targets.arrival_spawned ha
    · exact Targets.arrival_spawned ha
  obtain ⟨hnum, hloading, clear, hjob⟩ := hspawned
  refine ⟨l, hl, hloading, ?_⟩
  rw [requests_spawned (Kept.step h hs) hnum, hjob, Job.message?, Option.toList_some]

/-- The other steps start no request. -/
theorem requests_of_step (h : Wf s) (hs : step cfg s e = some s') (haccepts : e.accepts = false)
    (hne : e ≠ .schedule) : s'.loading = s.loading ∧ s'.requests = s.requests := by
  obtain ⟨s₁, ho, hsame⟩ := step_outcome hs
  have haccept : ∀ m now, e ≠ .accept m now := by
    intro m now he
    simp [he, SchedulerEvent.accepts] at haccepts
  refine ⟨hsame.loading.trans (loading_eq_of_outcome ho haccept hne), ?_⟩
  have hkept := Kept.step h hs
  have hstarted : ∀ t, s.numThreads ≤ t → t < s'.numThreads →
      t = s.numThreads ∧ (s'.threads t).job = .deactivation := by
    intro t hge hlt
    rw [hsame.numThreads] at hlt
    obtain ⟨ht, hjob | ⟨he, -⟩⟩ := started_of_outcome h ho hge hlt
    · rw [hsame.threads]
      exact ⟨ht, hjob⟩
    · exact absurd he hne
  by_cases hnum : s'.numThreads = s.numThreads
  · exact requests_kept hkept hnum
  have hle := hkept.numThreads
  have hlast := (hstarted (s'.numThreads - 1) (by omega) (by omega)).1
  have hjob := (hstarted s.numThreads (Nat.le_refl _) (by omega)).2
  rw [requests_spawned hkept (by omega), hjob]
  exact append_nil _

/-- The goroutine of a request starts before its handler is called. -/
theorem unanswered_of_started (h : Wf s) (hs : step cfg s e = some s') {t : Nat}
    (hge : s.numThreads ≤ t) (hlt : t < s'.numThreads) (hjob : (s'.threads t).job ≠ .deactivation) :
    (s'.threads t).place.unanswered = true := by
  obtain ⟨s₁, ho, hsame⟩ := step_outcome hs
  rw [hsame.numThreads] at hlt
  rw [hsame.threads] at hjob ⊢
  obtain ⟨rfl, hdeactivation | ⟨-, hsch⟩⟩ := started_of_outcome h ho hge hlt
  · exact absurd hdeactivation hjob
  · obtain ⟨l, -, ⟨i, -, -, ha⟩ | ⟨-, ha⟩⟩ := h.schedule_cases hsch <;> cases ha <;>
      simp [resume, bypass, enqueue, spawn, setInstance, newInstance, unloaded, Place.unanswered]

end Requests

/-- What `accept` leaves of a request to an actor. -/
theorem accept_cases {s s' : Scheduler} {m : Request} {now : Int} (hs : s.accept m now = some s') :
    s'.threads = s.threads ∧ s'.numThreads = s.numThreads ∧ s.loading = none ∧
      s'.loading.toList.map Loading.m = if m.expired now then [] else [m] := by
  unfold accept at hs
  split at hs
  · rename_i target hloading htarget
    split at hs
    · rename_i hexpired
      rw [← Option.some.inj hs, if_pos hexpired]
      exact ⟨rfl, rfl, hloading, by simp [send, hloading]⟩
    · rename_i hexpired
      rw [← Option.some.inj hs, if_neg hexpired]
      exact ⟨rfl, rfl, hloading, rfl⟩
  · simp at hs

/-! ## The steps of a goroutine -/

/-- The goroutine waits for its turn, for a child, or for its handler. -/
def blocked (s : Scheduler) (t : Nat) : Bool :=
  match (s.threads t).place, (s.threads t).before with
  | .waiting, some c => !s.full c && !s.closed c
  | .awaiting, _ | .running, _ => true
  | _, _ => false

/-- A goroutine that is not blocked has a step to take. -/
theorem enabled_of_unanswered {s : Scheduler} (h : Wf s) {t : Nat}
    {target : Session} {m : Request} {clear : Bool} (hjob : (s.threads t).job = .request target m clear)
    (hplace : (s.threads t).place.unanswered = true) (hblocked : s.blocked t = false) :
    ∃ e, e.thread? = some t ∧ (step cfg s e).isSome = true := by
  cases hp : (s.threads t).place with
  | waiting =>
    cases hbefore : (s.threads t).before with
    | none => exact absurd hbefore (h.waits t (by simp [hp, Place.waits]))
    | some c =>
      refine ⟨.receive t, rfl, ?_⟩
      have hturn : s.full c = true ∨ s.closed c = true := by
        simp only [blocked, hp, hbefore, Bool.and_eq_false_iff, Bool.not_eq_false'] at hblocked
        exact hblocked
      simp [step, receive, hp, hbefore, hturn]
  | arrived =>
    by_cases hchild : m.childID = ""
    · refine ⟨.acquire t, rfl, ?_⟩
      by_cases hbefore : (s.threads t).before = none <;>
        simp [step, acquire, hjob, hp, hchild, hbefore]
    · exact ⟨.awaitChild t, rfl, by simp [step, awaitChild, hjob, hp, hchild]⟩
  | resumed =>
    refine ⟨.acquire t, rfl, ?_⟩
    by_cases hbefore : (s.threads t).before = none <;> simp [step, acquire, hjob, hp, hbefore]
  | acquired =>
    refine ⟨.enter t false 0, rfl, ?_⟩
    cases hhandler : cfg.handlersSession m.method with
    | none => simp [step, enter, hjob, hp, hhandler]
    | some handler =>
      by_cases hflow : handler = .actor ∧ (s.instances (s.threads t).inst).activeFlow ≠ target.flow
        <;> simp [step, enter, hjob, hp, hhandler, hflow]
  | _ => simp_all [blocked, Place.unanswered]

end Scheduler

/-! ## A node with all of its goroutines -/

/-- Where the goroutine of a request to a service stands. -/
inductive ServicePlace
  /-- Before the receive on `waitForChild`. -/
  | awaiting
  | resumed
  | running
  | ended
  deriving DecidableEq, Repr

def ServicePlace.stage : ServicePlace → Nat
  | awaiting => 0
  | resumed => 1
  | running => 2
  | ended => 3

/-- The goroutine that `accept` starts for a request to a service. -/
structure ServiceTask where
  m : Request
  place : ServicePlace
  /-- What it has passed to `Send`. -/
  sent : List Message
  deriving DecidableEq, Repr

structure DeskConfig extends SchedulerConfig where
  /-- `handlersService[method] != nil` -/
  handlersService : String → Bool

inductive ServiceEvent
  | childDone
  /-- The look-up and the call of the handler. -/
  | call
  | returns (value : List UInt8) (err : Option String)
  deriving DecidableEq, Repr

namespace ServiceTask

def start (m : Request) : ServiceTask where
  m := m
  place := if m.childID = "" then .resumed else .awaiting
  sent := []

/-- The request is answered. -/
def answer (task : ServiceTask) (value : List UInt8) (errMsg : String) : ServiceTask where
  m := task.m
  place := .ended
  sent := task.sent ++ (State.final task.m value errMsg).toList

def step (cfg : DeskConfig) (task : ServiceTask) : ServiceEvent → Option ServiceTask
  | .childDone => if task.place = .awaiting then some { task with place := .resumed } else none
  | .call =>
    if task.place = .resumed then
      if cfg.handlersService task.m.method then some { task with place := .running }
      else some (task.answer [] ("undefined method " ++ task.m.method))
    else none
  | .returns value err =>
    if task.place = .running then some (task.answer value (err.getD "")) else none

end ServiceTask

/-- A node.  The fields after `services` record what has happened, and no step reads them. -/
structure Desk where
  node : Scheduler
  services : List ServiceTask
  accepted : List Request
  /-- The requests that `accept` answers at once, and what is sent for them. -/
  expired : List (Request × List Message)
  /-- What the goroutines of the scheduler have passed to `Send`. -/
  answers : Nat → List Message
  /-- What is passed to `Send` by none of these goroutines. -/
  others : List Message

inductive DeskEvent
  | accept (m : Request) (now : Int)
  | session (e : SchedulerEvent)
  | service (j : Nat) (e : ServiceEvent)
  deriving DecidableEq, Repr

namespace Desk

open Scheduler (Wf Targets Kept requests)

def init : Desk where
  node := .init
  services := []
  accepted := []
  expired := []
  answers := fun _ => []
  others := []

variable (d : Desk)

/-- `accept` of a request to a service.  It is not called while `acceptSession` waits. -/
def acceptService (m : Request) (now : Int) : Option Desk :=
  if d.node.loading = none then
    if m.expired now then
      some { d with
        accepted := d.accepted ++ [m]
        expired := d.expired ++ [(m, deadlineExpired m now)] }
    else some { d with
      accepted := d.accepted ++ [m]
      services := d.services ++ [.start m] }
  else none

/-- `accept` of a request to an actor. -/
def acceptSession (m : Request) (now : Int) : Option Desk :=
  (d.node.accept m now).map fun node =>
    if m.expired now then
      { d with
        node := node
        accepted := d.accepted ++ [m]
        expired := d.expired ++ [(m, d.node.emitted node)] }
    else { d with
      node := node
      accepted := d.accepted ++ [m]
      others := d.others ++ d.node.emitted node }

/-- What a step sends is credited to the goroutine that takes it. -/
def credit (e : SchedulerEvent) (node : Scheduler) : Desk :=
  match e.thread? with
  | some t => { d with
      node := node
      answers := Function.update d.answers t (d.answers t ++ d.node.emitted node) }
  | none => { d with node := node, others := d.others ++ d.node.emitted node }

def step (cfg : DeskConfig) (d : Desk) : DeskEvent → Option Desk
  | .accept m now =>
    match m.target with
    | .service _ => d.acceptService m now
    | .session _ _ _ _ => d.acceptSession m now
    | .node _ => none
  | .session e =>
    if e.accepts then none
    else (Scheduler.step cfg.toSchedulerConfig d.node e).map (d.credit e)
  | .service j e =>
    match d.services[j]? with
    | none => none
    | some task => (task.step cfg e).map fun task' => { d with services := d.services.set j task' }

/-- The requests that have a goroutine, or are about to get one. -/
def held : List Request :=
  d.node.loading.toList.map Loading.m ++ d.node.requests ++ d.services.map ServiceTask.m

section Credit

variable {d : Desk} {node : Scheduler}

@[simp] theorem credit_node : (d.credit e node).node = node := by
  unfold credit
  split <;> rfl

theorem credit_answers : (d.credit e node).answers u =
    if e.thread? = some u then d.answers u ++ d.node.emitted node else d.answers u := by
  unfold credit
  split
  · rename_i t ht
    by_cases hut : u = t
    · simp [ht, hut]
    · simp [ht, hut, Ne.symm hut]
  · rename_i ht
    simp [ht]

theorem credit_others : (d.credit e node).others =
    if e.thread? = none then d.others ++ d.node.emitted node else d.others := by
  unfold credit
  split
  · rename_i t ht
    simp [ht]
  · rename_i ht
    simp [ht]

end Credit

/-- What has been sent for the requests of a node. -/
structure Accounted (d : Desk) : Prop where
  perm : d.accepted.Perm (d.expired.map Prod.fst ++ d.held)
  expired : ∀ p ∈ d.expired, EndedBy p.1 p.2
  fresh : ∀ t, d.node.numThreads ≤ t → d.answers t = []
  deactivation : ∀ t, t < d.node.numThreads → (d.node.threads t).job = .deactivation →
    d.answers t = []
  request : ∀ t target m clear, t < d.node.numThreads →
    (d.node.threads t).job = .request target m clear →
    if (d.node.threads t).place.unanswered then d.answers t = [] else EndedBy m (d.answers t)
  service : ∀ task ∈ d.services, task.m.replayed ∧
    if task.place = .ended then EndedBy task.m task.sent else task.sent = []
  others : d.others = []

namespace Accounted

variable {cfg : DeskConfig} {d d' : Desk}

theorem init : Accounted init where
  perm := by simp [Desk.init, held, Scheduler.init, requests]
  expired := by simp [Desk.init]
  fresh := fun _ _ => rfl
  deactivation := fun _ _ _ => rfl
  request := by simp [Desk.init, Scheduler.init]
  service := by simp [Desk.init]
  others := rfl

/-- The requests of the scheduler after a step. -/
theorem held_credit (hwf : Wf d.node) {e : SchedulerEvent} {node : Scheduler}
    (hs : Scheduler.step cfg.toSchedulerConfig d.node e = some node) (haccepts : e.accepts = false) :
    (d.credit e node).held.Perm d.held := by
  have hservices : (d.credit e node).services = d.services := by
    unfold credit
    split <;> rfl
  rw [held, held, hservices, credit_node]
  refine List.Perm.append_right _ ?_
  by_cases he : e = .schedule
  · subst he
    obtain ⟨l, hl, hloading, hrequests⟩ := Scheduler.requests_of_schedule hwf hs
    simp [hl, hloading, hrequests]
  · obtain ⟨hloading, hrequests⟩ := Scheduler.requests_of_step hwf hs haccepts he
    rw [hloading, hrequests]

/-- A step of the scheduler. -/
theorem session (h : Accounted d) (hwf : Wf d.node) (htargets : Targets d.node)
    {e : SchedulerEvent} {node : Scheduler}
    (hs : Scheduler.step cfg.toSchedulerConfig d.node e = some node) (haccepts : e.accepts = false) :
    Accounted (d.credit e node) := by
  have hkept := Kept.step hwf hs
  have hcases := Scheduler.emitted_of_step hwf htargets hs haccepts
  -- Only the goroutine of a request sends a message.
  have hsilent : ∀ u, (∀ target m clear, (d.node.threads u).job ≠ .request target m clear) ∨
      node.answers u e = false → (d.credit e node).answers u = d.answers u := by
    intro u hu
    rw [credit_answers]
    split
    · rename_i hthread
      rcases hcases with ⟨t, target, m, clear, hjob, -, ht, hanswers, -⟩ | ⟨-, hemitted⟩
      · obtain rfl : u = t := Option.some.inj (hthread.symm.trans ht)
        rcases hu with hu | hu
        · exact absurd hjob (hu target m clear)
        · simp [hanswers] at hu
      · rw [hemitted, append_nil]
    · rfl
  have hnew : ∀ u, d.node.numThreads ≤ u → (d.credit e node).answers u = [] := by
    intro u hu
    rw [hsilent u (.inr ?_), h.fresh u hu]
    rcases hcases with ⟨t, target, m, clear, -, hplace, ht, -⟩ | ⟨hanswers, -⟩
    · refine Scheduler.answers_of_ne ht ?_
      rintro rfl
      simp [(hwf.fresh u hu).2.2, Place.unanswered] at hplace
    · exact hanswers u
  constructor
  case perm =>
    have haccepted : (d.credit e node).accepted = d.accepted := by
      unfold credit
      split <;> rfl
    have hexpired : (d.credit e node).expired = d.expired := by
      unfold credit
      split <;> rfl
    rw [haccepted, hexpired]
    exact h.perm.trans ((held_credit hwf hs haccepts).symm.append_left _)
  case expired =>
    unfold credit
    split <;> exact h.expired
  case fresh =>
    intro u hu
    rw [credit_node] at hu
    exact hnew u (Nat.le_trans hkept.numThreads hu)
  case deactivation =>
    intro u hlt hjob
    rw [credit_node] at hjob
    by_cases hold : u < d.node.numThreads
    · rw [hkept.job u hold] at hjob
      rw [hsilent u (.inl (by simp [hjob])), h.deactivation u hold hjob]
    · exact hnew u (Nat.le_of_not_lt hold)
  case request =>
    intro u target m clear hlt hjob
    rw [credit_node] at hlt hjob ⊢
    by_cases hold : u < d.node.numThreads
    · rw [hkept.job u hold] at hjob
      have hserving := Scheduler.serving_of_step hwf hs hold
      have hrequest := h.request u target m clear hold hjob
      cases hanswers : node.answers u e with
      | false =>
        rw [hsilent u (.inr hanswers)]
        have hplace := Bool.eq_iff_iff.mpr ⟨fun hp => (hserving.unanswered hp).1, fun hp =>
          hserving.kept (by simp [hjob]) hp hanswers⟩
        rw [hplace]
        exact hrequest
      | true =>
        rcases hcases with ⟨t, target', m', clear', hjob', hplace, ht, -, hended⟩ | ⟨hno, -⟩
        · obtain rfl : u = t := by
            refine Decidable.byContradiction fun hut => ?_
            rw [Scheduler.answers_of_ne ht hut] at hanswers
            simp at hanswers
          obtain ⟨-, rfl, -⟩ := Job.request.inj (hjob'.symm.trans hjob)
          rw [if_pos hplace] at hrequest
          have hanswered : (node.threads u).place.unanswered ≠ true := by
            intro hp
            rw [(hserving.unanswered hp).2] at hanswers
            simp at hanswers
          rw [if_neg hanswered, credit_answers, if_pos ht, hrequest, nil_append]
          exact hended
        · rw [hno u] at hanswers
          simp at hanswers
    · rw [if_pos (Scheduler.unanswered_of_started hwf hs (Nat.le_of_not_lt hold) hlt (by simp [hjob]))]
      exact hnew u (Nat.le_of_not_lt hold)
  case service =>
    unfold credit
    split <;> exact h.service
  case others =>
    rw [credit_others, h.others]
    split
    · rename_i hthread
      rcases hcases with ⟨t, -, -, -, -, -, ht, -⟩ | ⟨-, hemitted⟩
      · simp [hthread] at ht
      · rw [hemitted, append_nil]
    · rfl

/-- A request to an actor is accepted. -/
theorem acceptSession (h : Accounted d) {m : Request} {now : Int}
    (hs : d.acceptSession m now = some d') : Accounted d' := by
  obtain ⟨node, hnode, rfl⟩ := Option.map_eq_some_iff.mp hs
  obtain ⟨hthreads, hnum, hnone, hloading⟩ := Scheduler.accept_cases hnode
  have hemitted := (Scheduler.emitted_accept hnode).2
  have hrequests : node.requests = d.node.requests := by rw [requests, requests, hthreads, hnum]
  have hheld : ({ d with node := node } : Desk).held =
      (if m.expired now then [] else [m]) ++ d.held := by
    simp [held, hloading, hrequests, hnone]
  have haccepted : ∀ {l l' : List Request}, d.accepted.Perm (l ++ l') →
      (d.accepted ++ [m]).Perm (l ++ ([m] ++ l')) := by
    intro l l' hperm
    refine (hperm.append_right [m]).trans ?_
    rw [append_assoc]
    exact perm_append_comm.append_left _
  have hfresh : ∀ t, node.numThreads ≤ t → d.answers t = [] := hnum ▸ h.fresh
  have hdeactivation : ∀ t, t < node.numThreads → (node.threads t).job = .deactivation →
      d.answers t = [] := by
    rw [hnum, hthreads]
    exact h.deactivation
  have hrequest : ∀ t target m clear, t < node.numThreads →
      (node.threads t).job = .request target m clear →
      if (node.threads t).place.unanswered then d.answers t = [] else EndedBy m (d.answers t) := by
    rw [hnum, hthreads]
    exact h.request
  by_cases hexpired : m.expired now = true
  · rw [if_pos hexpired] at hemitted hheld ⊢
    refine ⟨?_, ?_, hfresh, hdeactivation, hrequest, h.service, h.others⟩
    · show (d.accepted ++ [m]).Perm ((d.expired ++ [(m, d.node.emitted node)]).map Prod.fst ++
        ({ d with node := node } : Desk).held)
      rw [hheld, map_append, append_assoc]
      exact haccepted h.perm
    · intro p hp
      rcases mem_append.mp hp with hp | hp
      · exact h.expired p hp
      · obtain rfl := mem_singleton.mp hp
        exact hemitted
  · rw [if_neg hexpired] at hemitted hheld ⊢
    refine ⟨?_, h.expired, hfresh, hdeactivation, hrequest, h.service, ?_⟩
    · have hperm := haccepted h.perm
      rw [← hheld] at hperm
      exact hperm
    · rw [h.others, hemitted, append_nil]

/-- A request to a service is accepted. -/
theorem acceptService (h : Accounted d) {m : Request} {now : Int} {name : String}
    (htarget : m.target = .service name) (hs : d.acceptService m now = some d') :
    Accounted d' := by
  have hreplayed : m.replayed := by simp [Request.replayed, htarget]
  obtain ⟨-, hs⟩ := Option.ite_none_right_eq_some.mp hs
  split at hs
  · cases hs
    refine { h with perm := ?_, expired := ?_ }
    · rw [map_append, append_assoc]
      refine ((h.perm.append_right [m]).trans ?_)
      rw [append_assoc]
      exact perm_append_comm.append_left _
    · intro p hp
      rcases mem_append.mp hp with hp | hp
      · exact h.expired p hp
      · obtain rfl := mem_singleton.mp hp
        exact endedBy_final hreplayed
  · cases hs
    refine { h with perm := ?_, service := ?_ }
    · refine (h.perm.append_right [m]).trans (.of_eq ?_)
      simp [held, ServiceTask.start]
    intro task htask
    rcases mem_append.mp htask with htask | htask
    · exact h.service task htask
    obtain rfl := mem_singleton.mp htask
    refine ⟨hreplayed, ?_⟩
    rw [if_neg]
    · rfl
    · unfold ServiceTask.start
      split <;> simp


/-- A step of a goroutine of a service. -/
theorem serviceTask {task task' : ServiceTask} {e : ServiceEvent}
    (hs : task.step cfg e = some task') (hreplayed : task.m.replayed)
    (htask : if task.place = .ended then EndedBy task.m task.sent else task.sent = []) :
    task'.m = task.m ∧ task.place.stage < task'.place.stage ∧
      if task'.place = .ended then EndedBy task'.m task'.sent else task'.sent = [] := by
  have hanswer : ∀ value errMsg, task.place ≠ .ended →
      EndedBy task.m (task.answer value errMsg).sent := by
    intro value errMsg hplace
    rw [if_neg hplace] at htask
    rw [ServiceTask.answer, htask, nil_append]
    exact endedBy_final hreplayed
  cases e with
  | childDone =>
    obtain ⟨hplace, rfl⟩ := of_guard hs
    exact ⟨rfl, by simp [hplace, ServicePlace.stage], by simpa [hplace] using htask⟩
  | call =>
    obtain ⟨hplace, hs⟩ := Option.ite_none_right_eq_some.mp hs
    split at hs
    · cases hs
      exact ⟨rfl, by simp [hplace, ServicePlace.stage], by simpa [hplace] using htask⟩
    · cases hs
      exact ⟨rfl, by simp [hplace, ServicePlace.stage, ServiceTask.answer],
        hanswer _ _ (by simp [hplace])⟩
  | returns =>
    obtain ⟨hplace, rfl⟩ := of_guard hs
    exact ⟨rfl, by simp [hplace, ServicePlace.stage, ServiceTask.answer],
      hanswer _ _ (by simp [hplace])⟩

theorem step (h : Accounted d) (hwf : Wf d.node) (htargets : Targets d.node) {e : DeskEvent}
    (hs : Desk.step cfg d e = some d') : Accounted d' := by
  cases e with
  | accept =>
    simp only [Desk.step] at hs
    split at hs
    · exact h.acceptService ‹_› hs
    · exact h.acceptSession hs
    · simp at hs
  | session =>
    simp only [Desk.step] at hs
    split at hs
    · simp at hs
    rename_i haccepts
    obtain ⟨node, hnode, rfl⟩ := Option.map_eq_some_iff.mp hs
    exact h.session hwf htargets hnode (Bool.not_eq_true _ ▸ haccepts)
  | service j =>
    simp only [Desk.step] at hs
    split at hs
    · simp at hs
    rename_i task hj
    obtain ⟨task', htask', rfl⟩ := Option.map_eq_some_iff.mp hs
    obtain ⟨hreplayed, htask⟩ := h.service task (mem_of_getElem? hj)
    obtain ⟨hm, -, hsent⟩ := serviceTask htask' hreplayed htask
    refine { h with perm := ?_, service := ?_ }
    · have hmap : (d.services.set j task').map ServiceTask.m = d.services.map ServiceTask.m := by
        obtain ⟨hlt, heq⟩ := List.getElem?_eq_some_iff.mp hj
        rw [map_set, hm, ← map_set, ← heq, set_getElem_self]
      simpa [held, hmap] using h.perm
    · intro task₁ hmem
      rcases mem_or_eq_of_mem_set hmem with hmem | rfl
      · exact h.service task₁ hmem
      · exact ⟨hm ▸ hreplayed, hsent⟩

end Accounted

/-- The node of a desk runs the session scheduler. -/
theorem node_reachable {cfg : DeskConfig} {d : Desk} (h : Reachable (step cfg) (fun _ _ => True) init d) :
    Reachable (Scheduler.step cfg.toSchedulerConfig) (fun _ _ => True) Scheduler.init d.node := by
  induction h with
  | init => exact .init
  | @step d d' e _ _ hs hinv =>
    cases e with
    | accept m now =>
      simp only [step] at hs
      split at hs
      · have hnode : d'.node = d.node := by
          obtain ⟨-, hs⟩ := Option.ite_none_right_eq_some.mp hs
          split at hs <;> rw [← Option.some.inj hs]
        rw [hnode]
        exact hinv
      · obtain ⟨node, hnode, rfl⟩ := Option.map_eq_some_iff.mp hs
        have haccept : Scheduler.step cfg.toSchedulerConfig d.node (.accept m now) = some node :=
          hnode
        have hreach := hinv.step trivial haccept
        split <;> exact hreach
      · simp at hs
    | session =>
      simp only [step] at hs
      split at hs
      · simp at hs
      obtain ⟨node, hnode, rfl⟩ := Option.map_eq_some_iff.mp hs
      rw [credit_node]
      exact hinv.step trivial hnode
    | service =>
      simp only [step] at hs
      split at hs
      · simp at hs
      obtain ⟨task', -, rfl⟩ := Option.map_eq_some_iff.mp hs
      exact hinv

theorem Accounted.of_reachable {cfg : DeskConfig} {d : Desk}
    (h : Reachable (Desk.step cfg) (fun _ _ => True) Desk.init d) : Accounted d := by
  refine h.invariant .init fun d e d' hreach hinv _ hs => ?_
  have hord := Scheduler.Ordered.of_reachable (node_reachable hreach)
  exact hinv.step hord.toWf hord.targets hs

/-- Every request that was accepted is answered by one message.

A request is answered by `accept`, or one goroutine serves it (`accepted`).  Until the goroutine
has sent its message it waits for its turn, for a child or for the handler, or it has a step to
take; every step of its own brings it forward, and no other step moves it. -/
structure OneMessage (cfg : DeskConfig) (d : Desk) : Prop where
  accepted : d.accepted.Perm (d.expired.map Prod.fst ++ d.held)
  expired : ∀ p ∈ d.expired, EndedBy p.1 p.2
  session : ∀ t target m clear, t < d.node.numThreads →
    (d.node.threads t).job = .request target m clear →
    EndedBy m (d.answers t) ∨ d.answers t = [] ∧ (d.node.blocked t = true ∨
      ∃ e, e.thread? = some t ∧
        (Scheduler.step cfg.toSchedulerConfig d.node e).isSome = true)
  sessionForward : ∀ t target m clear, t < d.node.numThreads →
    (d.node.threads t).job = .request target m clear → d.answers t = [] →
    ∀ e node, Scheduler.step cfg.toSchedulerConfig d.node e = some node →
      if e.thread? = some t then (d.node.threads t).place.stage < (node.threads t).place.stage
      else (node.threads t).place = (d.node.threads t).place
  service : ∀ task ∈ d.services, EndedBy task.m task.sent ∨ task.sent = [] ∧
    (task.place = .awaiting ∨ task.place = .running ∨ (task.step cfg .call).isSome = true)
  serviceForward : ∀ task ∈ d.services, ∀ e task', task.step cfg e = some task' →
    task.place.stage < task'.place.stage
  others : d.others = [] ∧ ∀ t, t < d.node.numThreads →
    (d.node.threads t).job = .deactivation → d.answers t = []
  notEntered : ∀ t ∈ d.node.entered, t < d.node.numThreads ∧ d.node.omits t = false

open Scheduler (actorConfig callGet returns tailGet)

/-- A tell to a service. -/
def tellReport (requestID : String) (deadline : Option Int) : Request :=
  .tell {
    requestID := requestID
    value := []
    deadline := deadline
    target := .service "Report"
    method := "post"
    sequence := 0
    childID := ""
    parentID := ""
    isEdited := false }

def deskConfig : DeskConfig where
  toSchedulerConfig := actorConfig
  handlersService := fun method => method = "post"

end Desk

end Kar.Rpc
