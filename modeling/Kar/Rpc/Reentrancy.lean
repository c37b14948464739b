import Kar.Lib.CallStacks
import Kar.Rpc.Serving

/-!
# Who bypasses the queue

`acceptSession` lets a request through at once if its flow is the active one.  It takes the flow
for a logical thread: a request with the flow of a task that executes is a nested call of that
task, or its continuation.  `Calls` adds to a node what this rests on.  Each flow has a stack of
open requests, the innermost one first, and each open request is at a spot: on its way to the
node, looked up, in a goroutine, or away, at another node or a service.

* A root request opens a stack.  A nested call is pushed on the stack of its parent, which
  executes and waits for it.  An answer takes the innermost request off its stack.
* A tail call moves the innermost request.

`Issued` is the discipline of the code that creates requests, and holds of everything that
`CallActor`, `TellActor`, `CallPromiseActor` and reminders create.  `Unused` says that the flow
of a root request has no open request.  New flow ids are unused, but `DeleteActor` uses one
constant flow for an actor, and a subscription one flow for all of its events.
-/

namespace Kar.Rpc

open Kar.Lib List

/-- The flow of all deletions. -/
def deactivateFlow : String := "deactivate"

/-- A logical thread: a flow, or the deletions of an actor. -/
structure Line where
  flow : String
  actor : Option SessionKey
  deriving DecidableEq, Repr

def Session.line (target : Session) : Line where
  flow := target.flow
  actor := if target.flow = deactivateFlow then some target.key else none

def Request.line? (m : Request) : Option Line := m.target.session?.map Session.line

/-- Where an open request is. -/
inductive Spot
  /-- At another node or a service, or on its way there. -/
  | away
  | mail
  | loading
  | thread (t : Nat)
  deriving DecidableEq, Repr

/-- A node with the open requests of the application. -/
structure Calls where
  node : Scheduler
  /-- The requests on their way to the node. -/
  mail : List Request
  callStacks : CallStacks String Line Spot

inductive CallsEvent
  /-- A root request, to an actor of this node if `here`. -/
  | root (m : Request) (here : Bool)
  /-- A nested call of the task of the request `m.parentID`. -/
  | nested (m : Request) (here : Bool)
  /-- A request that is away makes a tail call to an actor of this node. -/
  | arrive (m : Request)
  /-- A request that is away is answered. -/
  | leave (id : String)
  /-- A step of the node.  The continuation of a tail call comes back to it if `here`. -/
  | node (e : SchedulerEvent) (here : Bool)
  deriving DecidableEq, Repr

/-- A task executes at the spot, and may wait for a nested call. -/
def Scheduler.Executing (s : Scheduler) : Spot → Prop
  | .away => True
  | .thread t => (s.threads t).place = .running
  | .mail | .loading => False

instance (s : Scheduler) (x : Spot) : Decidable (s.Executing x) :=
  match x with
  | .away => inferInstanceAs (Decidable True)
  | .thread t => inferInstanceAs (Decidable ((s.threads t).place = .running))
  | .mail | .loading => inferInstanceAs (Decidable False)

namespace Calls

def init : Calls where
  node := .init
  mail := []
  callStacks := .empty

variable (cfg : SchedulerConfig) (c : Calls)

/-- The new request `m` is sent. -/
def opened (m : Request) (here : Bool) : Option Calls :=
  m.line?.map fun L => { c with
    mail := if here then c.mail ++ [m] else c.mail
    callStacks := c.callStacks.push L m.requestID (if here then .mail else .away) }

/-- The request of the goroutine `t` is answered. -/
def closed (t : Nat) : CallStacks String Line Spot :=
  match (c.node.threads t).job.message? with
  | some m => c.callStacks.pop m.requestID
  | none => c.callStacks

def step : CallsEvent → Option Calls
  | .root m here => c.opened m here
  | .nested m here => c.opened m here
  | .arrive m =>
    some { c with mail := c.mail ++ [m], callStacks := c.callStacks.move m.requestID .mail }
  | .leave id => some { c with callStacks := c.callStacks.pop id }
  | .node e here =>
    match Scheduler.step cfg c.node e with
    | none => none
    | some s' =>
      match e with
      | .accept m now =>
        if m ∈ c.mail then some {
          node := s'
          mail := c.mail.erase m
          callStacks := if m.expired now then c.callStacks.pop m.requestID
            else c.callStacks.move m.requestID .loading }
        else none
      | .schedule => some { c with
          node := s'
          callStacks := match c.node.loading with
            | some l => c.callStacks.move l.m.requestID (.thread c.node.numThreads)
            | none => c.callStacks }
      | .timeout t => some { c with node := s', callStacks := c.closed t }
      | .enter t _ _ => some { c with
          node := s'
          callStacks := if (s'.threads t).place = .running then c.callStacks else c.closed t }
      | .finish t _ _ _ _ =>
        match c.node.tailCalled s' with
        | some v => some {
            node := s'
            mail := if here then c.mail ++ [v] else c.mail
            callStacks := c.callStacks.move v.requestID (if here then .mail else .away) }
        | none => some { c with node := s', callStacks := c.closed t }
      | _ => some { c with node := s' }

/-- A request that is no continuation and waits for no child. -/
def Plain (m : Request) : Prop := m.lock? = none ∧ m.childID = ""

/-- How requests are created, and how a task ends: after its nested calls, with a tail call of
`handlerActor`, which comes back to the node if it keeps the lock. -/
def Issued (c : Calls) : CallsEvent → Prop
  | .root m _ => Plain m ∧ c.callStacks.spot m.requestID = none
  | .nested m _ => Plain m ∧ c.callStacks.spot m.requestID = none ∧
      (∀ L ∈ m.line?, (c.callStacks.stack L).head? = m.callParent) ∧
      ∀ id ∈ m.callParent, ∀ p ∈ c.callStacks.spot id, c.node.Executing p.2
  | .arrive m => Plain m ∧ m.line? ≠ none ∧ ∀ L ∈ m.line?,
      c.callStacks.spot m.requestID = some (L, .away) ∧
        (c.callStacks.stack L).head? = some m.requestID
  | .leave id => ∀ p ∈ c.callStacks.spot id, p.2 = .away ∧ (c.callStacks.stack p.1).head? = some id
  | .node e here =>
    match e with
    | .accept .. => True
    | .finish t r _ _ _ => c.node.Delivers e ∧
      ∀ target ∈ (c.node.threads t).job.target?, ∀ m ∈ (c.node.threads t).job.message?,
        (c.callStacks.stack target.line).head? = some m.requestID ∧
        -- A deletion makes no tail call.
        (target.flow = deactivateFlow → r.dest = none) ∧
        ∀ dest ∈ r.dest, (here = true → dest.1.session? ≠ none) ∧
          ∀ next ∈ dest.1.session?, next.deferredLockID ≠ "" → here = true
    | _ => c.node.Delivers e

/-- The flow of a root request has no open request. -/
def Unused (c : Calls) : CallsEvent → Prop
  | .root m _ => ∀ L ∈ m.line?, c.callStacks.stack L = []
  | _ => True

instance (m : Request) : Decidable (Plain m) := inferInstanceAs (Decidable (_ ∧ _))

instance (c : Calls) (e : CallsEvent) : Decidable (c.Unused e) :=
  match e with
  | .root m _ => inferInstanceAs (Decidable (∀ L ∈ m.line?, c.callStacks.stack L = []))
  | .nested .. | .arrive _ | .leave _ | .node .. => inferInstanceAs (Decidable True)

instance (c : Calls) (e : CallsEvent) : Decidable (c.Issued e) :=
  match e with
  | .root m _ => inferInstanceAs (Decidable (Plain m ∧ c.callStacks.spot m.requestID = none))
  | .nested m _ => inferInstanceAs (Decidable (Plain m ∧ c.callStacks.spot m.requestID = none ∧
      (∀ L ∈ m.line?, (c.callStacks.stack L).head? = m.callParent) ∧
      ∀ id ∈ m.callParent, ∀ p ∈ c.callStacks.spot id, c.node.Executing p.2))
  | .arrive m => inferInstanceAs (Decidable (Plain m ∧ m.line? ≠ none ∧ ∀ L ∈ m.line?,
      c.callStacks.spot m.requestID = some (L, .away) ∧
        (c.callStacks.stack L).head? = some m.requestID))
  | .leave id => inferInstanceAs (Decidable (∀ p ∈ c.callStacks.spot id, p.2 = .away ∧
      (c.callStacks.stack p.1).head? = some id))
  | .node e here =>
    match e with
    | .accept .. => inferInstanceAs (Decidable True)
    | .finish t r delete activated now => inferInstanceAs (Decidable
        (c.node.Delivers (.finish t r delete activated now) ∧
        ∀ target ∈ (c.node.threads t).job.target?, ∀ m ∈ (c.node.threads t).job.message?,
          (c.callStacks.stack target.line).head? = some m.requestID ∧
          (target.flow = deactivateFlow → r.dest = none) ∧
          ∀ dest ∈ r.dest, (here = true → dest.1.session? ≠ none) ∧
            ∀ next ∈ dest.1.session?, next.deferredLockID ≠ "" → here = true))
    | .schedule | .receive _ | .timeout _ | .awaitChild _ | .childDone _ | .acquire _ | .enter ..
    | .pass _ | .collect .. | .claim .. | .probe _ | .beginCallback _ | .callbackDone ..
    | .settle _ | .remove _ | .close _ => inferInstanceAs (Decidable True)

end Calls

/-! ## The invariant -/

namespace Calls

/-- The spots of the open requests are where the requests are. -/
structure Threaded (cfg : SchedulerConfig) (c : Calls) : Prop where
  runs : Reachable (Scheduler.step cfg) (fun _ _ => True) .init c.node
  calm : c.node.Calm
  callStacks : c.callStacks.Inv c.node.Executing
  mail : ∀ m ∈ c.mail, m.childID = "" ∧
    ∃ L, m.line? = some L ∧ c.callStacks.spot m.requestID = some (L, .mail)
  nodup : (c.mail.map (·.requestID)).Nodup
  loading : ∀ l, c.node.loading = some l →
    c.callStacks.spot l.m.requestID = some (l.target.line, .loading)
  thread : ∀ t target m clear, t < c.node.numThreads →
    (c.node.threads t).job = .request target m clear →
    (c.node.threads t).place.unanswered = true →
    c.callStacks.spot m.requestID = some (target.line, .thread t)
  back : ∀ i L t, c.callStacks.spot i = some (L, .thread t) → t < c.node.numThreads ∧
    ∃ target m clear, (c.node.threads t).job = .request target m clear ∧ m.requestID = i ∧
      target.line = L
  locked : ∀ m ∈ c.mail, m.lock? ≠ none → m ∈ c.node.inFlight
  inFlight : ∀ v ∈ c.node.inFlight, v.lock? ≠ none → v ∈ c.mail

namespace Threaded

variable {c c' : Calls} {e : SchedulerEvent} {s' : Scheduler}

theorem init : Threaded cfg Calls.init where
  runs := .init
  calm := .init
  callStacks := .init
  mail := by simp [Calls.init]
  nodup := by simp [Calls.init]
  loading := by simp [Calls.init, Scheduler.init]
  thread := by simp [Calls.init, Scheduler.init]
  back := by simp [Calls.init, CallStacks.empty]
  locked := by simp [Calls.init]
  inFlight := by simp [Calls.init, Scheduler.init]

/-- A step that changes the spot of the request `i?` only, if of any. -/
theorem next (h : Threaded cfg c) (i? : Option String)
    (hruns : Reachable (Scheduler.step cfg) (fun _ _ => True) .init c'.node) (hcalm : c'.node.Calm)
    (hstacks : c'.callStacks.Inv c'.node.Executing) (hkept : Scheduler.Kept c.node c'.node)
    (hspot : ∀ j, i? ≠ some j → c'.callStacks.spot j = c.callStacks.spot j)
    (hmail : ∀ m ∈ c'.mail, m ∈ c.mail ∧ i? ≠ some m.requestID ∨
      m.childID = "" ∧ ∃ L, m.line? = some L ∧ c'.callStacks.spot m.requestID = some (L, .mail))
    (hnodup : (c'.mail.map (·.requestID)).Nodup) (hloading : ∀ l, c'.node.loading = some l →
      c.node.loading = some l ∧ i? ≠ some l.m.requestID ∨ c'.callStacks.spot l.m.requestID = some
      (l.target.line, .loading))
    (hthread : ∀ t target m clear, t < c'.node.numThreads → (c'.node.threads t).job = .request
      target m clear → (c'.node.threads t).place.unanswered = true → t < c.node.numThreads ∧
      (c.node.threads t).place.unanswered = true ∧ i? ≠ some m.requestID ∨ c'.callStacks.spot
      m.requestID = some (target.line, .thread t))
    (hback : ∀ i L t, i? = some i → c'.callStacks.spot i = some (L, .thread t) → t <
      c'.node.numThreads ∧ ∃ target m clear, (c'.node.threads t).job = .request target m clear ∧
      m.requestID = i ∧ target.line = L)
    (hlocked : ∀ m ∈ c'.mail, m.lock? ≠ none → m ∈ c'.node.inFlight)
    (hinFlight : ∀ v ∈ c'.node.inFlight, v.lock? ≠ none → v ∈ c'.mail) : Threaded cfg c' where
  runs := hruns
  calm := hcalm
  callStacks := hstacks
  mail := by
    intro m hm
    rcases hmail m hm with ⟨hold, hne⟩ | hnew
    · rw [hspot _ hne]
      exact h.mail m hold
    · exact hnew
  nodup := hnodup
  loading := by
    intro l hl
    rcases hloading l hl with ⟨hold, hne⟩ | hnew
    · rw [hspot _ hne]
      exact h.loading l hold
    · exact hnew
  thread := by
    intro t target m clear ht hjob hplace
    rcases hthread t target m clear ht hjob hplace with ⟨hlt, hold, hne⟩ | hnew
    · rw [hspot _ hne]
      exact h.thread t target m clear hlt (hkept.job t hlt ▸ hjob) hold
    · exact hnew
  back := by
    intro i L t hi
    by_cases heq : i? = some i
    · exact hback i L t heq hi
    · rw [hspot i heq] at hi
      obtain ⟨hlt, target, m, clear, hjob, hid⟩ := h.back i L t hi
      exact ⟨Nat.lt_of_lt_of_le hlt hkept.numThreads, target, m, clear,
        (hkept.job t hlt).trans hjob, hid⟩
  locked := hlocked
  inFlight := hinFlight

theorem wf (h : Threaded cfg c) : c.node.Wf := h.calm.sound.toWf

theorem ordered (h : Threaded cfg c) : c.node.Ordered cfg := .of_reachable h.runs

theorem targets (h : Threaded cfg c) : c.node.Targets := h.ordered.targets

/-! ### Requests are created -/

variable {m : Request} {target : Session} {l : Loading}

theorem line_of_target (h : m.target.session? = some target) :
    m.line? = some target.line := by
  rw [Request.line?, h, Option.map_some]

theorem mem_inFlight_append {s : Scheduler} {v : Request} {mail : List Request}
    (hm : m.lock? = none) (h : ∀ v ∈ mail, v.lock? ≠ none → v ∈ s.inFlight)
    (hv : v ∈ mail ++ [m]) (hlock : v.lock? ≠ none) : v ∈ s.inFlight := by
  rcases mem_append.mp hv with hv | hv
  · exact h v hv hlock
  · rw [mem_singleton] at hv
    exact absurd (hv ▸ hm) hlock

/-- The request `m` is sent by a task, or by nobody, and its stack waits for it. -/
theorem opened (h : Threaded cfg c) {here : Bool} (hplain : Plain m)
    (hfresh : c.callStacks.spot m.requestID = none)
    (hhead : ∀ L ∈ m.line?, ∀ i x, (c.callStacks.stack L).head? = some i →
      c.callStacks.spot i = some (L, x) → c.node.Executing x)
    (hs : c.opened m here = some c') : Threaded cfg c' := by
  obtain ⟨L, hL, rfl⟩ := Option.map_eq_some_iff.mp hs
  have hspot := c.callStacks.spot_push L m.requestID (if here then .mail else .away)
  -- The other requests have spots.
  have hne : ∀ {j p}, c.callStacks.spot j = some p → some m.requestID ≠ some j := by
    intro j p hj heq
    rw [← Option.some.inj heq, hfresh] at hj
    simp at hj
  refine h.next (some m.requestID) h.runs h.calm (h.callStacks.push hfresh (hhead L hL)) (.refl _)
    (fun j hj => ?_) (fun m' hm' => ?_) ?_ (fun l hl => .inl ⟨hl, hne (h.loading l hl)⟩)
    (fun t target m' clear ht hjob hplace =>
      .inl ⟨ht, hplace, hne (h.thread t target m' clear ht hjob hplace)⟩)
    (fun i L' t hi hback => ?_) (fun m' hm' hlock => ?_) fun v hv hlock => ?_
  · rw [hspot, if_neg fun heq : j = m.requestID => hj (heq ▸ rfl)]
  · cases here with
    | false =>
      obtain ⟨-, L', -, hspot'⟩ := h.mail m' hm'
      exact .inl ⟨hm', hne hspot'⟩
    | true =>
      rcases mem_append.mp hm' with hold | hnew
      · obtain ⟨-, L', -, hspot'⟩ := h.mail m' hold
        exact .inl ⟨hold, hne hspot'⟩
      · rw [mem_singleton] at hnew
        subst hnew
        exact .inr ⟨hplain.2, L, hL, by rw [hspot, if_pos rfl]; rfl⟩
  · cases here with
    | false => exact h.nodup
    | true =>
      show ((c.mail ++ [m]).map (·.requestID)).Nodup
      rw [map_append, map_singleton, ← concat_eq_append]
      refine h.nodup.concat fun hmem => ?_
      obtain ⟨m', hm', hid⟩ := mem_map.mp hmem
      obtain ⟨-, L', -, hspot'⟩ := h.mail m' hm'
      rw [hid, hfresh] at hspot'
      simp at hspot'
  · rw [← Option.some.inj hi, hspot, if_pos rfl] at hback
    cases here <;> simp at hback
  · cases here with
    | false => exact h.locked m' hm' hlock
    | true => exact mem_inFlight_append hplain.1 h.locked hm' hlock
  · cases here with
    | false => exact h.inFlight v hv hlock
    | true => exact mem_append_left _ (h.inFlight v hv hlock)

/-- A request at a spot of another kind is another request. -/
theorem ne_of_spot (hi : c.callStacks.spot i = some p)
    (hj : c.callStacks.spot j = some q) (hne : p.2 ≠ q.2 := by simp) : some i ≠ some j := by
  intro heq
  rw [Option.some.inj heq, hj] at hi
  exact hne (by rw [Option.some.inj hi])

/-- A request that was away comes. -/
theorem arrive (h : Threaded cfg c) {L : Line} (hplain : Plain m)
    (hL : m.line? = some L) (haway : c.callStacks.spot m.requestID = some (L, .away))
    (hhead : (c.callStacks.stack L).head? = some m.requestID) :
    Threaded cfg
      { c with mail := c.mail ++ [m], callStacks := c.callStacks.move m.requestID .mail } := by
  have hspot := CallStacks.spot_move haway .mail
  refine h.next (some m.requestID) h.runs h.calm (h.callStacks.move haway (.inr hhead)) (.refl _)
    (fun j hj => ?_) (fun m' hm' => ?_) ?_
    (fun l hl => .inl ⟨hl, ne_of_spot haway (h.loading l hl)⟩)
    (fun t target m' clear ht hjob hplace =>
      .inl ⟨ht, hplace, ne_of_spot haway (h.thread t target m' clear ht hjob hplace)⟩)
    (fun i L' t hi hback => ?_) (fun m' => mem_inFlight_append hplain.1 h.locked)
    fun v hv hlock => mem_append_left _ (h.inFlight v hv hlock)
  · rw [hspot, if_neg fun heq : j = m.requestID => hj (heq ▸ rfl)]
  · rcases mem_append.mp hm' with hold | hnew
    · obtain ⟨-, L', -, hspot'⟩ := h.mail m' hold
      exact .inl ⟨hold, ne_of_spot haway hspot' (by simp)⟩
    · rw [mem_singleton] at hnew
      subst hnew
      exact .inr ⟨hplain.2, L, hL, by rw [hspot, if_pos rfl]⟩
  · rw [map_append, map_singleton, ← concat_eq_append]
    refine h.nodup.concat fun hmem => ?_
    obtain ⟨m', hm', hid⟩ := mem_map.mp hmem
    obtain ⟨-, L', -, hspot'⟩ := h.mail m' hm'
    exact ne_of_spot haway hspot' (by simp) (congrArg some hid.symm)
  · rw [← Option.some.inj hi, hspot, if_pos rfl] at hback
    simp at hback

/-- A request that was away is answered. -/
theorem leave (h : Threaded cfg c)
    (haway : c.callStacks.spot i = some (L, .away)) (hhead : (c.callStacks.stack L).head? = some i) :
    Threaded cfg { c with callStacks := c.callStacks.pop i } := by
  have hspot := CallStacks.spot_pop haway
  refine h.next (some i) h.runs h.calm (h.callStacks.pop haway hhead) (.refl _)
    (fun j hj => ?_) (fun m hm => ?_) h.nodup
    (fun l hl => .inl ⟨hl, ne_of_spot haway (h.loading l hl)⟩)
    (fun t target m clear ht hjob hplace =>
      .inl ⟨ht, hplace, ne_of_spot haway (h.thread t target m clear ht hjob hplace)⟩)
    (fun j L' t hi hback => ?_) h.locked h.inFlight
  · rw [hspot, if_neg fun heq : j = i => hj (heq ▸ rfl)]
  · obtain ⟨-, L', -, hspot'⟩ := h.mail m hm
    exact .inl ⟨hm, ne_of_spot haway hspot' (by simp)⟩
  · rw [← Option.some.inj hi, hspot, if_pos rfl] at hback
    simp at hback

/-! ### The node makes a step -/

section Node

variable (h : Threaded cfg c) (hs : Scheduler.step cfg c.node e = some s')
include h hs

theorem runs_step : Reachable (Scheduler.step cfg) (fun _ _ => True) .init s' :=
  h.runs.step trivial hs

theorem kept : Scheduler.Kept c.node s' := .step h.wf hs

/-- The request that is looked up has been there, unless it has just been accepted. -/
theorem loading_of_step (haccepts : e.accepts = false) (hl : s'.loading = some l) :
    c.node.loading = some l := by
  obtain ⟨s₁, ho, hsame⟩ := Scheduler.step_outcome hs
  rcases Scheduler.loading_of_outcome h.wf ho (hsame.loading ▸ hl) with hold | ⟨now, rfl, -⟩
  · exact hold
  · simp [SchedulerEvent.accepts] at haccepts

/-- The goroutine of an unanswered request has been there, unless it has just started. -/
theorem unanswered_of_step
    (ht : t < s'.numThreads) (hjob : (s'.threads t).job = .request target m clear)
    (hplace : (s'.threads t).place.unanswered = true) :
    t < c.node.numThreads ∧ (c.node.threads t).place.unanswered = true ∧ s'.answers t e = false ∧
        c.callStacks.spot m.requestID = some (target.line, .thread t) ∨ e = .schedule ∧ t =
        c.node.numThreads ∧ ∃ l, c.node.loading = some l ∧ l.target = target ∧ l.m = m := by
  by_cases hlt : t < c.node.numThreads
  · obtain ⟨hold, hanswers⟩ := (Scheduler.serving_of_step h.wf hs hlt).unanswered hplace
    exact .inl ⟨hlt, hold, hanswers,
      h.thread t target m clear hlt ((h.kept hs).job t hlt ▸ hjob) hold⟩
  obtain ⟨s₁, ho, hsame⟩ := Scheduler.step_outcome hs
  rw [hsame.threads] at hjob
  rw [hsame.numThreads] at ht
  obtain ⟨rfl, hdeactivation | ⟨rfl, hschedule⟩⟩ :=
    Scheduler.started_of_outcome h.wf ho (by omega) ht
  · simp [hdeactivation] at hjob
  · exact .inr ⟨rfl, h.calm.started hschedule (Nat.le_refl _) ht hjob⟩

/-- The tasks that wait for a nested call still execute: only the innermost one may end. -/
theorem stacks_step (hfinish : ∀ t r delete activated now,
      e = .finish t r delete activated now → ∀ target m clear,
      (c.node.threads t).job = .request target m clear →
      (c.callStacks.stack target.line).head? = some m.requestID) :
    c.callStacks.Inv s'.Executing := by
  refine h.callStacks.mono fun L i x hi hx hexec => ?_
  cases x with
  | away => trivial
  | thread t =>
    obtain ⟨hlt, target, m, clear, hjob, rfl, rfl⟩ := h.back i L t hx
    rcases (Scheduler.serving_of_step h.wf hs hlt).running hexec with ⟨r, d, a, n, rfl⟩ | hrunning
    · exact absurd hi (h.callStacks.not_mem_tail (hfinish t r d a n rfl target m clear hjob))
    · exact hrunning
  | mail => exact hexec
  | loading => exact hexec

/-- The node makes a step that answers no request and moves none. -/
theorem quiet (hcalm : s'.Calm) (hinv : c.callStacks.Inv s'.Executing) (haccepts : e.accepts = false)
    (hschedule : e ≠ .schedule) (hin : s'.inFlight = c.node.inFlight) :
    Threaded cfg { c with node := s' } := by
  refine h.next none (h.runs_step hs) hcalm hinv (h.kept hs) (fun _ _ => rfl) (fun m hm => .inl ⟨hm,
    by simp⟩) h.nodup (fun l hl => .inl ⟨h.loading_of_step hs haccepts hl, by simp⟩) (fun t target m
    clear ht hjob hplace => ?_) (by simp) (fun m hm hlock => ?_) fun v hv hlock => ?_
  · rcases h.unanswered_of_step hs ht hjob hplace with ⟨hlt, hold, -⟩ | ⟨rfl, -⟩
    · exact .inl ⟨hlt, hold, by simp⟩
    · exact absurd rfl hschedule
  · rw [hin]
    exact h.locked m hm hlock
  · rw [hin] at hv
    exact h.inFlight v hv hlock

/-- The request of the goroutine `t`, which is the innermost one of its flow, is answered. -/
theorem answered (hcalm : s'.Calm) (hinv : c.callStacks.Inv s'.Executing) (haccepts : e.accepts = false)
    (hschedule : e ≠ .schedule) (hin : s'.inFlight = c.node.inFlight) (ht : t < c.node.numThreads)
    (hjob : (c.node.threads t).job = .request target m clear)
    (hplace : (c.node.threads t).place.unanswered = true) (hanswers : s'.answers t e = true)
    (hhead : (c.callStacks.stack target.line).head? = some m.requestID) :
    Threaded cfg { c with node := s', callStacks := c.closed t } := by
  have hthread := h.thread t target m clear ht hjob hplace
  have hclosed : c.closed t = c.callStacks.pop m.requestID := by
    simp [closed, hjob, Job.message?]
  have hspot := CallStacks.spot_pop hthread
  rw [hclosed]
  refine h.next (some m.requestID) (h.runs_step hs) hcalm (hinv.pop hthread hhead) (h.kept hs) (fun
    j hj => ?_) (fun m' hm => ?_) h.nodup (fun l hl => ?_) (fun t' target' m' clear' ht' hjob'
    hplace' => ?_) (fun i L' t' hi hback => ?_) (fun m' hm hlock => ?_) fun v hv hlock => ?_
  · rw [hspot, if_neg fun heq : j = m.requestID => hj (heq ▸ rfl)]
  · obtain ⟨-, L', -, hspot'⟩ := h.mail m' hm
    exact .inl ⟨hm, ne_of_spot hthread hspot' (by simp)⟩
  · have hold := h.loading_of_step hs haccepts hl
    exact .inl ⟨hold, ne_of_spot hthread (h.loading l hold)⟩
  · rcases h.unanswered_of_step hs ht' hjob' hplace' with ⟨hlt, hold, hnot, hspot'⟩ | ⟨rfl, -⟩
    · refine .inl ⟨hlt, hold, ne_of_spot hthread hspot' fun heq => ?_⟩
      rw [← Spot.thread.inj heq, hanswers] at hnot
      simp at hnot
    · exact absurd rfl hschedule
  · rw [← Option.some.inj hi, hspot, if_pos rfl] at hback
    simp at hback
  · rw [hin]
    exact h.locked m' hm hlock
  · rw [hin] at hv
    exact h.inFlight v hv hlock

end Node

theorem requestID_ne_of_mem_erase (h : Threaded cfg c) (hm : m ∈ c.mail)
    (hm' : m' ∈ c.mail.erase m) : m'.requestID ≠ m.requestID := by
  have hnodup := ((perm_cons_erase hm).map (·.requestID)).nodup_iff.mp h.nodup
  rw [map_cons, nodup_cons] at hnodup
  intro heq
  exact hnodup.1 (heq ▸ mem_map_of_mem hm')

/-- A continuation that presents a lock is on its way once. -/
theorem ne_of_mem_erase_inFlight (h : Threaded cfg c)
    (hv : v ∈ c.node.inFlight.erase m) (hlock : v.lock? ≠ none) : v ≠ m := by
  rintro rfl
  obtain ⟨id, hid⟩ := Option.ne_none_iff_exists'.mp hlock
  have hnodup := h.calm.flows.lockIDs
  rw [Scheduler.lockIDs, Scheduler.coming, filterMap_append] at hnodup
  have hperm := (perm_cons_erase (mem_of_mem_erase hv)).filterMap (·.lock?)
  have hnodup := hperm.nodup_iff.mp (nodup_append.mp hnodup).1
  rw [filterMap_cons_some hid, nodup_cons] at hnodup
  exact hnodup.1 (mem_filterMap.mpr ⟨v, hv, hid⟩)

/-- The node accepts a request that has come. -/
theorem accept (h : Threaded cfg c)
    (hs : Scheduler.step cfg c.node (.accept m now) = some s') (hm : m ∈ c.mail) :
    Threaded cfg {
      node := s'
      mail := c.mail.erase m
      callStacks := if m.expired now then c.callStacks.pop m.requestID
        else c.callStacks.move m.requestID .loading } := by
  obtain ⟨hchild, L, hL, hmail⟩ := h.mail m hm
  have hdelivers : c.node.Delivers (.accept m now) := h.locked m hm
  have hcalm : s'.Calm := h.calm.step h.ordered hdelivers hchild hs
  have hinv : c.callStacks.Inv s'.Executing := h.stacks_step hs (by simp)
  have hhead := h.callStacks.head_of_not_exec hmail id
  have hin : s'.inFlight = c.node.inFlight.erase m := Scheduler.inFlight_of_step h.wf hs
  have hother : ∀ m' ∈ c.mail.erase m, m' ∈ c.mail ∧ some m.requestID ≠ some m'.requestID := by
    intro m' hm'
    refine ⟨mem_of_mem_erase hm', fun heq => ?_⟩
    exact h.requestID_ne_of_mem_erase hm hm' (Option.some.inj heq).symm
  have hthread : ∀ t target m' clear, t < s'.numThreads →
      (s'.threads t).job = .request target m' clear → (s'.threads t).place.unanswered = true →
      t < c.node.numThreads ∧ (c.node.threads t).place.unanswered = true ∧
        some m.requestID ≠ some m'.requestID := by
    intro t target m' clear ht hjob hplace
    rcases h.unanswered_of_step hs ht hjob hplace with ⟨hlt, hold, -, hspot⟩ | ⟨heq, -⟩
    · exact ⟨hlt, hold, ne_of_spot hmail hspot⟩
    · simp at heq
  have hnodup : ((c.mail.erase m).map (·.requestID)).Nodup := h.nodup.sublist (erase_sublist.map _)
  have hlocked : ∀ m' ∈ c.mail.erase m, m'.lock? ≠ none → m' ∈ s'.inFlight := by
    intro m' hm' hlock
    have hne : m' ≠ m := fun heq => h.requestID_ne_of_mem_erase hm hm' (heq ▸ rfl)
    rw [hin]
    exact (mem_erase_of_ne hne).mpr (h.locked m' (hother m' hm').1 hlock)
  have hinFlight : ∀ v ∈ s'.inFlight, v.lock? ≠ none → v ∈ c.mail.erase m := by
    intro v hv hlock
    rw [hin] at hv
    exact (mem_erase_of_ne (h.ne_of_mem_erase_inFlight hv hlock)).mpr
      (h.inFlight v (mem_of_mem_erase hv) hlock)
  obtain ⟨s₁, ho, hsame⟩ := Scheduler.step_outcome hs
  cases hexpired : m.expired now with
  | true =>
    have hspot := CallStacks.spot_pop hmail
    refine h.next (some m.requestID) (h.runs_step hs) hcalm (hinv.pop hmail hhead) (h.kept hs)
      (fun j hj => ?_) (fun m' hm' => .inl (hother m' hm')) hnodup (fun l hl => ?_)
      (fun t target m' clear ht hjob hplace => .inl (hthread t target m' clear ht hjob hplace))
      (fun i L' t hi hback => ?_) hlocked hinFlight
    · show (c.callStacks.pop m.requestID).spot j = _
      rw [hspot, if_neg fun heq : j = m.requestID => hj (heq ▸ rfl)]
    · rw [hsame.loading] at hl
      cases ho with
      | expired hloading =>
        simp [hloading] at hl
      | accepted _ _ hnot => simp [hexpired] at hnot
    · have hback : (c.callStacks.pop m.requestID).spot i = some (L', .thread t) := hback
      rw [hspot, if_pos (Option.some.inj hi).symm] at hback
      simp at hback
  | false =>
    have hspot := CallStacks.spot_move hmail .loading
    refine h.next (some m.requestID) (h.runs_step hs) hcalm (hinv.move hmail (.inr hhead))
      (h.kept hs) (fun j hj => ?_) (fun m' hm' => .inl (hother m' hm')) hnodup (fun l hl => ?_)
      (fun t target m' clear ht hjob hplace => .inl (hthread t target m' clear ht hjob hplace))
      (fun i L' t hi hback => ?_) hlocked hinFlight
    · show (c.callStacks.move m.requestID .loading).spot j = _
      rw [hspot, if_neg fun heq : j = m.requestID => hj (heq ▸ rfl)]
    · rw [hsame.loading] at hl
      cases ho with
      | expired _ _ hnot => simp [hexpired] at hnot
      | @accepted _ _ target _ htarget =>
        cases hl
        rw [line_of_target htarget] at hL
        refine .inr ?_
        show (c.callStacks.move m.requestID .loading).spot m.requestID = some (target.line, .loading)
        rw [hspot, if_pos rfl, Option.some.inj hL]
    · have hback : (c.callStacks.move m.requestID .loading).spot i = some (L', .thread t) := hback
      rw [hspot, if_pos (Option.some.inj hi).symm] at hback
      simp at hback

/-- The request that was looked up is scheduled. -/
theorem schedule (h : Threaded cfg c) (hs : Scheduler.step cfg c.node .schedule = some s')
    (hl : c.node.loading = some l) :
    Threaded cfg { c with
      node := s'
      callStacks := c.callStacks.move l.m.requestID (.thread c.node.numThreads) } := by
  have hloading := h.loading l hl
  have hdelivers : c.node.Delivers .schedule := trivial
  have hcalm : s'.Calm := h.calm.step h.ordered hdelivers trivial hs
  have hinv : c.callStacks.Inv s'.Executing := h.stacks_step hs (by simp)
  have hhead := h.callStacks.head_of_not_exec hloading id
  have hspot := CallStacks.spot_move hloading (.thread c.node.numThreads)
  have hin : s'.inFlight = c.node.inFlight := Scheduler.inFlight_of_step h.wf hs
  -- The goroutine that starts has the request.
  have hstarts : s'.loading = none ∧ s'.numThreads = c.node.numThreads + 1 ∧
      ∃ clear, (s'.threads c.node.numThreads).job = .request l.target l.m clear := by
    obtain ⟨l', hl', hcases⟩ := h.wf.schedule_cases hs
    obtain rfl : l = l' := Option.some.inj (hl.symm.trans hl')
    rcases hcases with ⟨i, -, -, ha⟩ | ⟨-, ha⟩ <;> exact ⟨Scheduler.arrival_loading ha,
      (Scheduler.Targets.arrival_spawned ha).1, (Scheduler.Targets.arrival_spawned ha).2.2⟩
  refine h.next (some l.m.requestID) (h.runs_step hs) hcalm (hinv.move hloading (.inr hhead))
    (h.kept hs) (fun j hj => ?_) (fun m hm => ?_) h.nodup (fun l' hl' => absurd
    (hstarts.1.symm.trans hl') (by simp)) (fun t target m clear ht hjob hplace => ?_) (fun i L t hi
    hback => ?_) (fun m hm hlock => ?_) fun v hv hlock => ?_
  · rw [hspot, if_neg fun heq : j = l.m.requestID => hj (heq ▸ rfl)]
  · obtain ⟨-, L, -, hmail⟩ := h.mail m hm
    exact .inl ⟨hm, ne_of_spot hloading hmail⟩
  · rcases h.unanswered_of_step hs ht hjob hplace with ⟨hlt, hold, -, hthread⟩ | ⟨-, rfl, l', hl', rfl, rfl⟩
    · exact .inl ⟨hlt, hold, ne_of_spot hloading hthread⟩
    · obtain rfl : l = l' := Option.some.inj (hl.symm.trans hl')
      exact .inr (by rw [hspot, if_pos rfl])
  · obtain rfl := Option.some.inj hi
    rw [hspot, if_pos rfl] at hback
    obtain ⟨rfl, hthread⟩ := Prod.mk.inj (Option.some.inj hback)
    rw [← Spot.thread.inj hthread]
    obtain ⟨-, hnum, clear, hjob⟩ := hstarts
    exact ⟨by show _ < s'.numThreads; omega, l.target, l.m, clear, hjob, rfl, rfl⟩
  · rw [hin]
    exact h.locked m hm hlock
  · rw [hin] at hv
    exact h.inFlight v hv hlock

/-- The continuation of a tail call belongs to the flow. -/
theorem line_of_tailCall {s : Scheduler} {next : Session} (hcall : s.TailCall target next)
    (hflow : target.flow ≠ deactivateFlow) : next.line = target.line := by
  simp [Session.line, hcall.flow_eq, if_neg hflow]

/-- A task ends: its request is answered, or goes on elsewhere. -/
theorem finish (h : Threaded cfg c) {now : Int}
    {here : Bool} (hs : Scheduler.step cfg c.node (.finish t r delete activated now) = some s')
    (hok : c.Issued (.node (.finish t r delete activated now) here))
    (hc : c.step cfg (.node (.finish t r delete activated now) here) = some c') :
    Threaded cfg c' := by
  have hcalm : s'.Calm := h.calm.step h.ordered hok.1 trivial hs
  obtain ⟨target, m, clear, hjob, hplace, hcases⟩ := Scheduler.finish_cases hs
  have hlt := h.wf.lt hplace
  have hunanswered : (c.node.threads t).place.unanswered = true := by rw [hplace]; rfl
  obtain ⟨hhead, hdelete, hdest⟩ :=
    hok.2 target (by simp [Job.target?, hjob]) m (by simp [Job.message?, hjob])
  have hinv : c.callStacks.Inv s'.Executing := by
    refine h.stacks_step hs fun t' r' d' a' n' heq target' m' clear' hjob' => ?_
    rw [← (SchedulerEvent.finish.inj heq).1, hjob] at hjob'
    obtain ⟨rfl, rfl, -⟩ := Job.request.inj hjob'
    exact hhead
  simp only [Calls.step, hs] at hc
  rcases hcases with ⟨hnone, hin⟩ | ⟨dest, method, deferred, hr, hsome, hin⟩
  · simp only [hnone] at hc
    cases hc
    exact h.answered hs hcalm hinv rfl (by simp) hin hlt hjob hunanswered
      (by simp [Scheduler.answers]) hhead
  simp only [hsome] at hc
  rw [← Option.some.inj hc, State.requestID_continuation]
  set v := State.continuation m dest method r.value deferred with hv
  have hthread := h.thread t target m clear hlt hjob hunanswered
  have hspot := CallStacks.spot_move hthread (if here then .mail else .away)
  obtain ⟨hsession, hkeeps⟩ := hdest (dest, method) hr
  have hvdest : v.target = dest := by rw [hv, State.target_continuation]
  have hvid : v.requestID = m.requestID := by rw [hv, State.requestID_continuation]
  have hexec : s'.Executing (if here then .mail else .away) ∨
      (c.callStacks.stack target.line).head? = some m.requestID := .inr hhead
  refine h.next (some m.requestID) (h.runs_step hs) hcalm (hinv.move hthread hexec) (h.kept hs) (fun
    j hj => ?_) (fun m' hm' => ?_) ?_ (fun l hl => ?_) (fun t' target' m' clear' ht' hjob' hplace'
    => ?_) (fun i L t' hi hback => ?_) (fun m' hm' hlock => ?_) fun v' hv' hlock => ?_
  · rw [hspot, if_neg fun heq : j = m.requestID => hj (heq ▸ rfl)]
  · have hold : m' ∈ c.mail → m' ∈ c.mail ∧ some m.requestID ≠ some m'.requestID := by
      intro hmem
      obtain ⟨-, L, -, hmail⟩ := h.mail m' hmem
      exact ⟨hmem, ne_of_spot hthread hmail⟩
    cases here with
    | false => exact .inl (hold hm')
    | true =>
      rcases mem_append.mp hm' with hm' | hm'
      · exact .inl (hold hm')
      rw [mem_singleton] at hm'
      subst hm'
      obtain ⟨next, hnext⟩ := Option.ne_none_iff_exists'.mp (hsession rfl)
      have hcall := hok.1 target (by simp [Job.target?, hjob]) (dest, method) hr next hnext
      have hline : next.line = target.line :=
        line_of_tailCall hcall fun hflow => by simp [hdelete hflow] at hr
      refine .inr ⟨by rw [hv, State.childID_continuation], target.line, ?_, ?_⟩
      · rw [← hline]
        exact line_of_target (hvdest ▸ hnext)
      · rw [hvid, hspot, if_pos rfl]
        rfl
  · cases here with
    | false => exact h.nodup
    | true =>
      show ((c.mail ++ [v]).map (·.requestID)).Nodup
      rw [map_append, map_singleton, hvid, ← concat_eq_append]
      refine h.nodup.concat fun hmem => ?_
      obtain ⟨m', hm', hid⟩ := mem_map.mp hmem
      obtain ⟨-, L', -, hmail⟩ := h.mail m' hm'
      exact ne_of_spot hthread hmail (by simp) (congrArg some hid.symm)
  · have hold := h.loading_of_step hs rfl hl
    exact .inl ⟨hold, ne_of_spot hthread (h.loading l hold)⟩
  · rcases h.unanswered_of_step hs ht' hjob' hplace' with ⟨hlt', hold, hnot, hthread'⟩ | ⟨heq, -⟩
    · refine .inl ⟨hlt', hold, ne_of_spot hthread hthread' fun heq => ?_⟩
      rw [← Spot.thread.inj heq] at hnot
      simp [Scheduler.answers] at hnot
    · simp at heq
  · rw [← Option.some.inj hi, hspot, if_pos rfl] at hback
    cases here <;> simp at hback
  · rw [hin, mem_append]
    cases here with
    | false => exact .inl (h.locked m' hm' hlock)
    | true => exact (mem_append.mp hm').imp (fun hm' => h.locked m' hm' hlock) fun hm' => hm'
  · rw [hin, mem_append] at hv'
    rcases hv' with hv' | hv'
    · have hmem := h.inFlight v' hv' hlock
      cases here with
      | false => exact hmem
      | true => exact mem_append_left _ hmem
    · rw [mem_singleton] at hv'
      subst hv'
      obtain ⟨id, hid⟩ := Option.ne_none_iff_exists'.mp hlock
      obtain ⟨hne, next, hnext, hlockID⟩ := Request.lock?_eq_some.mp hid
      have hhere : here = true := hkeeps next (hvdest ▸ hnext) (hlockID ▸ hne)
      subst hhere
      exact mem_append_right _ (mem_singleton.mpr rfl)

/-- A request whose handler has not been called is the innermost one of its flow. -/
theorem head_of_pending (h : Threaded cfg c) (hlt : t < c.node.numThreads)
    (hjob : (c.node.threads t).job = .request target m clear)
    (hplace : (c.node.threads t).place.pending = true) :
    (c.callStacks.stack target.line).head? = some m.requestID := by
  have hunanswered : (c.node.threads t).place.unanswered = true ∧
      (c.node.threads t).place ≠ .running := by
    cases hp : (c.node.threads t).place <;> simp_all [Place.pending, Place.unanswered]
  exact h.callStacks.head_of_not_exec (h.thread t target m clear hlt hjob hunanswered.1)
    hunanswered.2

theorem step {e : CallsEvent} (h : Threaded cfg c) (hissued : c.Issued e) (hunused : c.Unused e)
    (hc : c.step cfg e = some c') : Threaded cfg c' := by
  cases e with
  | root =>
    refine h.opened hissued.1 hissued.2 (fun L hL i x hi => ?_) hc
    simp [hunused L hL] at hi
  | nested =>
    obtain ⟨hplain, hfresh, hparent, hexec⟩ := hissued
    refine h.opened hplain hfresh (fun L hL i x hi hx => ?_) hc
    exact hexec i (hparent L hL ▸ hi) (L, x) hx
  | arrive =>
    obtain ⟨hplain, hline, haway⟩ := hissued
    obtain ⟨L, hL⟩ := Option.ne_none_iff_exists'.mp hline
    cases hc
    exact h.arrive hplain hL (haway L hL).1 (haway L hL).2
  | leave id =>
    cases hc
    cases hspot : c.callStacks.spot id with
    | none =>
      have hsame : c.callStacks.pop id = c.callStacks := by simp only [CallStacks.pop, hspot]
      rw [hsame]
      exact h
    | some p =>
      obtain ⟨L, x⟩ := p
      obtain ⟨haway, hhead⟩ := hissued (L, x) hspot
      subst haway
      exact h.leave hspot hhead
  | node e =>
    cases hs : Scheduler.step cfg c.node e with
    | none => simp [Calls.step, hs] at hc
    | some s' =>
      have hin := Scheduler.inFlight_of_step h.wf hs
      have hquiet : e.accepts = false → c.node.Delivers e →
          (∀ t r delete activated now, e ≠ .finish t r delete activated now) →
          s'.Calm ∧ c.callStacks.Inv s'.Executing := by
        intro haccepts hdelivers hfinish
        have hclean : Scheduler.NoRecovery e := by
          cases e with
          | accept => simp [SchedulerEvent.accepts] at haccepts
          | _ => trivial
        exact ⟨h.calm.step h.ordered hdelivers hclean hs, h.stacks_step hs
          fun t r delete activated now heq => absurd heq (hfinish t r delete activated now)⟩
      cases e with
      | accept =>
        simp only [Calls.step, hs] at hc
        obtain ⟨_, rfl⟩ := of_guard hc
        exact h.accept hs ‹_›
      | schedule =>
        simp only [Calls.step, hs] at hc
        cases hc
        obtain ⟨l, hl, -⟩ := h.wf.schedule_cases hs
        simp only [hl]
        exact h.schedule hs hl
      | timeout t =>
        simp only [Calls.step, hs] at hc
        cases hc
        obtain ⟨hcalm, hinv⟩ := hquiet rfl trivial (by simp)
        obtain ⟨target, m, clear, hjob, hplace⟩ : ∃ target m clear,
            (c.node.threads t).job = .request target m clear ∧
              (c.node.threads t).place = .waiting := by
          obtain ⟨s₁, ho, -⟩ := Scheduler.step_outcome hs
          cases ho with
          | timedOut hjob hplace => exact ⟨_, _, _, hjob, hplace⟩
        have hlt := h.wf.lt hplace
        exact h.answered hs hcalm hinv rfl (by simp) hin hlt hjob (hplace ▸ rfl)
          (by simp [Scheduler.answers]) (h.head_of_pending hlt hjob (hplace ▸ rfl))
      | enter t =>
        simp only [Calls.step, hs] at hc
        cases hc
        obtain ⟨hcalm, hinv⟩ := hquiet rfl trivial (by simp)
        split
        · exact h.quiet hs hcalm hinv rfl (by simp) hin
        rename_i hnot
        obtain ⟨target, m, clear, hjob, hplace⟩ : ∃ target m clear,
            (c.node.threads t).job = .request target m clear ∧
              (c.node.threads t).place = .acquired := by
          obtain ⟨s₁, ho, -⟩ := Scheduler.step_outcome hs
          cases ho with
          | omitted hjob hplace => exact ⟨_, _, _, hjob, hplace⟩
          | mismatched hjob hplace => exact ⟨_, _, _, hjob, hplace⟩
          | entered hjob hplace => exact ⟨_, _, _, hjob, hplace⟩
        have hlt := h.wf.lt hplace
        exact h.answered hs hcalm hinv rfl (by simp) hin hlt hjob (hplace ▸ rfl)
          (by simp [Scheduler.answers, hnot]) (h.head_of_pending hlt hjob (hplace ▸ rfl))
      | finish => exact h.finish hs hissued hc
      | _ =>
        simp only [Calls.step, hs] at hc
        cases hc
        obtain ⟨hcalm, hinv⟩ := hquiet rfl trivial (by simp)
        exact h.quiet hs hcalm hinv rfl (by simp) hin

theorem of_reachable (h : Reachable (Calls.step cfg) (fun c e => c.Issued e ∧ c.Unused e) .init c) :
    Threaded cfg c :=
  h.invariant .init fun _ _ _ _ hthreaded hok hc => hthreaded.step hok.1 hok.2 hc

/-- Two requests of a flow for the same actor belong to the same logical thread. -/
theorem line_congr {target' : Session} (hflow : target.flow = target'.flow)
    (hkey : target.key = target'.key) : target.line = target'.line := by
  simp [Session.line, hflow, hkey]

/-- Whoever owns the instance with the flow of the request that was looked up executes a task that
the request is nested in, or has left the turn to it. -/
theorem nested_of_active (h : Threaded cfg c) (hl : c.node.loading = some l)
    (hordinary : ordinaryFlow l.target.flow = true) {i : Nat}
    (hentry : c.node.sessionTable l.target.key = some i)
    (hactive : (c.node.instances i).activeFlow = l.target.flow)
    (hlock : c.node.deferredLock l.target = none) :
    ∃ t target m clear, c.node.HasTurn i (.held t) ∧ (c.node.threads t).job = .request target m
      clear ∧ (c.node.threads t).place = .running ∧ (c.callStacks.stack l.target.line).head? = some
      l.m.requestID ∧ m.requestID ∈ (c.callStacks.stack l.target.line).tail := by
  have hloading := h.loading l hl
  have hhead := h.callStacks.head_of_not_exec hloading id
  have hikey := (h.wf.table _ i hentry).1
  rcases h.calm.owner_of_active hordinary hentry hactive with
    ⟨t, target, m, clear, hturn, hlt, hjob, hkey, hflow, hplace⟩ | ⟨id, v, target, hturn, hv⟩
  · have hthread := h.thread t target m clear hlt hjob hplace
    rw [line_congr hflow (hkey.trans hikey)] at hthread
    have hne : m.requestID ≠ l.m.requestID :=
      fun heq => ne_of_spot hthread hloading (by simp) (congrArg some heq)
    have htail := h.callStacks.mem_tail hthread hhead hne
    exact ⟨t, target, m, clear, hturn, hjob, h.callStacks.outer _ _ _ htail hthread, hhead, htail⟩
  exfalso
  have hmem := hv.coming
  rw [Scheduler.coming, hl, mem_append] at hmem
  rcases hmem with hmem | hmem
  · -- Then two requests of the flow are not executed, and both would be the innermost one.
    have hvlock : v.lock? ≠ none := by
      rw [Request.lock?_eq_some.mpr ⟨hv.ne, target, hv.session, hv.lock⟩]
      simp
    obtain ⟨-, L, hL, hmail⟩ := h.mail v (h.inFlight v hmem hvlock)
    rw [line_of_target hv.session] at hL
    rw [← Option.some.inj hL, line_congr (hv.active.trans hactive) (hv.key.trans hikey)] at hmail
    have hhead' := h.callStacks.head_of_not_exec hmail (fun hexec => hexec)
    rw [Option.some.inj (hhead'.symm.trans hhead), hloading] at hmail
    simp at hmail
  · obtain rfl : v = l.m := mem_singleton.mp hmem
    exact (Scheduler.Flows.parked_loaded h.calm.sound h.ordered.aged h.targets hl hturn hv).2.2
      hlock

/-- A continuation that resumes a parked turn resumes the one of the instance in the table. -/
theorem parked_of_resume (h : Threaded cfg c) (hl : c.node.loading = some l)
    (hentry : c.node.sessionTable l.target.key = some i) (hd : c.node.deferredLock l.target = some d) :
    c.node.HasTurn i (.parked l.target.deferredLockID) := by
  obtain ⟨hne, hparked⟩ : l.target.deferredLockID ≠ "" ∧
      c.node.deferredLocks.get? l.target.deferredLockID = some d := by
    obtain ⟨_, hd⟩ := Option.ite_none_right_eq_some.mp hd
    exact ⟨‹_›, hd⟩
  have hturn : c.node.HasTurn d.owner (.parked l.target.deferredLockID) := ⟨d, hparked, rfl⟩
  obtain ⟨v, target, hv⟩ := h.calm.flows.owned _ _ hturn
  obtain rfl : v = l.m := by
    refine eq_of_nodup_filterMap h.calm.flows.lockIDs hv.coming (by simp [Scheduler.coming, hl])
      (Request.lock?_eq_some.mpr ⟨hv.ne, target, hv.session, hv.lock⟩)
      (Request.lock?_eq_some.mpr ⟨hne, l.target, h.targets.loading l hl, rfl⟩)
  have hentry' := (Scheduler.Flows.parked_loaded h.calm.sound h.ordered.aged h.targets hl hturn hv).1
  rwa [Option.some.inj (hentry'.symm.trans hentry)] at hturn

end Threaded

/-- Why the request that was looked up does not wait for its turn: it is nested in a request whose
task executes with the turn of the instance, or the turn is parked for it. -/
def Reenters (c : Calls) (l : Loading) : Prop :=
  ∃ i, c.node.sessionTable l.target.key = some i ∧
    ((∃ t target m clear, c.node.HasTurn i (.held t) ∧
      (c.node.threads t).job = .request target m clear ∧ (c.node.threads t).place = .running ∧
      (c.callStacks.stack l.target.line).head? = some l.m.requestID ∧
      m.requestID ∈ (c.callStacks.stack l.target.line).tail) ∨
    c.node.HasTurn i (.parked l.target.deferredLockID))

/-- The request is the root of its stack. -/
def IsRoot (c : Calls) (L : Line) (id : String) : Prop := (c.callStacks.stack L).getLast? = some id

open Scheduler (actorConfig account callGet)

/-- A call of the task of `parentID` on the account. -/
def nestedGet (requestID flow parentID : String) : Request :=
  .call {
    requestID := requestID
    value := []
    deadline := none
    target := .session "Account" "7" flow ""
    method := "get"
    caller := "n0"
    sequence := 0
    childID := ""
    parentID := parentID
    isEdited := false }

/-- A tell to the account, as `DeleteActor` and a subscription send it. -/
def tellGet (requestID flow : String) : Request :=
  .tell {
    requestID := requestID
    value := []
    deadline := none
    target := .session "Account" "7" flow ""
    method := "get"
    sequence := 0
    childID := ""
    parentID := ""
    isEdited := false }

/-- The steps in which the node accepts a request that waits for its turn as goroutine `t`, and
calls the handler. -/
def executes (m : Request) (t : Nat) : List CallsEvent :=
  [.accept m 0, .schedule, .receive t, .acquire t, .enter t false 0].map (.node · true)

/-- The goroutines of two tells, both in their handler, and the queue that the second one has. -/
def overlap (c : Calls) : Place × Place × Option Request × Option Chan :=
  ((c.node.threads 0).place, (c.node.threads 1).place, (c.node.threads 1).job.message?,
    (c.node.threads 1).before)

/-- Two tells of one flow are in their handlers, the second one without a queue place. -/
def Overlaps (flow : String) : Prop :=
  ∃ c, Reachable (Calls.step actorConfig) Issued .init c ∧
    c.overlap = (.running, .running, some (tellGet "r2" flow), none)

/-- Both tells arrive before the first one is executed. -/
def overlapEvents (flow : String) : List CallsEvent :=
  [.root (tellGet "r1" flow) true, .root (tellGet "r2" flow) true] ++
    executes (tellGet "r1" flow) 0 ++ ([.accept (tellGet "r2" flow) 0, .schedule, .acquire 1,
      .enter 1 false 0].map fun e => .node e true)

theorem overlaps_of_run (hok : runOk (Calls.step actorConfig) Issued .init (overlapEvents flow) = true)
    (hlast : (run (Calls.step actorConfig) .init (overlapEvents flow)).map overlap =
      some (.running, .running, some (tellGet "r2" flow), none)) : Overlaps flow := by
  obtain ⟨c, hrun, hc⟩ := reachable_of_run .init hok
  exact ⟨c, hc, eq_of_run overlap hrun hlast⟩

end Calls

end Kar.Rpc
