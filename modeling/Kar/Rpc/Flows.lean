import Kar.Rpc.Order

/-!
# The flow of an instance

`ActiveFlow` names the flow that owns an instance.  `acceptSession` recognises a nested call,
or the continuation of a tail call, by nothing else: a request whose flow is the active one
does not wait for its turn.  So the field has to agree with the turn.

`Expects` says what the active flow is while the turn is at a place.  It is `released` while
the turn is sent on a channel, the flow of the request while a request executes, and the flow
of the continuation while the turn is parked for it.  `Flows` is the invariant, and it holds in
all runs whose steps are `Regular`: continuations come back to the node that sent them
(`Delivers`), and a recovered request, which waits for its child, comes when its actor has no
instance yet and does not time out (`RecoversFirst`).  Without the second condition the code
does not keep the invariant.
-/

namespace Kar.Rpc

open Kar.Lib List

/-- `handlerActor`: the target of a tail call of an actor to an actor.  The lock is kept if
it is the same actor and `releaseLock` is not set. -/
def Session.nextActor (target : Session) (name id : String) (releaseLock : Bool)
    (lockID : String) : Session where
  name := name
  id := id
  flow := target.flow
  deferredLockID :=
    if name = target.name ∧ id = target.id ∧ releaseLock = false then lockID else ""

/-- The lock that a request presents. -/
def Request.lock? (m : Request) : Option String :=
  m.target.session?.bind fun target =>
    if target.deferredLockID = "" then none else some target.deferredLockID

variable {id : String} {m : Request}

theorem Request.lock?_eq_some : m.lock? = some id ↔
    id ≠ "" ∧ ∃ target, m.target.session? = some target ∧ target.deferredLockID = id := by
  unfold lock?
  cases htarget : m.target.session? with
  | none => simp
  | some target =>
    by_cases hlock : target.deferredLockID = ""
    · simp only [Option.bind_some, hlock, if_true]
      constructor
      · simp
      · rintro ⟨hid, target', heq, rfl⟩
        rw [← Option.some.inj heq] at hid
        exact absurd hlock hid
    · simp only [Option.bind_some, hlock, if_false, Option.some.injEq]
      constructor
      · rintro rfl
        exact ⟨hlock, target, rfl, rfl⟩
      · rintro ⟨-, target', rfl, hid⟩
        exact hid

def Job.target? : Job → Option Session
  | .request target _ _ => some target
  | .deactivation => none

def Job.message? : Job → Option Request
  | .request _ m _ => some m
  | .deactivation => none

namespace Place

/-- The places of a request that owns the instance. -/
def owns : Place → Bool
  | awaiting | acquired | running => true
  | _ => false

/-- The places of a deactivation that owns the instance. -/
def takesOver : Place → Bool
  | claimed | probed _ | callback | settling => true
  | _ => false

end Place

/-- The active flow of the instance while the goroutine has its turn. -/
def Thread.Owns (u : Thread) (flow : String) : Prop :=
  match u.job with
  | .request target m _ =>
    -- A continuation finds the flow of its predecessor, and a recovered request the one that
    -- its new instance was made with.
    flow = if u.place.owns = true ∨ u.place = .arrived ∧ (u.before = none ∨ m.childID ≠ "")
      then target.flow else releasedFlow
  | .deactivation =>
    if u.place.takesOver = true then ∃ uuid, flow = "flow-deactivate-" ++ uuid
    else flow = releasedFlow

namespace Scheduler

/-! ## Regular runs -/

/-- The requests that the node is about to schedule: continuations on their way, and the one
that was looked up. -/
def coming (s : Scheduler) : List Request := s.inFlight ++ (s.loading.map (·.m)).toList

/-- The locks that these requests present. -/
def lockIDs (s : Scheduler) : List String := s.coming.filterMap (·.lock?)

/-- A task for `target` may make a tail call to `next`. -/
def TailCall (s : Scheduler) (target next : Session) : Prop :=
  (∃ releaseLock ∈ [true, false],
    next = target.nextActor next.name next.id releaseLock next.deferredLockID) ∧
  (next.deferredLockID ≠ "" → s.deferredLocks.get? next.deferredLockID = none ∧
    next.deferredLockID ∉ s.lockIDs)

/-- A request that presents a lock is a continuation that this node has sent and not yet
accepted, and tail calls are those of `handlerActor`. -/
def Delivers (s : Scheduler) : SchedulerEvent → Prop
  | .accept m _ => m.lock? ≠ none → m ∈ s.inFlight
  | .finish t r _ _ _ => ∀ target ∈ (s.threads t).job.target?, ∀ dest ∈ r.dest,
    ∀ next ∈ dest.1.session?, s.TailCall target next
  | _ => True

/-- A recovered request comes first to its actor and does not time out. -/
def RecoversFirst (s : Scheduler) : SchedulerEvent → Prop
  | .accept m _ => m.childID ≠ "" → ∀ target ∈ m.target.session?,
    s.sessionTable target.key = none ∧ target.flow ≠ nonexclusiveFlow
  | .timeout t => ∀ m ∈ (s.threads t).job.message?, m.childID = ""
  | _ => True

def Regular (s : Scheduler) (e : SchedulerEvent) : Prop := s.Delivers e ∧ s.RecoversFirst e

instance (s : Scheduler) (target next : Session) : Decidable (s.TailCall target next) :=
  inferInstanceAs (Decidable (_ ∧ _))

instance (s : Scheduler) (e : SchedulerEvent) : Decidable (s.Delivers e) :=
  match e with
  | .accept m _ => inferInstanceAs (Decidable (m.lock? ≠ none → m ∈ s.inFlight))
  | .finish t r _ _ _ => inferInstanceAs (Decidable (∀ target ∈ (s.threads t).job.target?,
      ∀ dest ∈ r.dest, ∀ next ∈ dest.1.session?, s.TailCall target next))
  | .schedule | .receive _ | .timeout _ | .awaitChild _ | .childDone _ | .acquire _ | .enter ..
  | .pass _ | .collect .. | .claim .. | .probe _ | .beginCallback _ | .callbackDone ..
  | .settle _ | .remove _ | .close _ => inferInstanceAs (Decidable True)

instance (s : Scheduler) (e : SchedulerEvent) : Decidable (s.RecoversFirst e) :=
  match e with
  | .accept m _ => inferInstanceAs (Decidable (m.childID ≠ "" → ∀ target ∈ m.target.session?,
      s.sessionTable target.key = none ∧ target.flow ≠ nonexclusiveFlow))
  | .timeout t => inferInstanceAs (Decidable (∀ m ∈ (s.threads t).job.message?, m.childID = ""))
  | .finish .. | .schedule | .receive _ | .awaitChild _ | .childDone _ | .acquire _ | .enter ..
  | .pass _ | .collect .. | .claim .. | .probe _ | .beginCallback _ | .callbackDone ..
  | .settle _ | .remove _ | .close _ => inferInstanceAs (Decidable True)

instance (s : Scheduler) (e : SchedulerEvent) : Decidable (s.Regular e) :=
  inferInstanceAs (Decidable (_ ∧ _))

section TailCall

variable {s : Scheduler}

theorem TailCall.flow_eq {next : Session} (h : s.TailCall target next) : next.flow = target.flow := by
  obtain ⟨⟨releaseLock, -, heq⟩, -⟩ := h
  rw [heq]
  rfl

theorem TailCall.key_eq {next : Session} (h : s.TailCall target next) (hlock : next.deferredLockID ≠ "") :
    next.key = target.key := by
  obtain ⟨⟨releaseLock, -, heq⟩, -⟩ := h
  rw [heq] at hlock
  unfold Session.nextActor at hlock
  split at hlock
  · rename_i hsame
    simp [Session.key, hsame.1, hsame.2.1]
  · exact absurd rfl hlock

end TailCall

/-! ## The invariant -/

/-- A recovered request with the flow waits, or has waited, for the turn on the channel `c`. -/
def Recovers (s : Scheduler) (c : Chan) (flow : String) : Prop :=
  ∃ t target m clear, (s.threads t).before = some c ∧
    (s.threads t).job = .request target m clear ∧ m.childID ≠ "" ∧ target.flow = flow

/-- The turn of the instance `i`, which is owned by `flow`, is parked under `id` for the
continuation `v`. -/
structure ParkedFor (s : Scheduler) (i : Nat) (id flow : String) (v : Request)
    (target : Session) : Prop where
  coming : v ∈ s.coming
  session : v.target.session? = some target
  lock : target.deferredLockID = id
  ne : id ≠ ""
  key : target.key = (s.instances i).key
  active : target.flow = flow
  deadline : v.deadline = none

/-- The active flow of the instance `i` while its turn is at a place. -/
def Expects (s : Scheduler) (i : Nat) : Turn → String → Prop
  | .sent c, flow => s.Recovers c flow ∨ flow = releasedFlow ∧ ∀ flow', ¬s.Recovers c flow'
  | .held t, flow => (s.threads t).Owns flow
  | .parked id, flow => ∃ v target, s.ParkedFor i id flow v target

/-- What holds of a goroutine. -/
structure Task (s : Scheduler) (u : Thread) : Prop where
  owner : ∀ c, u.after = some c → c.owner = u.inst ∧ c.num ≠ 0
  awaits : u.place = .awaiting ∨ u.place = .resumed → u.before ≠ none
  deactivates : u.place.deactivates = true → u.job = .deactivation
  request : ∀ target m clear, u.job = .request target m clear →
    (s.instances u.inst).key = target.key ∧ (clear = true ↔ u.after ≠ none) ∧
      (u.before = none → m.childID = "") ∧ (u.place = .timedOut → m.childID = "") ∧
      (m.childID ≠ "" → ∀ c, u.before = some c → c.num = 0)

structure Flows (s : Scheduler) : Prop where
  task : ∀ t, t < s.numThreads → s.Task (s.threads t)
  recovers : ∀ l, s.loading = some l → l.m.childID ≠ "" →
    s.sessionTable l.target.key = none ∧ l.target.flow ≠ nonexclusiveFlow
  lockIDs : s.lockIDs.Nodup
  parked : ∀ id c, s.deferredLocks.get? id = some c → c.num ≠ 0
  owned : ∀ i p, s.HasTurn i p → s.Expects i p (s.instances i).activeFlow

section Frames

variable {s s' : Scheduler}

theorem recovers_congr (hbefore : ∀ t, (s'.threads t).before = (s.threads t).before)
    (hjob : ∀ t, (s'.threads t).job = (s.threads t).job) :
    s'.Recovers c flow ↔ s.Recovers c flow := by
  simp [Recovers, hbefore, hjob]

theorem ParkedFor.mono (h : s.ParkedFor i id flow v target) (hcoming : v ∈ s'.coming)
    (hkey : (s'.instances i).key = (s.instances i).key) :
    s'.ParkedFor i id flow v target :=
  { h with coming := hcoming, key := h.key.trans hkey.symm }

theorem Task.of_key (h : s.Task u)
    (hkey : (s'.instances u.inst).key = (s.instances u.inst).key) : s'.Task u :=
  { h with request := fun target m clear hjob => hkey ▸ h.request target m clear hjob }

/-- A goroutine goes to a place that is neither `timedOut` nor one that only some reach. -/
theorem Task.goto (h : s.Task u)
    (hdeactivates : p.deactivates = true → u.job = .deactivation := by simp [Place.deactivates])
    (hawaits : p = .awaiting ∨ p = .resumed → u.before ≠ none := by simp)
    (hp : p ≠ .timedOut := by simp) : s.Task { u with place := p } where
  owner := h.owner
  awaits := hawaits
  deactivates := hdeactivates
  request := fun target m clear hjob => by
    obtain ⟨hkey, hclear, hchild, -, hnum⟩ := h.request target m clear hjob
    exact ⟨hkey, hclear, hchild, fun htimedOut => absurd htimedOut hp, hnum⟩

theorem coming_eq (hin : s'.inFlight = s.inFlight) (hloading : s'.loading = s.loading) :
    s'.coming = s.coming := by
  rw [coming, coming, hin, hloading]

theorem Expects.congr (h : s.Expects i q flow)
    (hbefore : ∀ t, (s'.threads t).before = (s.threads t).before)
    (hjob : ∀ t, (s'.threads t).job = (s.threads t).job)
    (hheld : ∀ t, q = .held t → s'.threads t = s.threads t)
    (hcoming : ∀ id v target, q = .parked id → s.ParkedFor i id flow v target → v ∈ s'.coming)
    (hkey : (s'.instances i).key = (s.instances i).key) : s'.Expects i q flow := by
  cases q with
  | sent =>
    simp only [Expects, recovers_congr hbefore hjob]
    exact h
  | held t =>
    rw [Expects, hheld t rfl]
    exact h
  | parked id =>
    obtain ⟨v, target, hv⟩ := h
    exact ⟨v, target, hv.mono (hcoming id v target rfl hv) hkey⟩

/-- Where the turn is depends on the goroutines that hold one, the channels and the locks. -/
theorem HasTurn.congr (h : s'.HasTurn i q) (hheld : ∀ t, q = .held t → s'.threads t = s.threads t)
    (hfull : ∀ c, q = .sent c → s'.full c = s.full c)
    (hparked : ∀ id, q = .parked id → s'.deferredLocks.get? id = s.deferredLocks.get? id) :
    s.HasTurn i q := by
  cases q with
  | sent c => exact ⟨hfull c rfl ▸ h.1, h.2⟩
  | held t =>
    have heq := hheld t rfl
    rw [HasTurn, heq] at h
    exact h
  | parked id =>
    obtain ⟨c, hc, hi⟩ := h
    exact ⟨c, hparked id rfl ▸ hc, hi⟩

end Frames

/-! ## A goroutine moves -/

/-- The goroutine `t` goes to the place `p`, and neither a turn nor a message moves. -/
structure Moves (s s' : Scheduler) (t : Nat) (p : Place) : Prop where
  threads : s'.threads = (s.goto t p).threads
  numThreads : s'.numThreads = s.numThreads
  full : s'.full = s.full
  deferredLocks : s'.deferredLocks = s.deferredLocks
  loading : s'.loading = s.loading
  inFlight : s'.inFlight = s.inFlight
  key : ∀ i, (s'.instances i).key = (s.instances i).key
  table : ∀ k, s.sessionTable k = none → s'.sessionTable k = none

namespace Moves

theorem of_silent (hs : Silent (s.goto t p) s') (hin : s'.inFlight = s.inFlight) :
    Moves s s' t p where
  threads := hs.threads
  numThreads := hs.numThreads
  full := hs.full
  deferredLocks := hs.deferredLocks
  loading := hs.loading
  inFlight := hin
  key := hs.key
  table := by
    rw [hs.sessionTable]
    exact fun _ hk => hk

theorem threads_of_ne (h : Moves s s' t p) {u : Nat} (hu : u ≠ t) :
    s'.threads u = s.threads u := by
  rw [h.threads]
  exact Function.update_of_ne hu _ _

theorem threads_self (h : Moves s s' t p) : s'.threads t = { s.threads t with place := p } := by
  rw [h.threads]
  exact Function.update_self ..

/-- The turn of every goroutine but `t` is where it was. -/
theorem hasTurn_of_ne (h : Moves s s' t p) (hq : s'.HasTurn i q)
    (hne : q ≠ .held t) : s.HasTurn i q := by
  refine hq.congr (fun u hu => h.threads_of_ne ?_) (fun c _ => by rw [h.full])
    fun id _ => by rw [h.deferredLocks]
  rintro rfl
  exact hne hu

theorem expects_of_ne (h : Moves s s' t p)
    (hq : s.Expects i q flow) (hne : q ≠ .held t) : s'.Expects i q flow := by
  refine hq.congr (fun u => ?_) (fun u => ?_) (fun u hu => h.threads_of_ne ?_)
    (fun _ v _ _ hv => ?_) (h.key i)
  · rw [h.threads, goto_before]
  · rw [h.threads, goto_job]
  · rintro rfl
    exact hne hu
  · rw [coming_eq h.inFlight h.loading]
    exact hv.coming

end Moves

namespace Flows

section Moves

variable {s s' : Scheduler} {t : Nat} {p : Place}

theorem moved (h : Flows s) (hs : Moves s s' t p) (htask : s.Task { s.threads t with place := p })
    (howned : ∀ i q, s'.HasTurn i q → s'.Expects i q (s'.instances i).activeFlow) : Flows s' where
  task := by
    intro u hu
    rw [hs.numThreads] at hu
    refine Task.of_key (s := s) ?_ (hs.key _)
    by_cases hut : u = t
    · rw [hut, hs.threads_self]
      exact htask
    · rw [hs.threads_of_ne hut]
      exact h.task u hu
  recovers := by
    intro l hl hchild
    rw [hs.loading] at hl
    exact (h.recovers l hl hchild).imp (hs.table _) id
  lockIDs := by
    rw [Scheduler.lockIDs, coming_eq hs.inFlight hs.loading]
    exact h.lockIDs
  parked := by
    rw [hs.deferredLocks]
    exact h.parked
  owned := howned

/-- A goroutine moves and leaves the flow alone. -/
theorem keep (h : Flows s) (hs : Moves s s' t p)
    (hflow : ∀ i, (s'.instances i).activeFlow = (s.instances i).activeFlow)
    (htask : s.Task { s.threads t with place := p })
    (howns : p.phase = .holds → (s.threads t).after ≠ none → Thread.Owns { s.threads t with place :=
      p } (s.instances (s.threads t).inst).activeFlow) : Flows s' := by
  refine h.moved hs htask fun i q hq => ?_
  rw [hflow i]
  by_cases hqt : q = .held t
  · subst hqt
    obtain ⟨hphase, c, hc, hi⟩ := hq
    rw [hs.threads_self] at hphase hc
    have hafter : (s.threads t).after = some c := hc
    rw [Expects, hs.threads_self, ← hi, (htask.owner c hafter).1]
    exact howns hphase (by simp [hafter])
  · exact hs.expects_of_ne (h.owned i q (hs.hasTurn_of_ne hq hqt)) hqt

/-- The active flow while a goroutine has the turn. -/
theorem owns (h : Flows s) (hwf : Wf s) (hplace : (s.threads t).place = p)
    (hafter : (s.threads t).after ≠ none) (hp : p.phase = .holds := by rfl) :
    (s.threads t).Owns (s.instances (s.threads t).inst).activeFlow := by
  obtain ⟨c, hc⟩ := Option.ne_none_iff_exists'.mp hafter
  have hlt := hwf.lt hplace (by rintro rfl; cases hp)
  exact h.owned _ (.held t) ⟨hplace ▸ hp, c, hc, ((h.task t hlt).owner c hc).1⟩

/-- The goroutine that has the turn moves and may change the flow of its instance. -/
theorem set (h : Flows s) (hsound : Sound D s) (hs : Moves s s' t p)
    (hholds : (s.threads t).place.phase = .holds) (hafter : (s.threads t).after ≠ none)
    (hflow : ∀ i, (s'.instances i).activeFlow =
      if i = (s.threads t).inst then flow else (s.instances i).activeFlow)
    (htask : s.Task { s.threads t with place := p })
    (howns : Thread.Owns { s.threads t with place := p } flow) : Flows s' := by
  obtain ⟨c, hc⟩ := Option.ne_none_iff_exists'.mp hafter
  have howner : c.owner = (s.threads t).inst := (htask.owner c hc).1
  have hheld : s.HasTurn (s.threads t).inst (.held t) := ⟨hholds, c, hc, howner⟩
  refine h.moved hs htask fun i q hq => ?_
  by_cases hqt : q = .held t
  · subst hqt
    obtain ⟨-, d, hd, hi⟩ := hq
    rw [hs.threads_self] at hd
    obtain rfl : i = (s.threads t).inst := by
      rw [← hi, Option.some.inj (hd.symm.trans hc), howner]
    rw [Expects, hs.threads_self, hflow, if_pos rfl]
    exact howns
  · have hq' := hs.hasTurn_of_ne hq hqt
    -- The turn of this instance is with `t`.
    have hne : i ≠ (s.threads t).inst := by
      rintro rfl
      exact hqt (hsound.hasTurn_unique hq' hheld)
    rw [hflow, if_neg hne]
    exact hs.expects_of_ne (h.owned i q hq') hqt

/-- The goroutine of a request ends, or is about to send its turn. -/
theorem endTask (h : Flows s) (hsound : Sound D s) (hs : Moves s s' t (s.endPlace t))
    (hjob : (s.threads t).job = .request target m clear) (hlt : t < s.numThreads)
    (hplace : (s.threads t).place.phase = .holds) (hflow : ∀ i, (s'.instances i).activeFlow =
      if clear = true ∧ i = (s.threads t).inst then releasedFlow
      else (s.instances i).activeFlow) : Flows s' := by
  have htask := h.task t hlt
  obtain ⟨-, hclear, -⟩ := htask.request target m clear hjob
  by_cases hafter : (s.threads t).after = none
  · have hp : s.endPlace t = .ended := by rw [endPlace, if_pos hafter]
    have hclear : clear ≠ true := fun htrue => hclear.mp htrue hafter
    rw [hp] at hs
    refine h.keep hs (fun i => ?_) htask.goto
      (by simp [Place.phase])
    rw [hflow, if_neg fun hand => hclear hand.1]
  have hp : s.endPlace t = .releasing := by rw [endPlace, if_neg hafter]
  rw [hp] at hs
  have hflow : ∀ i, (s'.instances i).activeFlow =
      if i = (s.threads t).inst then releasedFlow else (s.instances i).activeFlow := by
    intro i
    rw [hflow]
    simp [hclear.mpr hafter]
  exact h.set hsound hs hplace hafter hflow htask.goto
    (by simp [Thread.Owns, hjob, Place.owns])

end Moves

/-! ## A turn or a message moves -/

section Turns

/-- The goroutines, the keys and the flows are the same, and every turn is where it was or where
its instance has the flow for it. -/
theorem frame (h : Flows s) (hthreads : s'.threads = s.threads) (hnum : s'.numThreads = s.numThreads)
    (hkey : ∀ i, (s'.instances i).key = (s.instances i).key)
    (hflow : ∀ i, (s'.instances i).activeFlow = (s.instances i).activeFlow)
    (hrecovers : ∀ l, s'.loading = some l → l.m.childID ≠ "" →
      s'.sessionTable l.target.key = none ∧ l.target.flow ≠ nonexclusiveFlow)
    (hlockIDs : s'.lockIDs.Nodup) (hparked : ∀ id c, s'.deferredLocks.get? id = some c → c.num ≠ 0)
    (hturn : ∀ i q, s'.HasTurn i q → s'.Expects i q (s.instances i).activeFlow ∨ s.HasTurn i q ∧ ∀
      id v target, q = .parked id → s.ParkedFor i id (s.instances i).activeFlow v target → v ∈
      s'.coming) : Flows s' where
  task := by
    intro t ht
    rw [hnum] at ht
    rw [hthreads]
    exact (h.task t ht).of_key (hkey _)
  recovers := hrecovers
  lockIDs := hlockIDs
  parked := hparked
  owned := by
    intro i q hq
    rw [hflow i]
    rcases hturn i q hq with hexpects | ⟨hq, hcoming⟩
    · exact hexpects
    · exact (h.owned i q hq).congr (fun _ => by rw [hthreads]) (fun _ => by rw [hthreads])
        (fun _ _ => by rw [hthreads]) hcoming (hkey i)

/-- What the flows do not depend on may change. -/
theorem congr (h : Flows s) (hthreads : s'.threads = s.threads) (hnum : s'.numThreads = s.numThreads)
    (hkey : ∀ i, (s'.instances i).key = (s.instances i).key)
    (hflow : ∀ i, (s'.instances i).activeFlow = (s.instances i).activeFlow) (hfull : s'.full = s.full)
    (hlocks : s'.deferredLocks = s.deferredLocks) (hloading : s'.loading = s.loading)
    (hin : s'.inFlight = s.inFlight) (htable : ∀ k, s.sessionTable k = none → s'.sessionTable k = none) :
    Flows s' := by
  refine h.frame hthreads hnum hkey hflow (fun l hl hchild => ?_) ?_ ?_ fun i q hq => .inr ⟨?_, ?_⟩
  · rw [hloading] at hl
    exact (h.recovers l hl hchild).imp (htable _) id
  · rw [Scheduler.lockIDs, coming_eq hin hloading]
    exact h.lockIDs
  · rw [hlocks]
    exact h.parked
  · exact hq.congr (fun _ _ => by rw [hthreads]) (fun _ _ => by rw [hfull])
      fun _ _ => by rw [hlocks]
  · intro id v target _ hv
    rw [coming_eq hin hloading]
    exact hv.coming

theorem same (h : Flows s) (hs : Same s s') : Flows s' :=
  h.congr hs.threads hs.numThreads hs.key hs.activeFlow hs.full hs.deferredLocks hs.loading
    hs.inFlight fun _ hk => by rw [hs.sessionTable]; exact hk

/-- The channel `c` is filled or emptied. -/
theorem setFull (h : Flows s)
    (hc : b = true → s.Expects c.owner (.sent c) (s.instances c.owner).activeFlow) :
    Flows (s.setFull c b) := by
  refine h.frame rfl rfl (fun _ => rfl) (fun _ => rfl) h.recovers h.lockIDs h.parked
    fun i q hq => ?_
  by_cases hqc : q = .sent c
  · subst hqc
    obtain ⟨hfull, hi⟩ := hq
    have hb : b = true := by simpa [Scheduler.setFull] using hfull
    rw [← hi]
    exact .inl (hc hb)
  · refine .inr ⟨hq.congr (fun _ _ => rfl) (fun d hd => ?_) fun _ _ => rfl, fun _ _ _ _ hv => hv.coming⟩
    refine Function.update_of_ne ?_ _ _
    rintro rfl
    exact hqc hd

/-- The locks change: each of them is an old one, or the turn of an instance that has the flow
for it. -/
theorem setLocks (h : Flows s)
    (hlocks : ∀ id c, locks.get? id = some c → s.deferredLocks.get? id = some c ∨
      c.num ≠ 0 ∧ s.Expects c.owner (.parked id) (s.instances c.owner).activeFlow) :
    Flows { s with deferredLocks := locks } := by
  refine h.frame rfl rfl (fun _ => rfl) (fun _ => rfl) h.recovers h.lockIDs (fun id c hc => ?_)
    fun i q hq => ?_
  · exact (hlocks id c hc).elim (h.parked id c) (·.1)
  cases q with
  | sent => exact .inr ⟨hq, by simp⟩
  | held => exact .inr ⟨hq, by simp⟩
  | parked id =>
    obtain ⟨c, hc, hi⟩ := hq
    rcases hlocks id c hc with hold | ⟨-, hexpects⟩
    · exact .inr ⟨⟨c, hold, hi⟩, fun _ _ _ _ hv => hv.coming⟩
    · obtain ⟨v, target, hv⟩ := hexpects
      rw [← hi]
      exact .inl ⟨v, target, { hv with }⟩

/-- The messages that are coming change, but for those that a parked turn waits for. -/
theorem setComing (h : Flows s) {inFlight : List Request} {loading : Option Loading}
    (hrecovers : ∀ l, loading = some l → l.m.childID ≠ "" →
      s.sessionTable l.target.key = none ∧ l.target.flow ≠ nonexclusiveFlow)
    (hlockIDs : ({ s with inFlight := inFlight, loading := loading } : Scheduler).lockIDs.Nodup)
    (hcoming : ∀ i id v target, s.HasTurn i (.parked id) → s.ParkedFor i id (s.instances
      i).activeFlow v target → v ∈ ({ s with inFlight := inFlight, loading := loading } :
      Scheduler).coming) :
    Flows { s with inFlight := inFlight, loading := loading } := by
  refine h.frame rfl rfl (fun _ => rfl) (fun _ => rfl) hrecovers hlockIDs h.parked
    fun i q hq => .inr ⟨hq.congr (fun _ _ => rfl) (fun _ _ => rfl) fun _ _ => rfl, ?_⟩
  rintro id v target rfl hv
  exact hcoming i id v target hq hv

theorem continuing (h : Flows s) {v : Request} (hv : ∀ id ∈ v.lock?, id ∉ s.lockIDs) :
    Flows (s.continuing v) := by
  have hperm : (s.continuing v).coming.Perm (v :: s.coming) := by
    simp only [Scheduler.coming, Scheduler.continuing, append_assoc]
    exact perm_middle
  refine h.setComing h.recovers ?_ fun _ _ w _ _ hw => ?_
  · refine (hperm.filterMap _).nodup_iff.mpr ?_
    cases hlock : v.lock? with
    | none =>
      rw [filterMap_cons_none hlock]
      exact h.lockIDs
    | some id =>
      rw [filterMap_cons_some hlock]
      exact nodup_cons.mpr ⟨hv id hlock, h.lockIDs⟩
  · exact hperm.mem_iff.mpr (mem_cons_of_mem v hw.coming)

/-- A goroutine starts.  If it is the one of a recovered request, the channel it waits on is
empty. -/
theorem spawn (h : Flows s) (htask : s.Task u)
    (hrecovers : ∀ c, u.before = some c → s.full c = true → ∀ m ∈ u.job.message?, m.childID = "")
    (howns : u.place.phase = .holds → ∀ c, u.after = some c →
      u.Owns (s.instances c.owner).activeFlow)
    (hfresh : (s.threads s.numThreads).before = none) : Flows (s.spawn u) where
  task := by
    intro t ht
    have ht : t < s.numThreads + 1 := ht
    rw [spawn_threads]
    split
    · exact { htask with }
    · exact { h.task t (by omega) with }
  recovers := h.recovers
  lockIDs := h.lockIDs
  parked := h.parked
  owned := by
    intro i q hq
    have hflow : ((s.spawn u).instances i).activeFlow = (s.instances i).activeFlow := rfl
    rw [hflow]
    cases q with
    | sent c =>
      have hfull : s.full c = true := hq.1
      have hiff : ∀ flow, (s.spawn u).Recovers c flow ↔ s.Recovers c flow := by
        intro flow
        constructor
        · rintro ⟨t, target, m, clear, hbefore, hjob, hchild, hflow⟩
          rw [spawn_threads] at hbefore hjob
          split at hbefore
          · rw [if_pos ‹_›] at hjob
            exact absurd (hrecovers c hbefore hfull m (by simp [Job.message?, hjob])) hchild
          · rw [if_neg ‹_›] at hjob
            exact ⟨t, target, m, clear, hbefore, hjob, hchild, hflow⟩
        · rintro ⟨t, target, m, clear, hbefore, hjob, hchild, hflow⟩
          have ht : t ≠ s.numThreads := by
            rintro rfl
            simp [hfresh] at hbefore
          refine ⟨t, target, m, clear, ?_, ?_, hchild, hflow⟩
          · rwa [spawn_threads, if_neg ht]
          · rwa [spawn_threads, if_neg ht]
      simp only [Expects, hiff]
      exact h.owned i (.sent c) hq
    | held t =>
      rw [HasTurn, spawn_threads] at hq
      rw [Expects, spawn_threads]
      split at hq
      · obtain ⟨hphase, c, hc, hi⟩ := hq
        rw [if_pos ‹_›, ← hi]
        exact howns hphase c hc
      · rw [if_neg ‹_›]
        exact h.owned i (.held t) hq
    | parked id =>
      obtain ⟨v, target, hv⟩ := h.owned i (.parked id) hq
      exact ⟨v, target, { hv with }⟩

/-- An instance is made, and its first channel is still empty. -/
theorem newInstance (h : Flows s) (hwf : Wf s) (target : Session) (m : Request)
    (hloading : s.loading = none) : Flows { s.newInstance target m with full := s.full } := by
  have hold : ∀ i, i < s.numInstances → (s.newInstance target m).instances i = s.instances i :=
    fun i hi => Function.update_of_ne (Nat.ne_of_lt hi) _ _
  refine ⟨fun t ht => ?_, fun l hl => ?_, h.lockIDs, h.parked, fun i q hq => ?_⟩
  · exact (h.task t ht).of_key (by rw [hold _ (hwf.inst t ht)])
  · have hl : s.loading = some l := hl
    simp [hloading] at hl
  have hq : s.HasTurn i q := hq.congr (fun _ _ => rfl) (fun _ _ => rfl) fun _ _ => rfl
  have hi := hold i (hq.lt hwf)
  rw [hi]
  exact (h.owned i q hq).congr (fun _ => rfl) (fun _ => rfl) (fun _ _ => rfl)
    (fun _ _ _ _ hv => hv.coming) (congrArg SessionInstance.key hi)

/-- A goroutine joins the queue of the instance `i`. -/
theorem enqueue (h : Flows s) (hfresh : (s.threads s.numThreads).before = none)
    (hjob : ∀ target m clear, job = .request target m clear →
      (s.instances i).key = target.key ∧ clear = true) (hrecovers : ∀ m ∈ job.message?, m.childID ≠ "" →
      (s.instances i).next = 0 ∧ s.full ⟨i, 0⟩ = false) : Flows (s.enqueue i job) := by
  have hset : ∀ j, ((s.setInstance i { s.instances i with next := (s.instances i).next + 1 }).instances
      j).key = (s.instances j).key ∧ ((s.setInstance i { s.instances i with next := (s.instances
        i).next + 1 }).instances j).activeFlow = (s.instances j).activeFlow := by
    intro j
    by_cases hj : j = i
    · simp [Scheduler.setInstance, hj]
    · simp [Scheduler.setInstance, hj]
  have hnext : Flows (s.setInstance i { s.instances i with next := (s.instances i).next + 1 }) :=
    h.congr rfl rfl (fun j => (hset j).1) (fun j => (hset j).2) rfl rfl rfl rfl fun _ hk => hk
  refine hnext.spawn ?_ ?_ (by simp [Place.phase]) hfresh
  · refine ⟨?_, by simp, by simp [Place.deactivates], fun target m clear hrequest => ?_⟩
    · rintro c hc
      cases hc
      exact ⟨rfl, Nat.succ_ne_zero _⟩
    · obtain ⟨hkey, hclear⟩ := hjob target m clear hrequest
      refine ⟨(hset i).1.trans hkey, by simp [hclear], by simp, by simp, fun hchild c hc => ?_⟩
      cases hc
      exact (hrecovers m (by simp [Job.message?, show job = _ from hrequest]) hchild).1
  · intro c hc hfull m hm
    by_contra hchild
    obtain ⟨hnum, hempty⟩ := hrecovers m hm hchild
    rw [← Option.some.inj hc] at hfull
    have hfull : s.full ⟨i, (s.instances i).next⟩ = true := hfull
    simp [hnum, hempty] at hfull

theorem bypass (h : Flows s) (hfresh : (s.threads s.numThreads).before = none)
    (hkey : (s.instances i).key = target.key) (hchild : m.childID = "") :
    Flows (s.bypass i target m) := by
  refine h.spawn ?_ (by simp) (by simp) hfresh
  refine ⟨by simp, by simp, by simp [Place.deactivates], fun target' m' clear hjob => ?_⟩
  obtain ⟨rfl, rfl, rfl⟩ := Job.request.inj hjob
  exact ⟨hkey, by simp, fun _ => hchild, by simp, fun hne => absurd hchild hne⟩

end Turns

/-! ## Scheduling -/

section Schedule

variable {s s' : Scheduler} {D : Prop}

/-- The request that was looked up is the continuation of a parked turn: it finds the instance,
its flow and the lock. -/
theorem parked_loaded (hsound : Sound D s) (haged : Aged s) (htargets : Targets s)
    (hl : s.loading = some l) (hturn : s.HasTurn i (.parked id))
    (hv : s.ParkedFor i id (s.instances i).activeFlow l.m target) :
    s.sessionTable l.target.key = some i ∧ (s.instances i).activeFlow = l.target.flow ∧
      s.deferredLock l.target ≠ none := by
  obtain rfl : target = l.target := Option.some.inj (hv.session.symm.trans (htargets.loading l hl))
  have hvalid := valid_of_turn hsound haged hturn (by simp)
  obtain ⟨c, hc, -⟩ := hturn
  refine ⟨hv.key ▸ hsound.tabled i hvalid, hv.active.symm, ?_⟩
  have hid := hv.lock
  subst hid
  have hc : s.deferredLocks.get? l.target.deferredLockID = some c := hc
  simp [deferredLock, hv.ne, hc]

theorem unloaded (h : Flows s) {l : Loading} (hl : s.loading = some l)
    (hnot : ∀ i id v target, s.HasTurn i (.parked id) →
      s.ParkedFor i id (s.instances i).activeFlow v target → v ≠ l.m) : Flows s.unloaded := by
  have hcoming : s.coming = s.inFlight ++ [l.m] := by rw [Scheduler.coming, hl]; rfl
  have hunloaded : s.unloaded.coming = s.inFlight := append_nil _
  refine h.setComing (by simp) ?_ fun i id v target hturn hv => ?_
  · have hsub : (s.unloaded.coming.filterMap (·.lock?)).Sublist (s.coming.filterMap (·.lock?)) := by
      rw [hunloaded, hcoming]
      exact (sublist_append_left ..).filterMap _
    exact h.lockIDs.sublist hsub
  · show v ∈ s.unloaded.coming
    have hmem := hv.coming
    rw [hcoming, mem_append, mem_singleton] at hmem
    rw [hunloaded]
    exact hmem.resolve_right (hnot i id v target hturn hv)

/-- A continuation that finds its lock goes on with the turn. -/
theorem resume (h : Flows s) (hsound : Sound D s) (haged : Aged s) (htargets : Targets s)
    (hl : s.loading = some l) (hentry : s.sessionTable l.target.key = some i)
    (hflow : (s.instances i).activeFlow = l.target.flow) (hc : s.deferredLock l.target = some c) :
    Flows (s.unloaded.resume i l.target l.m c) := by
  have hlock : l.target.deferredLockID ≠ "" ∧
      s.deferredLocks.get? l.target.deferredLockID = some c := by
    obtain ⟨_, hc⟩ := Option.ite_none_right_eq_some.mp hc
    exact ⟨‹_›, hc⟩
  have hl? : l.m.lock? = some l.target.deferredLockID :=
    Request.lock?_eq_some.mpr ⟨hlock.1, l.target, htargets.loading l hl, rfl⟩
  have hmem : l.m ∈ s.coming := by
    simp [coming, hl]
  -- The turn is parked for this very request, so it is the turn of the instance in the table.
  have hturn : s.HasTurn c.owner (.parked l.target.deferredLockID) := ⟨c, hlock.2, rfl⟩
  obtain ⟨v, target, hv⟩ := h.owned _ _ hturn
  obtain rfl : v = l.m := by
    refine eq_of_nodup_filterMap h.lockIDs hv.coming hmem ?_ hl?
    exact Request.lock?_eq_some.mpr ⟨hv.ne, target, hv.session, hv.lock⟩
  have howner : c.owner = i := by
    have htable := (parked_loaded hsound haged htargets hl hturn hv).1
    exact Option.some.inj (htable.symm.trans hentry)
  have hlocks : Flows { s with deferredLocks := s.deferredLocks.delete l.target.deferredLockID } := by
    refine h.setLocks fun id d hd => .inl ?_
    rw [GoMap.get?_delete] at hd
    split at hd
    · simp at hd
    exact hd
  have hunloaded := hlocks.unloaded hl fun j id v' target' hturn' hv' heq => by
    obtain ⟨d, hd, -⟩ := hturn'
    have hsession := hv'.session
    rw [heq, htargets.loading l hl] at hsession
    rw [GoMap.get?_delete, if_pos] at hd
    · simp at hd
    · rw [← hv'.lock, Option.some.inj hsession]
  refine hunloaded.spawn ?_ (by simp) (fun _ d hd => ?_) (hsound.fresh _ (Nat.le_refl _)).1
  · refine ⟨fun d hd => ?_, by simp, by simp [Place.deactivates], fun target' m' clear hjob => ?_⟩
    · cases hd
      exact ⟨howner, h.parked _ _ hlock.2⟩
    · obtain ⟨rfl, rfl, rfl⟩ := Job.request.inj hjob
      refine ⟨(hsound.table _ i hentry).1, by simp, fun _ => ?_, by simp, by simp⟩
      by_contra hchild
      simp [(h.recovers l hl hchild).1] at hentry
  · rw [← Option.some.inj hd, howner]
    show Thread.Owns _ (s.instances i).activeFlow
    simp [Thread.Owns, hflow]

/-- A request for which an instance is made. -/
theorem fresh (h : Flows s) (hwf : Wf s) (hloading : s.loading = none)
    (hflow : m.childID ≠ "" → target.flow ≠ nonexclusiveFlow)
    (ha : Arrival (s.newInstance target m) s.numInstances true target m s') : Flows s' := by
  have hfresh : (s.threads s.numThreads).before = none := (hwf.fresh _ (Nat.le_refl _)).1
  have hbase := h.newInstance hwf target m hloading
  -- Nobody waits on the channels of the new instance.
  have hold : ∀ t c, (s.threads t).before = some c → c.owner ≠ s.numInstances := by
    intro t c hc
    obtain ⟨-, hafter⟩ := hwf.before t c hc
    exact Nat.ne_of_lt (hwf.after t ⟨c.owner, c.num + 1⟩ hafter)
  have hinstance : ((s.newInstance target m).instances s.numInstances).key = target.key ∧
      ((s.newInstance target m).instances s.numInstances).activeFlow =
        (if m.childID = "" then releasedFlow else target.flow) ∧
      ((s.newInstance target m).instances s.numInstances).next = 0 := by
    simp [Scheduler.newInstance]
  cases ha with
  | resume htrue => simp at htrue
  | reentrant htrue => simp at htrue
  | nonexclusive _ hnonexclusive =>
    have hchild : m.childID = "" := by
      by_contra hchild
      exact hflow hchild hnonexclusive
    refine (hbase.bypass (i := s.numInstances) hfresh hinstance.1 hchild).setFull fun _ => .inr ?_
    refine ⟨hinstance.2.1.trans (if_pos hchild), ?_⟩
    rintro flow ⟨t, target', m', clear, hbefore, -⟩
    rw [Scheduler.bypass, spawn_threads] at hbefore
    split at hbefore
    · simp at hbefore
    exact hold t _ hbefore rfl
  | queued _ =>
    have hempty : s.full ⟨s.numInstances, 0⟩ = false := by
      cases hfull : s.full ⟨s.numInstances, 0⟩ with
      | false => rfl
      | true => exact absurd (hwf.full _ hfull) (Nat.lt_irrefl _)
    have hqueued : Flows ({ s.newInstance target m with full := s.full }.enqueue s.numInstances
        (.request target m true)) := by
      refine hbase.enqueue hfresh (fun target' m' clear hjob => ?_)
        fun _ _ _ => ⟨hinstance.2.2, hempty⟩
      obtain ⟨rfl, rfl, rfl⟩ := Job.request.inj hjob
      exact ⟨hinstance.1, rfl⟩
    refine hqueued.setFull fun _ => ?_
    have hactive : (({ s.newInstance target m with full := s.full }.enqueue s.numInstances
        (.request target m true)).instances s.numInstances).activeFlow =
          if m.childID = "" then releasedFlow else target.flow := by
      simp [Scheduler.enqueue, Scheduler.spawn, Scheduler.setInstance, Scheduler.newInstance]
    rw [hactive]
    have hthreads : ∀ t, ({ s.newInstance target m with full := s.full }.enqueue s.numInstances
        (.request target m true)).threads t = if t = s.numThreads then
          { inst := s.numInstances, before := some ⟨s.numInstances, 0⟩,
            after := some ⟨s.numInstances, 1⟩, job := .request target m true, place := .waiting }
          else s.threads t := by
      intro t
      rw [Scheduler.enqueue, spawn_threads]
      simp only [hinstance.2.2]
      rfl
    split
    · rename_i hchild
      refine .inr ⟨rfl, ?_⟩
      rintro flow ⟨t, target', m', clear, hbefore, hjob, hchild', -⟩
      rw [hthreads] at hbefore hjob
      split at hbefore
      · rw [if_pos ‹_›] at hjob
        obtain ⟨-, rfl, -⟩ := Job.request.inj hjob
        exact hchild' hchild
      · exact hold t _ hbefore rfl
    · rename_i hchild
      refine .inl ⟨s.numThreads, target, m, true, ?_, ?_, hchild, rfl⟩
      · rw [hthreads, if_pos rfl]
      · rw [hthreads, if_pos rfl]

theorem schedule (h : Flows s) (hsound : Sound D s) (haged : Aged s) (htargets : Targets s)
    (hs : s.schedule = some s') : Flows s' := by
  have hwf := hsound.toWf
  have hfresh : (s.threads s.numThreads).before = none := (hwf.fresh _ (Nat.le_refl _)).1
  obtain ⟨l, hl, ⟨i, hentry, hvalid, ha⟩ | ⟨hnone, ha⟩⟩ := hwf.schedule_cases hs
  · have hkey : (s.unloaded.instances i).key = l.target.key := (hwf.table _ i hentry).1
    have hchild : l.m.childID = "" := by
      by_contra hchild
      simp [(h.recovers l hl hchild).1] at hentry
    have hunloaded : s.deferredLock l.target = none ∨
        (s.instances i).activeFlow ≠ l.target.flow → Flows s.unloaded := by
      intro hne
      refine h.unloaded hl fun j id v target hturn hv heq => ?_
      subst heq
      obtain ⟨htable, hflow, hlock⟩ := parked_loaded hsound haged htargets hl hturn hv
      obtain rfl : i = j := Option.some.inj (hentry.symm.trans htable)
      exact hne.elim hlock (absurd hflow)
    cases ha with
    | resume _ hflow hc => exact h.resume hsound haged htargets hl hentry hflow hc
    | reentrant _ _ hc => exact (hunloaded (.inl hc)).bypass hfresh hkey hchild
    | nonexclusive hne hflow =>
      exact (hunloaded (.inr fun hflow => hne ⟨rfl, hflow⟩)).bypass hfresh hkey hchild
    | queued hne hflow =>
      refine (hunloaded (.inr fun hflow => hne ⟨rfl, hflow⟩)).enqueue hfresh
        (fun target m clear hjob => ?_) fun m hm hne => ?_
      · obtain ⟨rfl, rfl, rfl⟩ := Job.request.inj hjob
        exact ⟨hkey, rfl⟩
      · rw [← Option.some.inj hm] at hne
        exact absurd hchild hne
  · have hunloaded : Flows s.unloaded := by
      refine h.unloaded hl fun j id v target hturn hv heq => ?_
      subst heq
      simp [(parked_loaded hsound haged htargets hl hturn hv).1] at hnone
    exact hunloaded.fresh hwf.unloaded rfl (fun hchild => (h.recovers l hl hchild).2) ha

end Schedule

/-! ## The steps -/

section Steps

variable {s s' : Scheduler}

theorem accepted (h : Flows s) {now : Int} {target : Session} (hloading : s.loading = none)
    (htarget : m.target.session? = some target) (hok : s.Regular (.accept m now)) : Flows { s with
      inFlight := s.inFlight.erase m
      loading := some { target := target, m := m, entry := s.sessionTable target.key } } := by
  have hcoming : s.coming = s.inFlight := by simp [coming, hloading]
  refine h.setComing (fun l hl hchild => ?_) ?_ fun _ _ v _ _ hv => ?_
  · rw [← Option.some.inj hl] at hchild ⊢
    exact hok.2 hchild target htarget
  · have hnodup : (s.inFlight.filterMap (·.lock?)).Nodup := hcoming ▸ h.lockIDs
    show ((s.inFlight.erase m ++ [m]).filterMap (·.lock?)).Nodup
    by_cases hlock : m.lock? = none
    · rw [filterMap_append, filterMap_cons_none hlock, filterMap_nil, append_nil]
      exact hnodup.sublist (erase_sublist.filterMap _)
    · have hperm : (s.inFlight.erase m ++ [m]).Perm s.inFlight :=
        (perm_append_singleton m _).trans (perm_cons_erase (hok.1 hlock)).symm
      exact (hperm.filterMap _).nodup_iff.mpr hnodup
  · have hmem := hv.coming
    rw [hcoming] at hmem
    show v ∈ s.inFlight.erase m ++ [m]
    by_cases hvm : v = m
    · simp [hvm]
    · exact mem_append_left _ ((mem_erase_of_ne hvm).mpr hmem)

theorem expired (h : Flows s) {now : Int} (hloading : s.loading = none)
    (hexpired : m.expired now = true) : Flows { s with inFlight := s.inFlight.erase m } := by
  refine h.setComing h.recovers ?_ fun _ _ v _ _ hv => ?_
  · exact h.lockIDs.sublist ((erase_sublist.append_right _).filterMap _)
  -- The continuation that a parked turn waits for has no deadline.
  have hvm : v ≠ m := by
    rintro rfl
    simp [Request.expired, hv.deadline] at hexpired
  have hmem := hv.coming
  simp only [coming, hloading, Option.map_none, Option.toList_none, append_nil] at hmem ⊢
  exact (mem_erase_of_ne hvm).mpr hmem

/-- The goroutine `t` sends its turn on `c`. -/
theorem passed (h : Flows s) (hwf : Wf s)
    (hafter : (s.threads t).after = some c) (hsends : (s.threads t).place.sends = true) :
    Flows ((s.goto t .ended).setFull c true) := by
  have hne : (s.threads t).place ≠ .ended := by
    rintro hended
    simp [hended, Place.sends] at hsends
  have hlt : t < s.numThreads := hwf.lt_of_place hne
  have htask := h.task t hlt
  have hgoto : Flows (s.goto t .ended) := h.keep (.of_silent (.refl _) rfl) (fun _ => rfl)
    htask.goto (by simp [Place.phase])
  obtain ⟨howner, hnum⟩ := htask.owner c hafter
  have howns : (s.instances c.owner).activeFlow = releasedFlow := by
    have hholds : (s.threads t).place.phase = .holds := by
      cases hplace : (s.threads t).place <;> simp_all [Place.sends, Place.phase]
    have howns := h.owns hwf rfl (by simp [hafter]) hholds
    rw [howner]
    unfold Thread.Owns at howns
    cases hjob : (s.threads t).job <;> cases hplace : (s.threads t).place <;>
      simp_all [Place.sends, Place.owns, Place.takesOver]
  refine hgoto.setFull fun _ => .inr ⟨howns, ?_⟩
  -- A recovered request waits on the first channel of its instance.
  rintro flow ⟨u, target, m, clear, hbefore, hjob, hchild, -⟩
  rw [goto_before] at hbefore
  rw [goto_job] at hjob
  have hult : u < s.numThreads := by
    by_contra hge
    simp [(hwf.fresh u (by omega)).1] at hbefore
  exact hnum (((h.task u hult).request target m clear hjob).2.2.2.2 hchild c hbefore)

theorem received (h : Flows s) (hsound : Sound D s)
    (hbefore : (s.threads t).before = some c) (hfull : s.full c = true ∨ s.closed c = true)
    (hplace : (s.threads t).place = .waiting ∧ p = .arrived ∨
      (s.threads t).place = .timedOut ∧ p = .relaying) :
    Flows ((s.setFull c false).goto t p) := by
  obtain ⟨front, holder, hinv⟩ := hsound.chain
  obtain ⟨hinst, hafter⟩ := hsound.before t c hbefore
  have hlt : t < s.numThreads :=
    hsound.lt_of_place (by rcases hplace with ⟨hplace, -⟩ | ⟨hplace, -⟩ <;> simp [hplace])
  have hwaits : s.turns.phase t = .waits := by
    refine (phase_of_after (by simp [hafter])).trans ?_
    rcases hplace with ⟨hplace, -⟩ | ⟨hplace, -⟩ <;> rw [hplace] <;> rfl
  have hfull := full_of_waits hsound.toWf hinv hbefore hwaits hfull
  have hexpects : s.Expects c.owner (.sent c) (s.instances c.owner).activeFlow :=
    h.owned _ _ ⟨hfull, rfl⟩
  have hdrained : Flows (s.setFull c false) := h.setFull (by simp)
  have htask := h.task t hlt
  refine hdrained.keep (.of_silent (.refl _) rfl) (fun _ => rfl) ?_ fun _ _ => ?_
  · refine Task.of_key (s := s) (htask.goto ?_ ?_ ?_) rfl
    all_goals rcases hplace with ⟨-, rfl⟩ | ⟨-, rfl⟩ <;> simp [Place.deactivates]
  -- Only `t` waits on the channel.
  have honly : ∀ flow, s.Recovers c flow → ∃ target m clear,
      (s.threads t).job = .request target m clear ∧ m.childID ≠ "" ∧ target.flow = flow := by
    rintro flow ⟨u, target, m, clear, hu, hjob, hchild, hflow⟩
    obtain rfl : u = t := hinv.distinct u t c hu hbefore
    exact ⟨target, m, clear, hjob, hchild, hflow⟩
  show Thread.Owns { s.threads t with place := p } (s.instances (s.threads t).inst).activeFlow
  rw [← hinst]
  cases hjob : (s.threads t).job with
  | deactivation =>
    have hreleased : (s.instances c.owner).activeFlow = releasedFlow := by
      rcases hexpects with hrecovers | ⟨hreleased, -⟩
      · obtain ⟨target, m, clear, hrequest, -⟩ := honly _ hrecovers
        simp [hjob] at hrequest
      · exact hreleased
    rcases hplace with ⟨-, rfl⟩ | ⟨-, rfl⟩ <;>
      simpa [Thread.Owns, hjob, Place.takesOver] using hreleased
  | request target m clear =>
    by_cases hchild : m.childID = ""
    · have hreleased : (s.instances c.owner).activeFlow = releasedFlow := by
        rcases hexpects with hrecovers | ⟨hreleased, -⟩
        · obtain ⟨target', m', clear', hrequest, hchild', -⟩ := honly _ hrecovers
          obtain ⟨-, rfl, -⟩ := Job.request.inj (hjob.symm.trans hrequest)
          exact absurd hchild hchild'
        · exact hreleased
      rcases hplace with ⟨-, rfl⟩ | ⟨-, rfl⟩ <;>
        simpa [Thread.Owns, hjob, Place.owns, hbefore, hchild] using hreleased
    have hflow : (s.instances c.owner).activeFlow = target.flow := by
      rcases hexpects with hrecovers | ⟨-, hnone⟩
      · obtain ⟨target', m', clear', hrequest, -, hflow⟩ := honly _ hrecovers
        obtain ⟨rfl, -, -⟩ := Job.request.inj (hjob.symm.trans hrequest)
        exact hflow.symm
      · exact absurd ⟨t, target, m, clear, hbefore, hjob, hchild, rfl⟩ (hnone target.flow)
    rcases hplace with ⟨-, rfl⟩ | ⟨htimedOut, -⟩
    · simpa [Thread.Owns, hjob, Place.owns, hbefore, hchild] using hflow
    · exact absurd ((htask.request target m clear hjob).2.2.2.1 htimedOut) hchild

/-- The continuation of a tail call presents a lock that nobody else presents. -/
theorem fresh_lock (hcall : ∀ next ∈ dest.session?, s.TailCall target next)
    (m : Request) (method : String) (value : List UInt8) (deferred : Bool) :
    ∀ id ∈ (State.continuation m dest method value deferred).lock?, id ∉ s.lockIDs := by
  intro id hid
  obtain ⟨hne, next, hnext, rfl⟩ := Request.lock?_eq_some.mp hid
  rw [State.target_continuation] at hnext
  exact ((hcall next hnext).2 hne).2

/-- A tail call leaves its turn to the continuation. -/
theorem deferred (h : Flows s) (hwf : Wf s) (method : String) (value : List UInt8)
    (hjob : (s.threads t).job = .request target m clear) (hplace : (s.threads t).place = .running)
    {next : Session} (hdeferral : deferral (s.threads t).after dest = some (next, c))
    (hcall : ∀ next ∈ dest.session?, s.TailCall target next) :
    Flows (((s.continuing (State.continuation m dest method value true)).goto t .ended).deferring
      next.deferredLockID c) := by
  have hlt : t < s.numThreads := hwf.lt hplace
  have htask := h.task t hlt
  obtain ⟨hafter, hnext, hlock⟩ := deferral_eq hdeferral
  have hcall' := hcall next hnext
  obtain ⟨howner, hnum⟩ := htask.owner c hafter
  have hflow : (s.instances c.owner).activeFlow = target.flow := by
    have howns := h.owns hwf hplace (by simp [hafter])
    rw [howner]
    simpa [Thread.Owns, hjob, hplace, Place.owns] using howns
  have hended : Flows ((s.continuing (State.continuation m dest method value true)).goto t .ended) := by
    refine (h.continuing (fresh_lock hcall m method value true)).keep (.of_silent (.refl _) rfl) (fun _ => rfl) ?_
      (by simp [Place.phase])
    exact Task.of_key (s := s) htask.goto rfl
  refine hended.setLocks fun id d hd => ?_
  rw [GoMap.get?_set] at hd
  split at hd
  · rename_i hid
    rw [← Option.some.inj hd, hid]
    refine .inr ⟨hnum, State.continuation m dest method value true, next, ?_⟩
    exact {
      coming := by simp [coming, Scheduler.continuing, goto]
      session := by rw [State.target_continuation, hnext]
      lock := rfl
      ne := hlock
      key := by
        show next.key = (s.instances c.owner).key
        rw [hcall'.key_eq hlock, howner, (htask.request target m clear hjob).1]
      active := hcall'.flow_eq.trans hflow.symm
      deadline := State.deadline_continuation .. }
  · exact .inl hd

/-- A deactivation goes on while it owns the instance. -/
theorem deactivating (h : Flows s) (hwf : Wf s)
    (hplace : (s.threads t).place.takesOver = true) (hp : p.takesOver = true) :
    Flows (s.goto t p) := by
  have hne : (s.threads t).place ≠ .ended := by
    rintro hended
    simp [hended, Place.takesOver] at hplace
  have hlt : t < s.numThreads := hwf.lt_of_place hne
  have hdeactivates : ∀ p : Place, p.takesOver = true → p.deactivates = true ∧
      p.phase = .holds ∧ p ≠ .awaiting ∧ p ≠ .resumed ∧ p ≠ .timedOut := by
    intro p hp
    cases p <;> simp_all [Place.takesOver, Place.deactivates, Place.phase]
  have hjob := (h.task t hlt).deactivates (hdeactivates _ hplace).1
  obtain ⟨-, -, hawaiting, hresumed, htimedOut⟩ := hdeactivates p hp
  refine h.keep (.of_silent (.refl _) rfl) (fun _ => rfl) ((h.task t hlt).goto (fun _ => hjob)
    (fun hor => (hor.elim hawaiting hresumed).elim) htimedOut) fun _ hafter => ?_
  have howns := h.owns hwf rfl hafter (hdeactivates _ hplace).2.1
  simpa [Thread.Owns, hjob, hplace, hp] using howns

/-- Every regular step keeps the flows. -/
theorem outcome (h : Flows s) (hsound : Sound D s) (haged : Aged s) (htargets : Targets s)
    (hok : s.Regular e) (ho : Outcome cfg s e s') : Flows s' := by
  have hwf := hsound.toWf
  have hrefl := Silent.refl s
  cases ho with
  | expired hloading _ hexpired => exact h.expired hloading hexpired
  | accepted hloading htarget => exact h.accepted hloading htarget hok
  | scheduled hs => exact h.schedule hsound haged htargets hs
  | received hbefore hfull hplace => exact h.received hsound hbefore hfull hplace
  | @timedOut t _ _ _ _ hplace =>
    have htask := h.task t (hwf.lt hplace)
    refine h.keep (.of_silent (((hrefl.passOver _ _).send _).goto _ _) rfl) (fun _ => rfl)
      ⟨htask.owner, by simp, by simp [Place.deactivates], fun target' m' clear' hjob' => ?_⟩
      (by simp [Place.phase])
    obtain ⟨hkey, hclear, hchild, -, hnum⟩ := htask.request target' m' clear' hjob'
    have hjob' : (s.threads t).job = .request target' m' clear' := hjob'
    exact ⟨hkey, hclear, hchild, fun _ => hok.2 m' (by simp [hjob', Job.message?]), hnum⟩
  | @awaits t target m clear hjob hplace hchild =>
    have hlt := hwf.lt hplace
    have htask := h.task t hlt
    have hbefore : (s.threads t).before ≠ none := fun hnone =>
      hchild ((htask.request target m clear hjob).2.2.1 hnone)
    refine h.keep (.of_silent ((hrefl.log _ _ _).goto _ _) rfl) (fun _ => rfl)
      (htask.goto (by simp [Place.deactivates]) fun _ => hbefore) fun _ hne => ?_
    have howns := h.owns hwf hplace hne
    simpa [Thread.Owns, hjob, hplace, hchild, Place.owns] using howns
  | @childDone t hplace =>
    have hlt := hwf.lt hplace
    have htask := h.task t hlt
    have hbefore := htask.awaits (.inl hplace)
    refine h.set hsound (.of_silent ((hrefl.setFlow _ _).goto _ _) rfl) (hplace ▸ rfl)
      (hwf.after_ne_none hbefore) (activeFlow_setFlow _ _ _)
      (htask.goto (by simp [Place.deactivates]) fun _ => hbefore) ?_
    cases hjob : (s.threads t).job <;> simp [Thread.Owns, hjob, Place.owns, Place.takesOver]
  | @goesOn t _ _ _ hjob hplace hbefore =>
    have hlt := hwf.lt_of_place (t := t) (by rcases hplace with hplace | ⟨hplace, -⟩ <;> simp [hplace])
    have htask := h.task t hlt
    have hplace : (s.threads t).place = .arrived :=
      hplace.elim (fun hresumed => absurd hbefore (htask.awaits (.inr hresumed))) (·.1)
    refine h.keep (.of_silent (.refl _) rfl) (fun _ => rfl)
      htask.goto fun _ hne => ?_
    have howns := h.owns hwf hplace hne
    simpa [Thread.Owns, hjob, hplace, hbefore, Place.owns] using howns
  | @acquired t _ _ _ hjob hplace hbefore =>
    have hlt := hwf.lt_of_place (t := t) (by rcases hplace with hplace | ⟨hplace, -⟩ <;> simp [hplace])
    refine h.set hsound (.of_silent (((hrefl.log _ _ _).setFlow _ _).goto _ _) rfl)
      (by rcases hplace with hplace | ⟨hplace, -⟩ <;> rw [hplace] <;> rfl)
      (hwf.after_ne_none hbefore) (activeFlow_setFlow _ _ _)
      (h.task t hlt).goto ?_
    simp [Thread.Owns, hjob, Place.owns]
  | @omitted t _ _ _ _ clear _ hjob hplace =>
    exact h.endTask hsound (.of_silent (((hrefl.passOver _ _).clearFlow _ _).endTask t)
      (by cases clear <;> rfl)) hjob (hwf.lt hplace) (hplace ▸ rfl)
      fun i => activeFlow_clearFlow _ _ _ _
  | @mismatched t _ _ _ _ clear hjob hplace =>
    exact h.endTask hsound (.of_silent ((((hrefl.entering _).log _ _ _).clearFlow _ _).endTask t)
      (by cases clear <;> rfl)) hjob (hwf.lt hplace) (hplace ▸ rfl)
      fun i => activeFlow_clearFlow _ _ _ _
  | @entered t _ _ _ _ _ _ hjob hplace =>
    have hlt := hwf.lt hplace
    refine h.keep (.of_silent ((hrefl.entering _).goto _ _) rfl) (fun _ => rfl)
      (h.task t hlt).goto fun _ hne => ?_
    have howns := h.owns hwf hplace hne
    simpa [Thread.Owns, hjob, hplace, Place.owns] using howns
  | @answered t _ _ _ _ _ _ clear hjob hplace =>
    exact h.endTask hsound (.of_silent (((hrefl.log _ _ _).clearFlow _ _).endTask t)
      (by cases clear <;> rfl)) hjob (hwf.lt hplace) (hplace ▸ rfl)
      fun i => activeFlow_clearFlow _ _ _ _
  | @forwarded t r delete _ _ target m clear dest method hjob hplace _ hdest =>
    have hcall := hok.1 target (by simp [Job.target?, hjob]) (dest, method) hdest
    have hended := h.endTask hsound (.of_silent (((hrefl.log .exit t
      ((cfg.handlersSession m.method == some .actor && !delete) &&
        (s.instances (s.threads t).inst).activeFlow != target.flow)).clearFlow _ clear).endTask t)
      (by cases clear <;> rfl)) hjob (hwf.lt hplace) (hplace ▸ rfl)
      fun i => activeFlow_clearFlow _ _ _ _
    refine hended.continuing ?_
    have hfresh := fresh_lock hcall m method r.value false
    cases clear <;> exact hfresh
  | @deferred _ r _ _ _ target _ _ dest method next _ hjob hplace _ hdest hdeferral =>
    have hcall := hok.1 target (by simp [Job.target?, hjob]) (dest, method) hdest
    refine (h.deferred hwf method r.value hjob hplace hdeferral hcall).congr
      ?_ ?_ ?_ ?_ ?_ ?_ ?_ ?_ ?_
    all_goals simp [goto, Scheduler.continuing, deferring, log]
  | @released _ _ _ _ _ _ hafter hplace =>
    refine (h.passed hwf hafter (hplace ▸ rfl)).congr rfl rfl (fun _ => rfl) (fun _ => rfl)
      rfl rfl rfl rfl fun _ hk => hk
  | relayed hafter hsends => exact h.passed hwf hafter hsends
  | collected =>
    exact h.enqueue (hwf.fresh _ (Nat.le_refl _)).1 (by simp) (by simp [Job.message?])
  | @claimed t uuid hjob hplace =>
    have hlt := hwf.lt hplace
    refine h.set hsound (.of_silent (((hrefl.log _ _ _).setFlow _ _).goto _ _) rfl)
      (hplace ▸ rfl) (hwf.after_ne_none (hwf.deactivation t hlt hjob)) (activeFlow_setFlow _ _ _)
      ((h.task t hlt).goto fun _ => hjob) ?_
    simp only [Thread.Owns, hjob, Place.takesOver, if_true]
    exact ⟨uuid, rfl⟩
  | probed _ hplace => exact h.deactivating hwf (hplace ▸ rfl) rfl
  | began hplace hp =>
    rcases hp with ⟨rfl, -⟩ | rfl <;> exact h.deactivating hwf (hplace ▸ rfl) rfl
  | calledBack hplace => exact h.deactivating hwf (hplace ▸ rfl) rfl
  | @retired t hplace =>
    have hlt := hwf.lt hplace
    have hjob := (h.task t hlt).deactivates (hplace ▸ rfl)
    refine h.set hsound ⟨rfl, rfl, rfl, rfl, rfl, rfl, fun i => ?_, fun _ hk => hk⟩
      (hplace ▸ rfl) (hwf.after_ne_none (hwf.deactivation t hlt hjob)) (activeFlow_retired s t)
      ((h.task t hlt).goto fun _ => hjob)
      (by simp [Thread.Owns, hjob, Place.takesOver])
    rw [retired_instances]
    split <;> rfl
  | @aborted t hplace =>
    have hlt := hwf.lt hplace
    have hjob := (h.task t hlt).deactivates (hplace ▸ rfl)
    exact h.set hsound (.of_silent ((hrefl.setFlow _ _).goto _ _) rfl) (hplace ▸ rfl)
      (hwf.after_ne_none (hwf.deactivation t hlt hjob)) (activeFlow_setFlow _ _ _)
      ((h.task t hlt).goto fun _ => hjob)
      (by simp [Thread.Owns, hjob, Place.takesOver])
  | @removed t hplace =>
    have hlt := hwf.lt hplace
    have hjob := (h.task t hlt).deactivates (hplace ▸ rfl)
    refine h.keep ⟨rfl, rfl, rfl, rfl, rfl, rfl, fun _ => rfl, fun k hk => ?_⟩ (fun _ => rfl)
      ((h.task t hlt).goto fun _ => hjob) fun _ hne => ?_
    · show s.tableWithout t k = none
      rw [tableWithout_apply]
      split
      · rfl
      · exact hk
    · have howns := h.owns hwf hplace hne
      simpa [Thread.Owns, hjob, hplace, Place.takesOver] using howns
  | @closed t c hplace =>
    have hlt := hwf.lt hplace
    refine h.keep (p := .ended) ⟨rfl, rfl, rfl, rfl, rfl, rfl, fun i => ?_, fun _ hk => hk⟩
      (fun i => ?_) (h.task t hlt).goto
      (by simp [Place.phase])
    · by_cases hi : i = (s.threads t).inst <;> simp [goto, closing, setInstance, hi]
    · by_cases hi : i = (s.threads t).inst <;> simp [goto, closing, setInstance, hi]

theorem step (h : Flows s) (hord : Ordered cfg s) (hok : s.Regular e)
    (hs : Scheduler.step cfg s e = some s') : Flows s' := by
  obtain ⟨s₁, ho, hsame⟩ := step_outcome hs
  exact (h.outcome hord.toSound hord.aged hord.targets hok ho).same hsame

theorem init : Flows init := by
  refine ⟨by simp [Scheduler.init], by simp [Scheduler.init], by simp [Scheduler.init, Scheduler.lockIDs, coming],
    by simp [Scheduler.init], fun i q hq => ?_⟩
  cases q <;> simp [HasTurn, Scheduler.init, Place.phase] at hq

/-- The flows agree with the turns in every state that regular steps reach. -/
theorem of_reachable (hok : ∀ s e, ok s e → s.Regular e)
    (h : Reachable (Scheduler.step cfg) ok Scheduler.init s) : Flows s := by
  refine h.invariant .init fun s e s' hreach hflows hregular hs => ?_
  exact hflows.step (.of_reachable (hreach.mono fun _ _ _ => trivial)) (hok _ _ hregular) hs

end Steps

end Flows

end Scheduler

end Kar.Rpc
