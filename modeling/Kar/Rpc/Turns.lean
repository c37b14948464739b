import Kar.Rpc.SessionTable

/-!
# The turn of an instance

The scheduler hands the turn of each instance along its channels as a `TurnChain`.
`Scheduler.turns` reads the chains off a state, and `turns_step` says that every step of the
scheduler is a sequence of operations of the chains: the refinement.  So the invariant of the
chains holds in every reachable state.
-/

namespace Kar.Rpc

open Kar.Lib Function

/-- A goroutine without channels takes no part in a chain. -/
def Thread.phase (u : Thread) : TurnPhase :=
  if u.before = none ∧ u.after = none then .absent else u.place.phase

namespace Scheduler

/-- The chains of channels of a state. -/
def turns (s : Scheduler) : TurnChain Nat Nat String where
  opened := fun i => (s.instances i).valid
  next := fun i => (s.instances i).next
  full := s.full
  closed := s.closed
  phase := fun t => (s.threads t).phase
  before := fun t => (s.threads t).before
  after := fun t => (s.threads t).after
  parked := s.deferredLocks

/-! ## The refinement -/

variable {c : Chan} {i t u : Nat}

section Refinement

variable {s s' : Scheduler}

theorem turns_silent (hs : Silent s s') : s'.turns = s.turns := by
  simp [turns, hs.valid, hs.next, hs.full, hs.closed, hs.threads, hs.deferredLocks]

variable {p : Place}

theorem turns_goto (hphase : { s.threads t with place := p }.phase = phase) : (s.goto t p).turns =
      { s.turns with phase := update s.turns.phase t phase } := by
  subst hphase
  exact TurnChain.ext rfl rfl rfl rfl (comp_update Thread.phase s.threads t _)
    (funext fun u => goto_before s t p u) (funext fun u => goto_after s t p u) rfl

/-- A goroutine that keeps its phase leaves the chains as they are. -/
theorem turns_goto_same (hphase : { s.threads t with place := p }.phase = (s.threads t).phase) :
    (s.goto t p).turns = s.turns := by
  rw [turns_goto hphase]
  exact TurnChain.ext rfl rfl rfl rfl (update_eq_self ..) rfl rfl rfl

/-- A goroutine with channels has the phase of its place. -/
theorem phase_of_after {u : Thread} (h : u.after ≠ none) : u.phase = u.place.phase := by
  simp [Thread.phase, h]

theorem turns_quiet (h : Wf s) (hq : Quiet s s' t p) : s'.turns = s.turns := by
  rw [turns_silent hq.silent]
  apply turns_goto_same
  rcases hq.phase with hphase | ⟨-, hafter, -⟩
  · simp [Thread.phase, hphase]
  -- Without `after` there is no `before` either.
  have hbefore : (s.threads t).before = none := by
    cases hb : (s.threads t).before with
    | none => rfl
    | some c => simp [(h.before t c hb).2] at hafter
  simp [Thread.phase, hbefore, hafter]

theorem turns_newInstance :
    (s.newInstance target m).turns = s.turns.create s.numInstances :=
  TurnChain.ext (comp_update SessionInstance.valid ..)
    (comp_update SessionInstance.next ..) rfl rfl rfl rfl rfl rfl

/-- The chains when a goroutine starts. -/
theorem turns_spawn (s : Scheduler) (u : Thread) : (s.spawn u).turns = { s.turns with
    phase := update s.turns.phase s.numThreads u.phase
    before := update s.turns.before s.numThreads u.before
    after := update s.turns.after s.numThreads u.after } :=
  TurnChain.ext rfl rfl rfl rfl (comp_update Thread.phase ..)
    (comp_update Thread.before ..) (comp_update Thread.after ..) rfl

theorem fresh_numThreads (h : Wf s) : s.turns.Fresh s.numThreads := by
  obtain ⟨hbefore, hafter, -⟩ := h.fresh s.numThreads (Nat.le_refl _)
  exact ⟨by simp [turns, Thread.phase, hbefore, hafter], hbefore, hafter⟩

theorem turns_bypass (h : Wf s) (i : Nat) (target : Session) (m : Request) :
    (s.bypass i target m).turns = s.turns := by
  have hfresh := fresh_numThreads h
  rw [bypass, turns_spawn]
  exact TurnChain.ext rfl rfl rfl rfl (update_eq_iff.mpr ⟨hfresh.phase.symm, fun _ _ => rfl⟩)
    (update_eq_iff.mpr ⟨hfresh.before.symm, fun _ _ => rfl⟩)
    (update_eq_iff.mpr ⟨hfresh.after.symm, fun _ _ => rfl⟩) rfl

theorem turns_resume (h : Wf s) (i : Nat) (target : Session) (m : Request) (c : Chan) :
    (s.resume i target m c).turns = s.turns.resume s.numThreads c target.deferredLockID := by
  have hfresh := fresh_numThreads h
  rw [resume, turns_spawn]
  exact TurnChain.ext rfl rfl rfl rfl rfl
    (update_eq_iff.mpr ⟨hfresh.before.symm, fun _ _ => rfl⟩) rfl rfl

theorem turns_enqueue (i : Nat) (job : Job) :
    (s.enqueue i job).turns = s.turns.enqueue i s.numThreads := by
  rw [enqueue, turns_spawn]
  exact TurnChain.ext ((comp_update SessionInstance.valid ..).trans (update_eq_self ..))
    (comp_update SessionInstance.next ..) rfl rfl rfl rfl rfl rfl

theorem unused_numInstances (h : Wf s) : s.turns.Unused s.numInstances where
  opened := by
    cases hvalid : (s.instances s.numInstances).valid with
    | false => exact hvalid
    | true => exact absurd (h.valid _ hvalid) (Nat.lt_irrefl _)
  before := by
    intro t c hc
    have hlt := h.after t _ (h.before t c hc).2
    exact Nat.ne_of_lt hlt
  turn := by
    intro c p hp
    cases p with
    | buffered => exact Nat.ne_of_lt (h.full c hp)
    | held t => exact Nat.ne_of_lt (h.after t c hp.2)
    | parked id => exact Nat.ne_of_lt (h.parked id c hp)
  closed := fun c hc => Nat.ne_of_lt (h.closed c hc).2

/-- A goroutine with channels that is not waiting and has not ended has the turn. -/
theorem at_held (hc : (s.threads t).after = some c)
    (hplace : (s.threads t).place.phase = .holds) : s.turns.At c (.held t) :=
  ⟨(phase_of_after (by simp [hc])).trans hplace, hc⟩

/-- Nobody waits for the turn of an instance that is not valid. -/
theorem full_of_waits (h : Wf s) (hinv : s.turns.Inv D front holder)
    (hc : (s.threads t).before = some c) (hwaits : s.turns.phase t = .waits)
    (hfull : s.full c = true ∨ s.closed c = true) : s.full c = true := by
  refine hfull.resolve_right fun hclosed => ?_
  obtain ⟨c', hc', -, -, -, hvalid⟩ := hinv.waits t hwaits
  have hvalid : (s.instances c'.owner).valid = true := hvalid
  rw [Option.some.inj (hc'.symm.trans hc), (h.closed c hclosed).1] at hvalid
  simp at hvalid

theorem turns_receives (h : Wf s) (hinv : s.turns.Inv D front holder)
    (hc : (s.threads t).before = some c) (hfull : s.full c = true ∨ s.closed c = true)
    (hplace : (s.threads t).place = .waiting ∧ p = .arrived ∨
      (s.threads t).place = .timedOut ∧ p = .relaying) :
    TurnChain.Step D s.turns ((s.setFull c false).goto t p).turns := by
  have hafter := (h.before t c hc).2
  have hwaits : s.turns.phase t = .waits := by
    refine (phase_of_after (by simp [hafter])).trans ?_
    rcases hplace with ⟨hplace, -⟩ | ⟨hplace, -⟩ <;> rw [hplace] <;> rfl
  have hphase : { s.threads t with place := p }.phase = .holds := by
    refine (phase_of_after (by simp [hafter])).trans ?_
    rcases hplace with ⟨-, rfl⟩ | ⟨-, rfl⟩ <;> rfl
  have hturns := turns_goto (s := s.setFull c false) hphase
  rw [hturns]
  exact .take hwaits hc (full_of_waits h hinv hc hwaits hfull)

/-- The chains when a goroutine ends that has channels. -/
theorem turns_ended (hafter : (s.threads t).after ≠ none) : (s.goto t .ended).turns =
    { s.turns with phase := update s.turns.phase t .gone } :=
  turns_goto (phase_of_after (u := { s.threads t with place := .ended }) hafter)

theorem turns_passes (hc : (s.threads t).after = some c) (hsends : (s.threads t).place.sends = true) :
    TurnChain.Step D s.turns ((s.setFull c true).goto t .ended).turns := by
  have hphase : (s.threads t).place.phase = .holds := by
    cases hplace : (s.threads t).place <;> simp_all [Place.sends, Place.phase]
  have hturns : ((s.setFull c true).goto t .ended).turns = s.turns.pass t c :=
    turns_ended (s := s.setFull c true) (by simp [setFull, hc])
  rw [hturns]
  exact .pass (at_held hc hphase)

theorem turns_parks {id : String} (hc : (s.threads t).after = some c)
    (hplace : (s.threads t).place = .running) (hD : D → s.deferredLocks.get? id = none) :
    TurnChain.Step D s.turns ((s.deferring id c).goto t .ended).turns := by
  have hturns : ((s.deferring id c).goto t .ended).turns = s.turns.park t c id :=
    turns_ended (s := s.deferring id c) (by simp [deferring, hc])
  rw [hturns]
  exact .park (at_held hc (hplace ▸ rfl)) hD

theorem turns_arrival (h : Wf s)
    (hs : Arrival s i fresh target m s') (hi : (s.instances i).valid = true) :
    Relation.ReflTransGen (TurnChain.Step D) s.turns s'.turns := by
  cases hs with
  | resume _ _ hc =>
    rw [turns_resume h]
    refine .single (.resume ?_ (fresh_numThreads h))
    obtain ⟨-, hc⟩ := Option.ite_none_right_eq_some.mp hc
    exact hc
  | reentrant =>
    rw [turns_bypass h]
  | nonexclusive =>
    rw [turns_bypass h]
  | queued =>
    rw [turns_enqueue]
    exact .single (.enqueue hi (fresh_numThreads h))

theorem turns_schedule (h : Wf s) (hs : s.schedule = some s') :
    Relation.ReflTransGen (TurnChain.Step D) s.turns s'.turns := by
  obtain ⟨l, -, ⟨i, -, hvalid, harrival⟩ | ⟨hnone, harrival⟩⟩ := h.schedule_cases hs
  · exact turns_arrival (s := s.unloaded) h.unloaded harrival hvalid
  have hcreate : TurnChain.Step D s.turns (s.unloaded.newInstance l.target l.m).turns := by
    rw [turns_newInstance]
    exact .create (unused_numInstances h)
  refine .head hcreate (turns_arrival (h.unloaded.newInstance rfl hnone) harrival ?_)
  simp [newInstance, unloaded]

theorem turns_retired (hplace : (s.threads t).place = .settling)
    (hlast : s.last t = true) : TurnChain.Step D s.turns (s.retired t).turns := by
  obtain ⟨-, hafter⟩ := last_iff.mp hlast
  have hturns : (s.retired t).turns = s.turns.retire (s.threads t).inst := by
    rw [retired, turns_goto_same]
    · exact TurnChain.ext (comp_update SessionInstance.valid ..) ((comp_update SessionInstance.next
        ..).trans (update_eq_self ..)) rfl rfl rfl rfl rfl rfl
    · simp only [setInstance, Thread.phase, hplace]
      rfl
  rw [hturns]
  exact .retire (at_held hafter (hplace ▸ rfl)) rfl

theorem turns_removes (hplace : (s.threads t).place = .removing) :
    ({ s with sessionTable := s.tableWithout t }.goto t .closing).turns = s.turns := by
  rw [turns_goto_same]
  · rfl
  · simp only [Thread.phase, hplace]
    rfl

theorem turns_closes (h : Wf s) (hplace : (s.threads t).place = .closing)
    (hc : (s.threads t).after = some c) :
    TurnChain.Step D s.turns ((s.closing t c).goto t .ended).turns := by
  obtain ⟨b, hb⟩ : ∃ b, (s.threads t).before = some b :=
    Option.ne_none_iff_exists'.mp (h.deactivates t (by simp [hplace, Place.deactivates]))
  obtain ⟨hinst, hafter⟩ := h.before t b hb
  have hlocked := h.locked t (.inr hplace)
  have hturns : ((s.closing t c).goto t .ended).turns = s.turns.drop t c := by
    rw [turns_ended (by simp [closing, setInstance, hc])]
    exact TurnChain.ext ((comp_update SessionInstance.valid ..).trans (update_eq_self ..))
      ((comp_update SessionInstance.next ..).trans (update_eq_self ..)) rfl rfl rfl rfl rfl rfl
  rw [hturns]
  refine .drop (at_held hc (hplace ▸ rfl)) ?_
  rw [Option.some.inj (hc.symm.trans hafter), hinst]
  exact hlocked.1

/-- A tail call leaves its turn under an id that is not in use. -/
def DistinctLocks (s : Scheduler) : SchedulerEvent → Prop
  | .finish t r _ _ _ => ∀ p ∈ s.parksUnder t r, s.deferredLocks.get? p.1.deferredLockID = none
  | _ => True

instance (s : Scheduler) (e : SchedulerEvent) : Decidable (s.DistinctLocks e) :=
  match e with
  | .finish t r _ _ _ => inferInstanceAs (Decidable
      (∀ p ∈ s.parksUnder t r, s.deferredLocks.get? p.1.deferredLockID = none))
  | .accept .. | .schedule | .receive _ | .timeout _ | .awaitChild _ | .childDone _ | .acquire _
  | .enter .. | .pass _ | .collect .. | .claim .. | .probe _ | .beginCallback _
  | .callbackDone .. | .settle _ | .remove _ | .close _ => inferInstanceAs (Decidable True)

/-- Every step of the scheduler is a sequence of operations of the chains. -/
theorem turns_step (h : Wf s) (hinv : s.turns.Inv D front holder) (hD : D → s.DistinctLocks e)
    (hs : step cfg s e = some s') : Relation.ReflTransGen (TurnChain.Step D) s.turns s'.turns := by
  cases step_change hs with
  | silent h' => rw [turns_silent h']
  | quiet hq => rw [turns_quiet h hq]
  | loads _ h' =>
    rw [turns_silent h']
    exact .refl
  | schedules hsch h' =>
    rw [turns_silent h']
    exact turns_schedule h hsch
  | receives hbefore hfull hplace h' =>
    rw [turns_silent h']
    exact .single (turns_receives h hinv hbefore hfull hplace)
  | passes hafter hsends h' =>
    rw [turns_silent h']
    exact .single (turns_passes hafter hsends)
  | parks he hunder hplace h' =>
    subst he
    rw [turns_silent h']
    exact .single (turns_parks (after_of_parksUnder hunder) hplace fun hd => hD hd _ hunder)
  | enqueues _ hvalid h' =>
    rw [turns_silent h', turns_enqueue]
    exact .single (.enqueue hvalid (fresh_numThreads h))
  | retires hplace hlast h' =>
    rw [turns_silent h']
    exact .single (turns_retired hplace hlast)
  | removes hplace h' =>
    rw [turns_silent h', turns_removes hplace]
  | closes hplace hafter h' =>
    rw [turns_silent h']
    exact .single (turns_closes h hplace hafter)

/-- A state in which the chains have their invariant. -/
structure Sound (D : Prop) (s : Scheduler) : Prop extends Wf s where
  chain : ∃ front holder, s.turns.Inv D front holder

namespace Sound

theorem init : Sound D init where
  toWf := .init
  chain := by
    refine ⟨_, _, .of_unused (fun _ => rfl) (fun c p hp => ?_) fun _ => ⟨rfl, rfl, rfl⟩⟩
    cases p with
    | buffered => simp [TurnChain.At, turns, Scheduler.init] at hp
    | held => simp [TurnChain.At, turns, Scheduler.init] at hp
    | parked => simp [TurnChain.At, turns, Scheduler.init, GoMap.empty] at hp

/-- Two goroutines that have the turn of one instance are the same. -/
theorem holder_unique (h : Sound D s) (hc : (s.threads t).after = some c)
    (hd : (s.threads u).after = some d) (ht : (s.threads t).place.phase = .holds)
    (hu : (s.threads u).place.phase = .holds) (howner : c.owner = d.owner) : t = u := by
  obtain ⟨front, holder, hinv⟩ := h.chain
  have heq := (hinv.unique (at_held hc ht) (at_held hd hu) howner).2
  simpa using heq

/-- Two queued goroutines of one instance that have received the turn and not passed it on are
the same. -/
theorem queued_unique (h : Sound D s) (ht : (s.threads t).before ≠ none)
    (hu : (s.threads u).before ≠ none) (hinst : (s.threads t).inst = (s.threads u).inst)
    (htp : (s.threads t).place.phase = .holds) (hup : (s.threads u).place.phase = .holds) :
    t = u := by
  obtain ⟨b, hb⟩ := Option.ne_none_iff_exists'.mp ht
  obtain ⟨d, hd⟩ := Option.ne_none_iff_exists'.mp hu
  obtain ⟨hbinst, hbafter⟩ := h.before t b hb
  obtain ⟨hdinst, hdafter⟩ := h.before u d hd
  exact h.holder_unique hbafter hdafter htp hup (by rw [hbinst, hdinst, hinst])

/-- One goroutine at a time removes an instance. -/
theorem removing_unique (h : Sound D s)
    (ht : (s.threads t).place = .removing ∨ (s.threads t).place = .closing)
    (hu : (s.threads u).place = .removing ∨ (s.threads u).place = .closing)
    (hinst : (s.threads u).inst = (s.threads t).inst) : u = t := by
  have hplace : ∀ v, (s.threads v).place = .removing ∨ (s.threads v).place = .closing →
      (s.threads v).place.deactivates = true ∧ (s.threads v).place.phase = .holds := by
    rintro v (hv | hv)
    · rw [hv]
      exact ⟨rfl, rfl⟩
    · rw [hv]
      exact ⟨rfl, rfl⟩
  exact h.queued_unique (h.deactivates u (hplace u hu).1) (h.deactivates t (hplace t ht).1) hinst
    (hplace u hu).2 (hplace t ht).2

theorem wf_step (h : Sound D s) (hs : step cfg s e = some s') : Wf s' := by
  cases step_change hs with
  | silent h' => exact h.toWf.silent h'
  | quiet hq => exact h.toWf.quiet hq
  | loads _ h' => exact (h.toWf.loads _ _).silent h'
  | schedules hsch h' => exact (h.toWf.schedule hsch).silent h'
  | receives hbefore _ hplace h' => exact (h.toWf.receives hbefore hplace).silent h'
  | passes hafter hsends h' => exact (h.toWf.passes hafter hsends).silent h'
  | parks _ hunder hplace h' =>
    exact (h.toWf.parks (after_of_parksUnder hunder) hplace).silent h'
  | enqueues hi _ h' => exact (h.toWf.enqueue hi).silent h'
  | retires hplace hlast h' => exact (h.toWf.retired hplace hlast).silent h'
  | removes hplace h' =>
    have hunique := fun u hu => h.removing_unique (u := u) (.inl hplace) (.inl hu)
    exact (h.toWf.removes hplace hunique).silent h'
  | closes hplace hafter h' =>
    have hunique := fun u hu => h.removing_unique (u := u) (.inr hplace) hu
    exact (h.toWf.closes hplace hafter hunique).silent h'

theorem step (h : Sound D s) (hD : D → s.DistinctLocks e)
    (hs : Scheduler.step cfg s e = some s') : Sound D s' where
  toWf := h.wf_step hs
  chain := by
    obtain ⟨front, holder, hinv⟩ := h.chain
    exact hinv.steps (turns_step h.toWf hinv hD hs)

/-- The chains of every reachable state have their invariant. -/
theorem of_reachable (hok : ∀ s e, ok s e → D → s.DistinctLocks e)
    (h : Reachable (Scheduler.step cfg) ok Scheduler.init s) : Sound D s :=
  h.invariant .init fun _ _ _ _ hsound ho hs => hsound.step (hok _ _ ho) hs

end Sound

end Refinement

/-! ## One turn for each instance -/

/-- Where the turn of an instance is. -/
inductive Turn
  | sent (c : Chan)
  | held (t : Nat)
  | parked (id : String)
  deriving DecidableEq, Repr

/-- The turn of the instance `i` is at `p`: sent on a channel, held by a goroutine that has
received it or resumed with it and not sent it on `after`, or parked. -/
def HasTurn (s : Scheduler) (i : Nat) : Turn → Prop
  | .sent c => s.full c = true ∧ c.owner = i
  | .held t => (s.threads t).place.phase = .holds ∧ ∃ c ∈ (s.threads t).after, c.owner = i
  | .parked id => ∃ c ∈ s.deferredLocks.get? id, c.owner = i

section OneTurn

variable {s : Scheduler}

/-- The position of the turn in the chain of the instance. -/
def Turn.position : Turn → Position Nat String
  | .sent _ => .buffered
  | .held t => .held t
  | .parked id => .parked id

theorem HasTurn.at (hp : s.HasTurn i p) :
    ∃ c, c.owner = i ∧ s.turns.At c p.position ∧ ∀ d, p = .sent d → d = c := by
  cases p with
  | sent c => exact ⟨c, hp.2, hp.1, fun d hd => (Turn.sent.inj hd).symm⟩
  | held =>
    obtain ⟨hplace, c, hc, hi⟩ := hp
    exact ⟨c, hi, at_held hc hplace, by simp⟩
  | parked =>
    obtain ⟨c, hc, hi⟩ := hp
    exact ⟨c, hi, hc, by simp⟩

theorem HasTurn.lt (hp : s.HasTurn i p) (h : Wf s) : i < s.numInstances := by
  obtain ⟨c, rfl, hat, -⟩ := hp.at
  cases p with
  | sent d => exact hp.2 ▸ h.full d hp.1
  | held t => exact h.after t c hat.2
  | parked id => exact h.parked id c hat

theorem hasTurn_of_at {p : Position Nat String} (hp : s.turns.At c p) :
    ∃ q, s.HasTurn c.owner q := by
  cases p with
  | buffered => exact ⟨.sent c, hp, rfl⟩
  | held t =>
    refine ⟨.held t, ?_, c, hp.2, rfl⟩
    rw [← phase_of_after (u := s.threads t) (by rw [show (s.threads t).after = some c from hp.2]; simp)]
    exact hp.1
  | parked id => exact ⟨.parked id, c, hp, rfl⟩

/-- The turn of an instance is at one place. -/
theorem Sound.hasTurn_unique (h : Sound D s) (hp : s.HasTurn i p) (hq : s.HasTurn i q) : p = q := by
  obtain ⟨front, holder, hinv⟩ := h.chain
  obtain ⟨c, hc, hcp, hcs⟩ := hp.at
  obtain ⟨d, hd, hdq, hds⟩ := hq.at
  obtain ⟨rfl, hposition⟩ := hinv.unique hcp hdq (hc.trans hd.symm)
  cases p <;> cases q <;> simp_all [Turn.position]

/-- An instance in the table has its turn, if turns are parked under distinct ids. -/
theorem Sound.hasTurn_of_table (h : Sound True s)
    (hk : s.sessionTable k = some i) : ∃ p, s.HasTurn i p := by
  obtain ⟨-, -, hvalid | ⟨t, hinst, hremoving⟩⟩ := h.table k i hk
  · obtain ⟨front, holder, hinv⟩ := h.chain
    obtain ⟨p, hp⟩ := Option.ne_none_iff_exists'.mp (hinv.opened i hvalid)
    exact hasTurn_of_at (hinv.exact trivial i p hp)
  -- The goroutine that removes the instance has the turn.
  have hdeactivates := h.deactivates t (hremoving ▸ rfl)
  obtain ⟨b, hb⟩ := Option.ne_none_iff_exists'.mp hdeactivates
  obtain ⟨howner, hafter⟩ := h.before t b hb
  exact ⟨.held t, by rw [hremoving]; rfl, _, hafter, howner.trans hinst⟩

/-- A goroutine that is about to send has a channel that is neither full nor closed. -/
theorem Sound.pass_enabled (h : Sound D s) (ht : (s.threads t).place.sends = true) :
    (s.pass t).isSome = true := by
  obtain ⟨front, holder, hinv⟩ := h.chain
  have hphase : (s.threads t).place.phase = .holds := by
    cases hplace : (s.threads t).place <;> simp_all [Place.sends, Place.phase]
  have hafter : (s.threads t).after ≠ none := by
    cases hplace : (s.threads t).place with
    | relaying => exact h.sends t (.inl hplace)
    | releasing => exact h.sends t (.inr hplace)
    | aborting => exact h.after_ne_none (h.deactivates t (hplace ▸ rfl))
    | _ => simp [hplace, Place.sends] at ht
  obtain ⟨c, hc⟩ := Option.ne_none_iff_exists'.mp hafter
  have hfull : s.full c = false := hinv.not_full_of_held (at_held hc hphase)
  have hclosed : s.closed c = false := hinv.not_closed_of_at (at_held hc hphase) rfl
  unfold pass
  simp only [hc, ht, hfull, hclosed]
  simp only [and_self, if_true]
  split <;> rfl

/-- **One turn.**  In every run in which turns are parked under distinct ids, each instance in
the table has exactly one turn.  So at most one queued request or deactivation of an instance
is between its receive and its send, and a send never blocks. -/
theorem one_turn_per_instance {cfg : SchedulerConfig}
    (h : Reachable (Scheduler.step cfg) DistinctLocks init s) :
    (∀ k i, s.sessionTable k = some i → ∃! p, s.HasTurn i p) ∧
      (∀ t u, (s.threads t).before ≠ none → (s.threads u).before ≠ none →
        (s.threads t).inst = (s.threads u).inst → (s.threads t).place.phase = .holds →
        (s.threads u).place.phase = .holds → t = u) ∧
      ∀ t, (s.threads t).place.sends = true → (s.pass t).isSome = true := by
  have hsound : Sound True s := .of_reachable (fun _ _ hok _ => hok) h
  refine ⟨fun k i hk => ?_, fun t u ht hu hinst htp hup =>
    hsound.queued_unique ht hu hinst htp hup, fun t ht => hsound.pass_enabled ht⟩
  obtain ⟨p, hp⟩ := hsound.hasTurn_of_table hk
  exact ⟨p, hp, fun q hq => hsound.hasTurn_unique hq hp⟩

end OneTurn

/-- A node whose actors have the method `get`. -/
def actorConfig : SchedulerConfig where
  busyTimeout := true
  cancellation := false
  handlersSession := fun method => if method = "get" then some .actor else none

/-- A call on the actor `7` of type `Account`. -/
def callAccount (method requestID flow lock : String) (sequence : Nat) : Request :=
  .call {
    requestID := requestID
    value := []
    deadline := none
    target := .session "Account" "7" flow lock
    method := method
    caller := "n0"
    sequence := sequence
    childID := ""
    parentID := ""
    isEdited := false }

def callGet : String → String → String → Nat → Request := callAccount "get"

def account : SessionKey := { name := "Account", id := "7" }

/-- A handler that makes a tail call to `get` on the same actor and keeps the lock. -/
def tailGet (flow lock : String) : HandlerResult where
  dest := some (.session "Account" "7" flow lock, "get")
  value := []
  err := none

def returns : HandlerResult where
  dest := none
  value := []
  err := none

/-- A request makes a tail call while another one waits, and the continuation returns. -/
theorem one_turn_of_tail_call :
    ∃ s, Reachable (Scheduler.step actorConfig) DistinctLocks init s ∧
      s.sessionTable account = some 0 ∧ (s.threads 1).place = .waiting ∧
      (s.threads 2).place = .releasing ∧ (∃! p, s.HasTurn 0 p) ∧ (s.pass 2).isSome = true := by
  have hok : runOk (Scheduler.step actorConfig) DistinctLocks init
      [.accept (callGet "r1" "f1" "" 0) 0, .schedule, .receive 0, .acquire 0, .enter 0 false 0,
        .accept (callGet "r2" "f2" "" 0) 0, .schedule, .finish 0 (tailGet "f1" "l1") false true 0,
        .accept (callGet "r1" "f1" "l1" 1) 0, .schedule, .acquire 2, .enter 2 false 0,
        .finish 2 returns false true 0] = true := by decide +kernel
  obtain ⟨s, hrun, hs⟩ := reachable_of_run .init hok
  have htable := eq_of_run (fun s => s.sessionTable account) (a := some 0) hrun (by decide +kernel)
  have hplaces := eq_of_run (fun s => ((s.threads 1).place, (s.threads 2).place))
    (a := (Place.waiting, Place.releasing)) hrun (by decide +kernel)
  obtain ⟨hwaiting, hreleasing⟩ := Prod.mk.inj hplaces
  obtain ⟨hturn, -, hsend⟩ := one_turn_per_instance hs
  exact ⟨s, hs, htable, hwaiting, hreleasing, hturn account 0 htable,
    hsend 2 (by rw [hreleasing]; rfl)⟩

/-! ## Idle collection -/

section Collection

variable {s s' : Scheduler}

/-- Every other queued goroutine of an instance that is removed has ended. -/
theorem Sound.ended_of_removing (h : Sound D s)
    (ht : (s.threads t).place = .removing ∨ (s.threads t).place = .closing)
    (hu : (s.threads u).before ≠ none) (hinst : (s.threads u).inst = (s.threads t).inst)
    (hne : u ≠ t) : (s.threads u).place = .ended := by
  obtain ⟨front, holder, hinv⟩ := h.chain
  obtain ⟨b, hb⟩ := Option.ne_none_iff_exists'.mp hu
  obtain ⟨howner, hafter⟩ := h.before u b hb
  have hphase : s.turns.phase u = (s.threads u).place.phase := phase_of_after (by simp [hafter])
  cases hp : (s.threads u).place.phase with
  | absent => cases hplace : (s.threads u).place <;> simp [hplace, Place.phase] at hp
  | waits =>
    -- The instance is not valid any more, so nobody waits for its turn.
    obtain ⟨b', hb', -, -, -, hvalid⟩ := hinv.waits u (hphase.trans hp)
    have hvalid : (s.instances b'.owner).valid = true := hvalid
    rw [Option.some.inj (hb'.symm.trans hb), howner, hinst, (h.locked t ht).1] at hvalid
    simp at hvalid
  | holds =>
    refine absurd (h.queued_unique hu (h.deactivates t ?_) hinst hp ?_) hne
    · rcases ht with ht | ht <;> rw [ht] <;> rfl
    · rcases ht with ht | ht <;> rw [ht] <;> rfl
  | gone => cases hplace : (s.threads u).place <;> simp [hplace, Place.phase] at hp ⊢

theorem arrival_inst (h : Arrival s i fresh target m s') :
    (s'.threads s.numThreads).inst = i ∧ (s'.instances i).valid = (s.instances i).valid ∧
      (s'.instances i).key = (s.instances i).key := by
  cases h with
  | resume => simp [resume, spawn]
  | reentrant => simp [bypass, spawn]
  | nonexclusive => simp [bypass, spawn]
  | queued => simp [enqueue, spawn, setInstance]

/-- The goroutine of a request is on the valid instance of its actor. -/
theorem Wf.schedule_valid (h : Wf s) (hl : s.loading = some l) (hs : s.schedule = some s') :
    (s'.instances (s'.threads s.numThreads).inst).valid = true ∧
      (s'.instances (s'.threads s.numThreads).inst).key = l.target.key := by
  obtain ⟨l', hl', hcases⟩ := h.schedule_cases hs
  obtain rfl := Option.some.inj (hl.symm.trans hl')
  rcases hcases with ⟨i, hentry, hvalid, harrival⟩ | ⟨-, harrival⟩
  · obtain ⟨hinst, hvalid', hkey⟩ := arrival_inst harrival
    have hinst : (s'.threads s.numThreads).inst = i := hinst
    rw [hinst, hvalid', hkey]
    exact ⟨hvalid, (h.table _ i hentry).1⟩
  · obtain ⟨hinst, hvalid', hkey⟩ := arrival_inst harrival
    have hinst : (s'.threads s.numThreads).inst = s.numInstances := hinst
    rw [hinst, hvalid', hkey]
    simp [Scheduler.newInstance, Scheduler.unloaded]

/-- **Idle collection.**  In every run: an actor has at most one valid instance, the one in
the table; a request is scheduled on the valid instance of its actor; the other queued
goroutines of an instance that is removed have ended; the removal deletes the entry of that
instance and no other; and no other goroutine has the turn of an instance during the callback
of its deactivation. -/
theorem collection_never_strands {cfg : SchedulerConfig}
    (h : Reachable (Scheduler.step cfg) (fun _ _ => True) init s) :
    (∀ i j, (s.instances i).valid = true → (s.instances j).valid = true →
        (s.instances i).key = (s.instances j).key →
        i = j ∧ s.sessionTable (s.instances i).key = some i) ∧
      (∀ l s', s.loading = some l → Scheduler.step cfg s .schedule = some s' →
        (s'.instances (s'.threads s.numThreads).inst).valid = true ∧
          (s'.instances (s'.threads s.numThreads).inst).key = l.target.key) ∧
      (∀ t u, (s.threads t).place = .removing ∨ (s.threads t).place = .closing →
        (s.threads u).before ≠ none → (s.threads u).inst = (s.threads t).inst → u ≠ t →
        (s.threads u).place = .ended) ∧
      (∀ t s', Scheduler.step cfg s (.remove t) = some s' →
        s.sessionTable (s.instances (s.threads t).inst).key = some (s.threads t).inst ∧
          ∀ k, k ≠ (s.instances (s.threads t).inst).key → s'.sessionTable k = s.sessionTable k) ∧
      ∀ t u c, (s.threads t).place = .callback → (s.threads u).place.phase = .holds →
        (s.threads u).after = some c → c.owner = (s.threads t).inst → u = t := by
  have hsound : Sound False s := .of_reachable (fun _ _ _ hf => hf.elim) h
  refine ⟨fun i j hi hj hkey => ?_, fun l s' hl hs => hsound.toWf.schedule_valid hl hs,
    fun t u ht hu hinst hne => hsound.ended_of_removing ht hu hinst hne, fun t s' hs => ?_,
    fun t u c ht hu hc howner => ?_⟩
  · have hentry := hsound.tabled i hi
    have hentry' := hsound.tabled j hj
    rw [← hkey, hentry] at hentry'
    exact ⟨Option.some.inj hentry', hentry⟩
  · obtain ⟨s₁, ho, hsame⟩ := step_outcome hs
    cases ho with
    | removed hplace =>
    refine ⟨hsound.removing t hplace, fun k hk => ?_⟩
    rw [hsame.sessionTable]
    show s.tableWithout t k = s.sessionTable k
    rw [tableWithout_apply, if_neg hk]
  · obtain ⟨b, hb⟩ := Option.ne_none_iff_exists'.mp
      (hsound.deactivates t (by rw [ht]; rfl))
    obtain ⟨hinst, hafter⟩ := hsound.before t b hb
    exact hsound.holder_unique hc hafter hu (by rw [ht]; rfl) (howner.trans hinst.symm)

end Collection

/-- A request is looked up while the instance it finds is removed. -/
theorem collection_races_with_accept :
    ∃ s, Reachable (Scheduler.step actorConfig) (fun _ _ => True) init s ∧
      (s.loading.map (·.entry)) = some (some 0) ∧ (s.threads 1).place = .removing ∧
      (s.threads 0).place = .ended ∧
      ∀ s', Scheduler.step actorConfig s (.remove 1) = some s' →
        s.sessionTable (s.instances (s.threads 1).inst).key = some (s.threads 1).inst := by
  have hok : runOk (Scheduler.step actorConfig) (fun _ _ => True) init
      [.accept (callGet "r1" "f1" "" 0) 0, .schedule, .receive 0, .acquire 0, .enter 0 false 0,
        .finish 0 returns false true 0, .pass 0, .collect 0 5, .receive 1, .claim 1 "u",
        .probe 1, .beginCallback 1, .callbackDone 1 false, .accept (callGet "r2" "f2" "" 0) 0,
        .settle 1] = true := by decide +kernel
  obtain ⟨s, hrun, hs⟩ := reachable_of_run .init hok
  have hloading := eq_of_run (fun s => s.loading.map (·.entry)) (a := some (some 0)) hrun
    (by decide +kernel)
  have hplace := eq_of_run (fun s => (s.threads 1).place) (a := .removing) hrun (by decide +kernel)
  have hqueued := eq_of_run (fun s => decide ((s.threads 0).before ≠ none ∧
    (s.threads 0).inst = (s.threads 1).inst)) (a := true) hrun (by decide +kernel)
  obtain ⟨hbefore, hinst⟩ := of_decide_eq_true hqueued
  obtain ⟨-, -, hended, hremove, -⟩ := collection_never_strands hs
  exact ⟨s, hs, hloading, hplace, hended 1 0 (.inl hplace) hbefore hinst (by decide),
    fun s' hs' => (hremove 1 s' hs').1⟩

end Scheduler

end Kar.Rpc
